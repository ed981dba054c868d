import Blocklist.Proofs.Compilation.Views
import Blocklist.Proofs.Reduction.Idempotent

/-! Network rules and element rules go through a compilation side by side. The bundle holds the element rules of the
lists, each once, whatever the settings and the network rules are. Without the element rules the batches are the same,
and so are the counts of what was grouped, covered, cut off and stripped. -/

namespace Blocklist

namespace Rule.Key

inductive IsElement : Key → Prop
  | hide (t : Target) : IsElement ⟨.hide, .cosmetic t⟩
  | unhide (t : Target) : IsElement ⟨.unhide, .cosmetic t⟩
  | procedural (t : Target) : IsElement ⟨.hide, .procedural t⟩

/-- The entry of a rule, if its action is `a` and its body is of this kind. -/
def entry? (a : Action) (kind : Target → Body) (k : Key) : Option ElementEntry :=
  match k.body with
  | .network .. => none
  | .cosmetic t | .procedural t => if k = ⟨a, kind t⟩ then some t.entry else none

theorem entry?_eq_some {a : Action} {kind : Target → Body} {k : Key} {e : ElementEntry}
    (h : k.entry? a kind = some e) : ∃ t : Target, k = ⟨a, kind t⟩ ∧ t.entry = e := by
  unfold entry? at h
  split at h
  · cases h
  all_goals
    split at h
    · exact ⟨_, by assumption, Option.some.inj h⟩
    · cases h

end Rule.Key

theorem Rule.isNetwork_of_isElement {r : Rule} (h : r.key.IsElement) : r.isNetwork = false := by
  obtain ⟨a, b, p, source, line⟩ := r
  cases h <;> rfl

theorem Target.entry_injective {t u : Target} (h : t.entry = u.entry) : t = u := by
  obtain ⟨selector, ⟨⟨is, _⟩, ⟨es, _⟩⟩⟩ := t
  obtain ⟨selector', ⟨⟨is', _⟩, ⟨es', _⟩⟩⟩ := u
  cases h
  rfl

namespace Line

def isElement : Line → Bool
  | .element .. => true
  | _ => false

/-- Element rules have the lowest rank, and no mark stands for an unhide of elements that only a program finds. -/
theorem isElement_unplacedRule? [Regex.Library] {l : Line} {r : Rule} (hl : l.isElement = true) (h : l.unplacedRule? = some r) :
    r.key.IsElement ∧ r.priority = Priority.base := by
  rcases rule?_cases (rule?_of_unplacedRule? h) with ⟨l, p, o, rfl, -, rfl⟩ | ⟨mark, pages, selector, rfl, -, rfl⟩
  · cases hl
  · refine ⟨?_, rfl⟩
    unfold Rule.key elementAction elementBody
    split_ifs with hu hp
    · rw [hu] at hp
      cases hp
    · exact .unhide _
    · exact .procedural _
    · exact .hide _

theorem isElement_of_not_network [Regex.Library] {l : Line} {r : Rule} (h : l.unplacedRule? = some r) (hr : r.isNetwork = false) :
    l.isElement = true := by
  rcases rule?_cases (rule?_of_unplacedRule? h) with ⟨l, p, o, rfl, -, rfl⟩ | ⟨mark, pages, selector, rfl, -, rfl⟩
  · cases hr
  · rfl

end Line

namespace CosmeticBundle

/-- The bundle has an entry for each of the keys, each kind in their order, and none twice. -/
structure Collects (b : CosmeticBundle) (ks : List Rule.Key) : Prop where
  hide : b.hide = ks.filterMap (Rule.Key.entry? .hide .cosmetic)
  unhide : b.unhide = ks.filterMap (Rule.Key.entry? .unhide .cosmetic)
  procedural : b.procedural = ks.filterMap (Rule.Key.entry? .hide .procedural)
  size : b.size = ks.length
  nodup : b.hide.Nodup ∧ b.unhide.Nodup ∧ b.procedural.Nodup

theorem entry?_key {r : Rule} (h : r.key.IsElement) :
    hidden? r = r.key.entry? .hide .cosmetic ∧ unhidden? r = r.key.entry? .unhide .cosmetic ∧
      procedural? r = r.key.entry? .hide .procedural := by
  obtain ⟨a, b, p, source, line⟩ := r
  cases h <;> simp [hidden?, unhidden?, procedural?, Rule.Key.entry?, Rule.key]

theorem length_entries {ks : List Rule.Key} (h : ∀ k ∈ ks, k.IsElement) :
    (ks.filterMap (Rule.Key.entry? .hide .cosmetic)).length + (ks.filterMap (Rule.Key.entry? .unhide .cosmetic)).length +
      (ks.filterMap (Rule.Key.entry? .hide .procedural)).length = ks.length := by
  induction ks with
  | nil => rfl
  | cons k ks ih =>
    have hks := ih fun j hj => h j (List.mem_cons_of_mem k hj)
    -- a key has its entry in exactly one of the three lists
    cases h k (by simp) <;> simp [Rule.Key.entry?] <;> omega

theorem nodup_entries {ks : List Rule.Key} (h : ks.Nodup) (a : Action) (kind : Target → Body) :
    (ks.filterMap (Rule.Key.entry? a kind)).Nodup := by
  refine h.filterMap fun k k' e hk hk' => ?_
  obtain ⟨t, rfl, he⟩ := Rule.Key.entry?_eq_some hk
  obtain ⟨t', rfl, he'⟩ := Rule.Key.entry?_eq_some hk'
  rw [Target.entry_injective (he.trans he'.symm)]

theorem collects_ofRules {rules : List Rule} (hn : (rules.map Rule.key).Nodup) (h : ∀ r ∈ rules, r.key.IsElement) :
    (ofRules rules).Collects (rules.map Rule.key) := by
  have hentries (f : Rule → Option ElementEntry) (g : Rule.Key → Option ElementEntry)
      (hfg : ∀ r ∈ rules, f r = g r.key) : rules.filterMap f = (rules.map Rule.key).filterMap g := by
    rw [List.filterMap_map]
    exact List.filterMap_congr hfg
  have hkeys : ∀ k ∈ rules.map Rule.key, k.IsElement := by
    intro k hk
    obtain ⟨r, hr, rfl⟩ := List.mem_map.mp hk
    exact h r hr
  rw [ofRules, hentries _ _ fun r hr => (entry?_key (h r hr)).1, hentries _ _ fun r hr => (entry?_key (h r hr)).2.1,
    hentries _ _ fun r hr => (entry?_key (h r hr)).2.2]
  exact ⟨rfl, rfl, rfl, length_entries hkeys, nodup_entries hn _ _, nodup_entries hn _ _, nodup_entries hn _ _⟩

end CosmeticBundle

theorem eraseDups_append_singleton {α : Type} [DecidableEq α] (xs : List α) (x : α) :
    (xs ++ [x]).eraseDups = if x ∈ xs then xs.eraseDups else xs.eraseDups ++ [x] := by
  rw [List.eraseDups_append]
  split_ifs with h <;> simp [List.removeAll, h, List.eraseDups_cons]

namespace Reduction

/-- The distinct rules have the given keys, in the order in which these first occur. -/
theorem map_key_distinct (rules : List Rule) : (distinct rules).map Rule.key = (rules.map Rule.key).eraseDups := by
  induction rules using List.reverseRecOn with
  | nil => rfl
  | append_singleton rules r ih =>
    have hsnoc : distinct (rules ++ [r]) = absorb (distinct rules) r := by rw [distinct, List.foldl_append]; rfl
    rw [hsnoc, map_key_absorb, ih, List.map_append, List.map_singleton, eraseDups_append_singleton]
    simp only [List.mem_eraseDups]

/-- Element rules of one rank are only made distinct. -/
theorem rules_ofRules_element [Regex.Library] (defaults : TypeSet) {rules : List Rule} {p : UInt32}
    (h : ∀ r ∈ rules, r.isNetwork = false ∧ r.priority = p) : (ofRules defaults rules).rules = distinct rules := by
  have hdistinct : ∀ r ∈ distinct rules, r.isNetwork = false ∧ r.priority = p := by
    intro k hk
    obtain ⟨r, hr, hkey, hp⟩ := ((distinct_condenses rules).peak k hk).attained
    have hnetwork : r.isNetwork = k.isNetwork := isIn_of_key_eq (q := .network) hkey
    rw [← hnetwork, ← hp]
    exact h r hr
  have hranked : Ranked (distinct rules) := by
    refine List.pairwise_of_forall_mem_list fun a ha b hb => ?_
    rw [(hdistinct a ha).2, (hdistinct b hb).2]
    exact UInt32.le_refl p
  have hgrouped : grouped (distinct rules) = distinct rules :=
    groupFrom_of_groupKey?_none _ _ fun r hr => groupKey?_of_not_network (hdistinct r hr).1
  have huncovered : (distinct rules).Pairwise fun w r => covers defaults w r = false := by
    refine List.pairwise_of_forall_mem_list fun w _ r hr => ?_
    rw [Bool.eq_false_iff]
    intro hc
    have hnetwork := isNetwork_of_covers hc
    rw [(hdistinct r hr).1] at hnetwork
    cases hnetwork
  have hclear : clear defaults (distinct rules) = ⟨distinct rules, []⟩ := clearFrom_eq_self huncovered
  simp only [ofRules, ranked_eq_self hranked, hgrouped, hclear]

end Reduction

/-- `t'` has blank lines in the place of element lines of `t`. -/
def Text.Blanked (t t' : Text) : Prop :=
  List.Forall₂ (fun line line' => line' = line ∨ (Line.ofText line).isElement = true ∧ line'.trim = [])
    (splitOn '\n' t) (splitOn '\n' t')

instance (t t' : Text) : Decidable (t.Blanked t') := inferInstanceAs (Decidable (List.Forall₂ _ _ _))

/-- Blank lines for element lines leave the network rules as they are. -/
theorem Text.Blanked.view_network [Regex.Library] {t t' : Text} (h : t.Blanked t') :
    view .network ((Line.ofTextLines t').filterMap Line.unplacedRule?) =
      view .network ((Line.ofTextLines t).filterMap Line.unplacedRule?) := by
  unfold Text.Blanked at h
  unfold Line.ofTextLines
  generalize splitOn '\n' t = lines, splitOn '\n' t' = lines' at h
  induction h with
  | nil => rfl
  | @cons line line' lines lines' hline _ ih =>
    rw [List.map_cons, List.map_cons, List.filterMap_cons, List.filterMap_cons]
    rcases hline with rfl | ⟨helem, hblank⟩
    · cases (Line.ofText line').unplacedRule? with
      | none => exact ih
      | some r =>
        change view .network ([r] ++ _) = view .network ([r] ++ _)
        rw [view_append, view_append, ih]
    · have hsilent : (Line.ofText line').unplacedRule? = none := by
        rw [Line.ofText_of_trim_eq_nil hblank]
        rfl
      rw [hsilent]
      cases hrule : (Line.ofText line).unplacedRule? with
      | none => exact ih
      | some r =>
        have hr : r.isIn .network = false := Rule.isNetwork_of_isElement (Line.isElement_unplacedRule? helem hrule).1
        exact ih.trans (view_cons_of_not_isIn hr _).symm

namespace Compilation

def elementKeys [Regex.Library] (lists : List FilterList) : List Rule.Key :=
  (((listRules lists).filter fun r => !r.isNetwork).map Rule.key).eraseDups

theorem map_key_view_element (rules : List Rule) :
    (view .element rules).map Rule.key = (rules.filter fun r => !r.isNetwork).map Rule.key := by
  rw [view, List.map_map]
  rfl

section

variable [Regex.Library]

theorem isElement_of_mem_view {lists : List FilterList} {v : Rule} (h : v ∈ view .element (listRules lists)) :
    v.isNetwork = false ∧ v.key.IsElement ∧ v.priority = Priority.base := by
  rw [← view_view_all, view_all_listRules] at h
  obtain ⟨r, hr, hin, rfl⟩ := mem_view.mp h
  obtain ⟨l, -, hl⟩ := List.mem_filterMap.mp hr
  have hnetwork : r.isNetwork = false := by simpa using hin
  exact ⟨hnetwork, Line.isElement_unplacedRule? (r := r) (Line.isElement_of_not_network hl hnetwork) hl⟩

theorem collects_elementKeys (s : Settings) (lists : List FilterList) :
    (run s lists).ruleset.cosmetic.Collects (elementKeys lists) := by
  have hseen (v : Rule) (hv : v ∈ view .element (listRules lists)) := isElement_of_mem_view hv
  have hdistinct := Reduction.distinct_condenses (view .element (listRules lists))
  rw [cosmetic_run, Reduction.rules_ofRules_element _ fun v hv => ⟨(hseen v hv).1, (hseen v hv).2.2⟩, elementKeys,
    ← map_key_view_element, ← Reduction.map_key_distinct]
  apply CosmeticBundle.collects_ofRules hdistinct.nodup
  intro k hk
  obtain ⟨v, hv, hkey, -⟩ := (hdistinct.peak k hk).attained
  rw [← hkey]
  exact (hseen v hv).2.1

theorem view_network_blanked {lists lists' : List FilterList}
    (h : List.Forall₂ (fun l l' => l.text.Blanked l'.text) lists lists') :
    view .network (listRules lists') = view .network (listRules lists) := by
  rw [← view_view_all, ← view_view_all .network (listRules lists), view_all_listRules, view_all_listRules]
  induction h with
  | nil => rfl
  | cons hl _ ih =>
    rw [List.flatMap_cons, List.flatMap_cons, List.filterMap_append, List.filterMap_append, view_append, view_append,
      hl.view_network, ih]

/-- The bundle collects the element rules of the lists, whatever else is in the lists and the settings. With blank lines
in their place the lists give the same batches, and as many rules are grouped, covered, cut off and stripped. -/
theorem element_network_independent (s : Settings) (lists : List FilterList) :
    (run s lists).ruleset.cosmetic.Collects (elementKeys lists) ∧
    ∀ lists', List.Forall₂ (fun l l' => l.text.Blanked l'.text) lists lists' →
      (run s lists').ruleset.batches = (run s lists).ruleset.batches ∧
      (run s lists').ruleset.stats.merged = (run s lists).ruleset.stats.merged ∧
      (run s lists').ruleset.stats.redundant = (run s lists).ruleset.stats.redundant ∧
      (run s lists').ruleset.stats.truncated = (run s lists).ruleset.stats.truncated ∧
      (run s lists').ruleset.stats.stripped = (run s lists).ruleset.stats.stripped := by
  refine ⟨collects_elementKeys s lists, ?_⟩
  intro lists' h
  have hview := view_network_blanked h
  exact ⟨batches_congr hview, merged_congr hview, redundant_congr hview, truncated_congr hview, stripped_congr hview⟩

end

def pageList : FilterList :=
  ⟨"page".toList, "##.ad\n||ads.com^\nshop.com#@#.ad\n##.ad\n#?#div:has(.ad)\n@@||pay.com^".toList⟩

def plainPageList : FilterList := ⟨"page".toList, "\n||ads.com^\n \n\n\r\n@@||pay.com^".toList⟩

theorem element_network_independent_pageList :
    pageList.text.Blanked plainPageList.text ∧
    (run {} [plainPageList]).ruleset.batches = (run {} [pageList]).ruleset.batches ∧
    (run {} [pageList]).ruleset.cosmetic.hide = [⟨".ad".toList, [], []⟩] ∧
    (run {} [pageList]).ruleset.cosmetic.unhide = [⟨".ad".toList, ["shop.com".toList], []⟩] ∧
    (run {} [pageList]).ruleset.cosmetic.procedural = [⟨"div:has(.ad)".toList, [], []⟩] := by
  have hblank : pageList.text.Blanked plainPageList.text := by decide
  obtain ⟨hcollects, hsame⟩ := element_network_independent {} [pageList]
  refine ⟨hblank, (hsame [plainPageList] (.cons hblank .nil)).1, ?_⟩
  rw [hcollects.hide, hcollects.unhide, hcollects.procedural]
  decide

end Compilation

end Blocklist
