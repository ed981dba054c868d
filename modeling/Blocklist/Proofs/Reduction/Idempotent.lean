import Blocklist.Proofs.Reading
import Blocklist.Proofs.Reduction.Unique

/-! A reduction has nothing left to reduce. `Reduced` says so without the passes: no two rules are equal, the ranks
fall, no two rules can be grouped, and no rule covers one behind it. -/

namespace Blocklist.Reduction

structure Reduced [Regex.Library] (defaults : TypeSet) (rules : List Rule) : Prop where
  unique : (rules.map Rule.key).Nodup
  ranked : Ranked rules
  /-- No group has two members. -/
  apart : (rules.filterMap groupKey?).Nodup
  uncovered : rules.Pairwise fun w r => covers defaults w r = false

theorem absorb_of_not_mem {ks : List Rule} {r : Rule} (h : r.key ∉ ks.map Rule.key) : absorb ks r = ks ++ [r] := by
  induction ks with
  | nil => rfl
  | cons k ks ih =>
    simp only [List.map_cons, List.mem_cons, not_or] at h
    rw [absorb, if_neg (Ne.symm h.1), ih h.2]
    rfl

theorem distinct_eq_self {rules : List Rule} (h : (rules.map Rule.key).Nodup) : distinct rules = rules := by
  induction rules using List.reverseRecOn with
  | nil => rfl
  | append_singleton rules r ih =>
    rw [List.map_append, List.nodup_append] at h
    have hr : r.key ∉ rules.map Rule.key := fun hm => h.2.2 _ hm _ (by simp) rfl
    calc distinct (rules ++ [r])
        = absorb (distinct rules) r := by rw [distinct, List.foldl_append]; rfl
      _ = absorb rules r := by rw [ih h.1]
      _ = rules ++ [r] := absorb_of_not_mem hr

theorem length_groupHosts (rules : List Rule) (k : GroupKey) :
    (groupHosts rules k).length = (rules.filterMap groupKey?).count k := by
  induction rules with
  | nil => rfl
  | cons r rules ih =>
    unfold groupHosts at ih ⊢
    cases hm : member? r with
    | none => simpa [groupKey?, hm] using ih
    | some m =>
      obtain ⟨h, j⟩ := m
      by_cases hj : j = k <;> simp [groupKey?, hm, hj, ih]

theorem isFirst_of_apart {rules : List Rule} (h : (rules.filterMap groupKey?).Nodup) {k : GroupKey} {r : Rule}
    (hr : r ∈ rules) (hk : groupKey? r = some k) : IsFirst rules k r := by
  obtain ⟨f, hf⟩ : ∃ f, rules.find? (fun s => groupKey? s = some k) = some f :=
    Option.isSome_iff_exists.mp (by simpa using ⟨r, hr, hk⟩)
  obtain ⟨hfm, hfk⟩ := find?_groupKey hf
  rwa [eq_of_nodup_filterMap h hfm hr hfk hk] at hf

theorem grouped_eq_self {rules : List Rule} (hn : rules.Nodup) (h : (rules.filterMap groupKey?).Nodup) :
    grouped rules = rules := by
  have hself : ∀ r ∈ rules, placed? rules r = some r := by
    intro r hr
    cases hk : groupKey? r with
    | none => exact placed?_of_groupKey?_none rules hk
    | some k =>
      rw [placed?_of_isFirst (isFirst_of_apart h hr hk)]
      rcases groupRule_cases rules hk with ⟨-, he⟩ | hg
      · rw [he]
      · have := hg.many
        rw [length_groupHosts] at this
        exact absurd (List.nodup_iff_count_le_one.mp h k) (by omega)
  rw [grouped_eq_filterMap hn, List.filterMap_congr hself, List.filterMap_some]

theorem not_clash_of_ungrouped {rules : List Rule} (h : Ungrouped rules) (k : GroupKey) (g f : Rule) :
    ¬ Clash (ranked (distinct rules)) k g f := by
  intro hc
  obtain ⟨r, hr, hk, -⟩ := ((distinct_condenses rules).peak g (mem_ranked_distinct.mp hc.given)).attained
  exact h r hr _ _ (Rule.Key.mk.inj (hk.trans hc.key)).2

section

variable [Regex.Library]

theorem clearFrom_eq_self {defaults : TypeSet} {kept rs : List Rule}
    (h : (kept.reverse ++ rs).Pairwise fun w r => covers defaults w r = false) :
    clearFrom defaults kept rs = ⟨kept.reverse ++ rs, []⟩ := by
  induction rs generalizing kept with
  | nil => rw [clearFrom, List.append_nil]
  | cons r rs ih =>
    have hr : ¬ (kept.any fun w => covers defaults w r) = true := by
      intro hany
      obtain ⟨w, hw, hc⟩ := List.any_eq_true.mp hany
      have := (List.pairwise_append.mp h).2.2 w (by simpa using hw) r (by simp)
      rw [this] at hc
      cases hc
    rw [clearFrom_of_not_covered rs hr, ih (by simpa using h)]
    simp

/-- Reduced rules go through all passes as they are. -/
theorem Reduced.ofRules_eq {defaults : TypeSet} {rules : List Rule} (h : Reduced defaults rules) :
    ofRules defaults rules = ⟨rules.length, rules, 0, 0, []⟩ := by
  have hg := grouped_eq_self (.of_map _ h.unique) h.apart
  have hc : clear defaults rules = ⟨rules, []⟩ := clearFrom_eq_self h.uncovered
  simp only [ofRules, distinct_eq_self h.unique, ranked_eq_self h.ranked, hg, hc, Nat.sub_self]

theorem apart_rules (defaults : TypeSet) (rules : List Rule) :
    ((ofRules defaults rules).rules.filterMap groupKey?).Nodup := by
  rw [List.Nodup, List.pairwise_filterMap, pairwise_rules_iff]
  -- a rule that could still be grouped is the first member of its group
  have hfirst (r o : Rule) (k : GroupKey) (ho : outcome? defaults (ranked (distinct rules)) r = some o)
      (hk : groupKey? o = some k) : IsFirst (ranked (distinct rules)) k r := by
    rcases placed?_cases (outcome?_eq_some.mp ho).1 with ⟨rfl, hf⟩ | ⟨j, -, hg⟩
    · exact hf k hk
    · rw [groupKey?_network hg.body (by simp)] at hk
      cases hk
  rintro r s hrs o ho p hp k hok _ hpk rfl
  obtain rfl := (hfirst r o k ho hok).unique (hfirst s p k hp hpk)
  exact List.nodup_iff_sublist.mp (.of_map _ (nodup_ranked_distinct rules)) r hrs

theorem uncovered_rules (defaults : TypeSet) (rules : List Rule) :
    (ofRules defaults rules).rules.Pairwise fun w r => covers defaults w r = false := by
  refine pairwise_rules_iff.mpr fun r s hrs o ho p hp => ?_
  rw [Bool.eq_false_iff]
  intro hc
  obtain ⟨v, q, hv⟩ := covers_wildcard hc
  obtain rfl := eq_of_placed?_wildcard (outcome?_eq_some.mp ho).1 hv
  rw [(outcome?_eq_some.mp hp).2 o hrs] at hc
  cases hc

theorem reduced_rules (defaults : TypeSet) {rules : List Rule} (h : Ungrouped rules) :
    Reduced defaults (ofRules defaults rules).rules where
  unique := nodup_keys_of_clashes_covered fun k g f hc => absurd hc (not_clash_of_ungrouped h k g f)
  ranked := rules_ranked defaults rules
  apart := apart_rules defaults rules
  uncovered := uncovered_rules defaults rules

/-- The rules of a compilation hold no group of hosts, and of such rules a second reduction takes nothing away. -/
theorem ofRules_idempotent (defaults : TypeSet) :
    (∀ (s : Settings) (lists : List FilterList), Ungrouped (Compilation.allRules s (lists.map FilterList.read))) ∧
    ∀ rules, Ungrouped rules →
      (ofRules defaults (ofRules defaults rules).rules).rules = (ofRules defaults rules).rules ∧
      (ofRules defaults (ofRules defaults rules).rules).deduplicated = 0 ∧
      (ofRules defaults (ofRules defaults rules).rules).merged = 0 ∧
      (ofRules defaults (ofRules defaults rules).rules).redundant = 0 := by
  refine ⟨ungrouped_allRules, fun rules h => ?_⟩
  rw [(reduced_rules defaults h).ofRules_eq]
  exact ⟨rfl, rfl, rfl, rfl⟩

end

/-- An exception, a wildcard, two hosts, one of them again, and a text that the wildcard covers. -/
def siteList : FilterList := ⟨[], "@@||c.com^\n*ads*\n||a.com^\n||b.com^\n||a.com^\n/ads/x".toList⟩

theorem ofRules_siteList_twice :
    Ungrouped siteList.read.rules ∧
    (ofRules .full (ofRules .full siteList.read.rules).rules).rules =
      [⟨.allow, .network (.hostAnchor "c.com".toList) {}, 10001, [], 1⟩,
       ⟨.block, .network (.wildcard "*ads*".toList) {}, 1, [], 2⟩,
       ⟨.block, .network (.hostGroup ["a.com".toList, "b.com".toList]) {}, 1, [], 3⟩] ∧
    (ofRules .full (ofRules .full siteList.read.rules).rules).redundant = 0 := by
  have hu := ungrouped_read siteList
  obtain ⟨hrules, -, -, hred⟩ := (ofRules_idempotent .full).2 _ hu
  refine ⟨hu, ?_, hred⟩
  rw [hrules, (ofRules_of_ranked .full (by decide)).1]
  decide

end Blocklist.Reduction
