import Blocklist.Proofs.Emission
import Blocklist.Proofs.Lines
import Blocklist.Proofs.Reading

/-! A compilation seen through a choice of its rules. Batches come from what is seen of the network rules, the bundle
of element rules from what is seen of the others, and so do the counts of what the steps took away. -/

namespace Blocklist

section view

/-- Places are taken away once and for all. -/
theorem view_view_all (q : Choice) (rules : List Rule) : view q (view .all rules) = view q rules := by
  rw [view_all]
  induction rules with
  | nil => rfl
  | cons r rules ih =>
    rw [List.map_cons]
    cases hr : r.isIn q with
    | true => rw [view_cons_of_isIn hr, view_cons_of_isIn (r := r.unplaced) hr, Rule.unplaced_unplaced, ih]
    | false => rw [view_cons_of_not_isIn hr, view_cons_of_not_isIn (r := r.unplaced) hr, ih]

/-- Every rule is a network rule or an element rule. -/
theorem length_views (rules : List Rule) :
    (view .network rules).length + (view .element rules).length = rules.length := by
  simp only [view, List.length_map]
  exact (List.length_eq_length_filter_add _).symm

/-- A step that takes no element rule takes as many rules as are seen to go among the network rules. -/
theorem length_sub_of_view_element {rules rules' : List Rule} (h : view .element rules' = view .element rules) :
    rules.length - rules'.length = (view .network rules).length - (view .network rules').length := by
  have hr := length_views rules
  have hr' := length_views rules'
  rw [h] at hr'
  omega

end view

namespace Record

theorem ofRule?_unplaced (defaults : TypeSet) (id : UInt32) (r : Rule) :
    ofRule? defaults id r.unplaced = ofRule? defaults id r := rfl

theorem ofRule?_of_not_network {r : Rule} (h : r.isNetwork = false) (defaults : TypeSet) (id : UInt32) :
    ofRule? defaults id r = none := by
  rw [Option.eq_none_iff_forall_ne_some]
  intro x hx
  obtain ⟨p, o, a, hb, -⟩ := ofRule?_eq_some.mp hx
  rw [Rule.isNetwork, hb] at h
  cases h

end Record

namespace Batch

theorem recordsFrom_view (defaults : TypeSet) (id : UInt32) (rules : List Rule) :
    recordsFrom defaults id (view .network rules) = recordsFrom defaults id rules := by
  induction rules generalizing id with
  | nil => rfl
  | cons r rules ih =>
    cases hr : r.isNetwork with
    | true =>
      rw [view_cons_of_isIn (by simpa using hr), recordsFrom, recordsFrom, Record.ofRule?_unplaced]
      cases Record.ofRule? defaults id r with
      | none => exact ih id
      | some x => exact congrArg (x :: ·) (ih (id + 1))
    | false =>
      rw [view_cons_of_not_isIn (by simpa using hr), ih, recordsFrom, Record.ofRule?_of_not_network hr]

theorem ofRules_congr (defaults : TypeSet) (size : Nat) {rules rules' : List Rule}
    (h : view .network rules = view .network rules') : ofRules defaults size rules = ofRules defaults size rules' := by
  rw [ofRules, ofRules, ← recordsFrom_view, h, recordsFrom_view]

end Batch

namespace CosmeticBundle

theorem filterMap_view {f : Rule → Option ElementEntry} (hplace : ∀ r, f r.unplaced = f r)
    (hnetwork : ∀ r, r.isNetwork = true → f r = none) (rules : List Rule) :
    (view .element rules).filterMap f = rules.filterMap f := by
  induction rules with
  | nil => rfl
  | cons r rules ih =>
    cases hr : r.isNetwork with
    | true => rw [view_cons_of_not_isIn (by simpa using hr), ih, List.filterMap_cons, hnetwork r hr]
    | false =>
      rw [view_cons_of_isIn (by simpa using hr), List.filterMap_cons, List.filterMap_cons, hplace, ih]

theorem ofRules_view (rules : List Rule) : ofRules (view .element rules) = ofRules rules := by
  have hnetwork (r : Rule) (hr : r.isNetwork = true) :
      hidden? r = none ∧ unhidden? r = none ∧ procedural? r = none := by
    unfold Rule.isNetwork at hr
    unfold hidden? unhidden? procedural?
    split at hr
    · rename_i hb
      simp [hb]
    · cases hr
  unfold ofRules
  rw [filterMap_view (fun _ => rfl) fun r hr => (hnetwork r hr).1,
    filterMap_view (fun _ => rfl) fun r hr => (hnetwork r hr).2.1,
    filterMap_view (fun _ => rfl) fun r hr => (hnetwork r hr).2.2]

end CosmeticBundle

namespace AllowList

theorem view_strip (q : Choice) (entries : List Text) (rules : List Rule) :
    view q (strip entries rules) = strip entries (view q rules) := by
  have hplace : ((fun r => !contradicts (domains entries) r) ∘ Rule.unplaced) =
      fun r => !contradicts (domains entries) r := rfl
  simp only [view, strip, List.filter_map, hplace, List.filter_filter, Bool.and_comm]

theorem contradicts_of_not_network {ds : List Text} {r : Rule} (h : r.isNetwork = false) :
    contradicts ds r = false := by
  have hhost : r.host? = none := by
    unfold Rule.isNetwork at h
    unfold Rule.host?
    split at h
    · cases h
    · rfl
  simp [contradicts, hhost]

theorem view_element_strip (entries : List Text) (rules : List Rule) :
    view .element (strip entries rules) = view .element rules := by
  rw [view_strip]
  apply List.filter_eq_self.mpr
  intro v hv
  obtain ⟨r, -, hr, rfl⟩ := mem_view.mp hv
  rw [contradicts_of_not_network (by simpa using hr), Bool.not_false]

end AllowList

namespace Reduction

theorem groupKey?_of_not_network {r : Rule} (h : r.isNetwork = false) : groupKey? r = none := by
  rw [Option.eq_none_iff_forall_ne_some]
  intro k hk
  have hin := isIn_of_groupKey? (q := .network) hk
  rw [Rule.isIn_network, h] at hin
  cases hin

theorem groupFrom_of_groupKey?_none (all : List Rule) (done : List GroupKey) {rs : List Rule}
    (h : ∀ r ∈ rs, groupKey? r = none) : groupFrom all done rs = rs := by
  induction rs with
  | nil => rfl
  | cons r rs ih =>
    simp only [groupFrom, h r (by simp)]
    exact congrArg (r :: ·) (ih fun r' hr' => h r' (by simp [hr']))

theorem view_element_grouped (rules : List Rule) : view .element (grouped rules) = view .element rules := by
  rw [view_grouped]
  apply groupFrom_of_groupKey?_none
  intro v hv
  obtain ⟨r, -, hin, rfl⟩ := mem_view.mp hv
  exact groupKey?_of_not_network (by simpa using hin)

variable [Regex.Library]

/-- Only network rules are grouped. -/
theorem merged_ofRules (defaults : TypeSet) (rules : List Rule) :
    (ofRules defaults rules).merged = (ofRules defaults (view .network rules)).merged := by
  have hsub := length_sub_of_view_element (view_element_grouped (ranked (distinct rules)))
  rw [view_grouped, view_ranked, view_distinct, length_ranked, length_ranked] at hsub
  exact hsub

theorem isNetwork_of_covers {defaults : TypeSet} {w r : Rule} (h : covers defaults w r = true) :
    r.isNetwork = true := by
  obtain ⟨-, -, p, o, -, -, hb, -⟩ := covers_iff.mp h
  rw [Rule.isNetwork, hb]

/-- Only network rules are covered. -/
theorem redundant_ofRules (defaults : TypeSet) (rules : List Rule) :
    (ofRules defaults rules).redundant = (ofRules defaults (view .network rules)).redundant := by
  have hall : ∀ r ∈ (ofRules defaults rules).covered, r.isIn .network = true := by
    intro r hr
    obtain ⟨w, -, hc, -⟩ := exists_cover hr
    exact isNetwork_of_covers hc
  rw [redundant, redundant, ← view_covered, view, List.length_map, List.filter_eq_self.mpr hall]

end Reduction

section capNetwork

variable {r : Rule}

theorem capNetwork_cons_element (h : r.isNetwork = false) (n : Nat) (rules : List Rule) :
    capNetwork n (r :: rules) = r :: capNetwork n rules := by
  cases n <;> simp [capNetwork, h]

theorem capNetwork_zero_cons (h : r.isNetwork = true) (rules : List Rule) :
    capNetwork 0 (r :: rules) = capNetwork 0 rules := by
  simp [capNetwork, h]

theorem capNetwork_succ_cons (h : r.isNetwork = true) (n : Nat) (rules : List Rule) :
    capNetwork (n + 1) (r :: rules) = r :: capNetwork n rules := by
  simp [capNetwork, h]

theorem view_network_capNetwork (n : Nat) (rules : List Rule) :
    view .network (capNetwork n rules) = capNetwork n (view .network rules) := by
  induction rules generalizing n with
  | nil => rfl
  | cons r rules ih =>
    cases hr : r.isNetwork with
    | true =>
      have hin : r.isIn .network = true := hr
      have hun : r.unplaced.isNetwork = true := hr
      cases n with
      | zero => rw [capNetwork_zero_cons hr, view_cons_of_isIn hin, capNetwork_zero_cons hun, ih]
      | succ n =>
        rw [capNetwork_succ_cons hr, view_cons_of_isIn hin, view_cons_of_isIn hin, capNetwork_succ_cons hun, ih]
    | false =>
      have hin : r.isIn .network = false := hr
      rw [capNetwork_cons_element hr, view_cons_of_not_isIn hin, view_cons_of_not_isIn hin, ih]

theorem view_element_capNetwork (n : Nat) (rules : List Rule) :
    view .element (capNetwork n rules) = view .element rules := by
  induction rules generalizing n with
  | nil => rfl
  | cons r rules ih =>
    cases hr : r.isNetwork with
    | true =>
      have hin : r.isIn .element = false := by simpa using hr
      cases n with
      | zero => rw [capNetwork_zero_cons hr, view_cons_of_not_isIn hin, ih]
      | succ n => rw [capNetwork_succ_cons hr, view_cons_of_not_isIn hin, view_cons_of_not_isIn hin, ih]
    | false =>
      have hin : r.isIn .element = true := by simpa using hr
      rw [capNetwork_cons_element hr, view_cons_of_isIn hin, view_cons_of_isIn hin, ih]

end capNetwork

namespace Compilation

def listRules [Regex.Library] (lists : List FilterList) : List Rule := (lists.map FilterList.read).flatMap ListReading.rules

/-- These are, without their places, the rules on the lines of the texts. -/
theorem view_all_listRules [Regex.Library] (lists : List FilterList) :
    view .all (listRules lists) =
      (lists.flatMap fun l => Line.ofTextLines l.text).filterMap Line.unplacedRule? := by
  rw [view_all]
  induction lists with
  | nil => rfl
  | cons l lists ih =>
    rw [List.flatMap_cons, List.filterMap_append, ← ih, ← FilterList.map_unplaced_rules, ← List.map_append]
    rfl

section

variable (s : Settings) (lists : List FilterList)

theorem view_network_limit (rules : List Rule) :
    view .network (limit s rules) = limit s (view .network rules) := by
  unfold limit
  split
  · rfl
  · exact view_network_capNetwork _ rules

theorem view_element_limit (rules : List Rule) : view .element (limit s rules) = view .element rules := by
  unfold limit
  split
  · rfl
  · exact view_element_capNetwork _ rules

theorem view_element_exceptions (types : TypeSet) (entries : List Text) :
    view .element (AllowList.exceptions types entries) = [] := by
  rw [List.eq_nil_iff_forall_not_mem]
  intro v hv
  obtain ⟨r, hr, hin, -⟩ := mem_view.mp hv
  obtain ⟨d, -, rfl⟩ := AllowList.mem_exceptions.mp hr
  cases hin

variable [Regex.Library]

theorem view_allRules (q : Choice) :
    view q (allRules s (lists.map FilterList.read)) =
      view q (AllowList.exceptions s.allowedTypeSet s.allowed) ++ view q (listRules lists) := view_append q _ _

theorem view_rules_run (q : Choice) :
    view q (run s lists).rules = AllowList.strip s.allowed (view q (allRules s (lists.map FilterList.read))) :=
  AllowList.view_strip q s.allowed _

theorem view_reduction_run (q : Choice) :
    view q (run s lists).reduction.rules = (Reduction.ofRules s.defaultTypeSet (view q (run s lists).rules)).rules :=
  Reduction.view_rules q s.defaultTypeSet _

theorem view_network_kept :
    view .network (run s lists).kept = limit s (view .network (run s lists).reduction.rules) := view_network_limit s _

theorem view_element_kept :
    view .element (run s lists).kept = view .element (run s lists).reduction.rules := view_element_limit s _

/-- What is cut off are network rules. -/
theorem truncated_run :
    (run s lists).ruleset.stats.truncated =
      (view .network (run s lists).reduction.rules).length - (view .network (run s lists).kept).length :=
  length_sub_of_view_element (view_element_kept s lists)

/-- The settings bring no element rules and strip none. -/
theorem view_element_rules : view .element (run s lists).rules = view .element (listRules lists) := by
  calc view .element (run s lists).rules
      = view .element (allRules s (lists.map FilterList.read)) := AllowList.view_element_strip s.allowed _
    _ = view .element (listRules lists) := by rw [view_allRules, view_element_exceptions, List.nil_append]

/-- The bundle is made of the element rules of the lists. -/
theorem cosmetic_run :
    (run s lists).ruleset.cosmetic =
      CosmeticBundle.ofRules (Reduction.ofRules s.defaultTypeSet (view .element (listRules lists))).rules := by
  have hkept : view .element (run s lists).kept =
      (Reduction.ofRules s.defaultTypeSet (view .element (listRules lists))).rules := by
    rw [view_element_kept, view_reduction_run, view_element_rules]
  rw [← hkept]
  exact (CosmeticBundle.ofRules_view _).symm

end

section

variable [Regex.Library] {s : Settings} {lists lists' : List FilterList} {q : Choice}

theorem view_allRules_congr (h : view q (listRules lists) = view q (listRules lists')) :
    view q (allRules s (lists.map FilterList.read)) = view q (allRules s (lists'.map FilterList.read)) := by
  rw [view_allRules, view_allRules, h]

theorem view_rules_congr (h : view q (listRules lists) = view q (listRules lists')) :
    view q (run s lists).rules = view q (run s lists').rules := by
  rw [view_rules_run, view_rules_run, view_allRules_congr h]

/-- What is seen of the lists determines what is seen of the reduced rules. -/
theorem view_reduction_congr (h : view q (listRules lists) = view q (listRules lists')) :
    view q (run s lists).reduction.rules = view q (run s lists').reduction.rules := by
  rw [view_reduction_run, view_reduction_run, view_rules_congr h]

theorem view_network_kept_congr (h : view .network (listRules lists) = view .network (listRules lists')) :
    view .network (run s lists).kept = view .network (run s lists').kept := by
  rw [view_network_kept, view_network_kept, view_reduction_congr h]

theorem batches_congr (h : view .network (listRules lists) = view .network (listRules lists')) :
    (run s lists).ruleset.batches = (run s lists').ruleset.batches :=
  Batch.ofRules_congr _ _ (view_network_kept_congr h)

theorem stripped_congr (h : view .network (listRules lists) = view .network (listRules lists')) :
    (run s lists).ruleset.stats.stripped = (run s lists').ruleset.stats.stripped := by
  have hstrip (lists : List FilterList) : (run s lists).ruleset.stats.stripped =
      (view .network (allRules s (lists.map FilterList.read))).length - (view .network (run s lists).rules).length :=
    length_sub_of_view_element (AllowList.view_element_strip s.allowed _)
  rw [hstrip, hstrip, view_allRules_congr h, view_rules_congr h]

theorem truncated_congr (h : view .network (listRules lists) = view .network (listRules lists')) :
    (run s lists).ruleset.stats.truncated = (run s lists').ruleset.stats.truncated := by
  rw [truncated_run, truncated_run, view_reduction_congr h, view_network_kept_congr h]

theorem merged_congr (h : view .network (listRules lists) = view .network (listRules lists')) :
    (run s lists).ruleset.stats.merged = (run s lists').ruleset.stats.merged := by
  have hmerge (lists : List FilterList) : (run s lists).ruleset.stats.merged =
      (Reduction.ofRules s.defaultTypeSet (view .network (run s lists).rules)).merged :=
    Reduction.merged_ofRules _ _
  rw [hmerge, hmerge, view_rules_congr h]

theorem redundant_congr (h : view .network (listRules lists) = view .network (listRules lists')) :
    (run s lists).ruleset.stats.redundant = (run s lists').ruleset.stats.redundant := by
  have hcov (lists : List FilterList) : (run s lists).ruleset.stats.redundant =
      (Reduction.ofRules s.defaultTypeSet (view .network (run s lists).rules)).redundant :=
    Reduction.redundant_ofRules _ _
  rw [hcov, hcov, view_rules_congr h]

end

end Compilation

end Blocklist
