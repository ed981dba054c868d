import Blocklist.Proofs.AllowList.Strip
import Blocklist.Proofs.Compilation.Ranks
import Blocklist.Proofs.Compilation.Views
import Blocklist.Proofs.Reduction.Counts

/-! The books of a compilation balance. Every rule that comes in, from a line or for an allowed site, goes out in exactly
one way: a step takes it away and counts it, it is emitted, or it is a network rule without a resource type, which is
kept but has no record. -/

namespace Blocklist

def Rule.isTypeless (defaults : TypeSet) (r : Rule) : Bool :=
  match r.body with
  | .network _ o => (o.effectiveTypes defaults).isEmpty
  | _ => false

/-- A network rule that blocks or allows has a record unless it is without a type. -/
theorem Record.isSome_ofRule? {r : Rule} (h : r.isNetwork = true → r.action = .block ∨ r.action = .allow)
    (defaults : TypeSet) (id : UInt32) :
    (ofRule? defaults id r).isSome = (r.isNetwork && !r.isTypeless defaults) := by
  cases hb : r.body with
  | network p o =>
    have hnetwork : r.isNetwork = true := by rw [Rule.isNetwork, hb]
    obtain ⟨a, ha⟩ : ∃ a, r.action.toRecord? = some a := by
      rcases h hnetwork with ha | ha <;> simp [ha, Action.toRecord?]
    rw [hnetwork, ofRule?, Rule.isTypeless, hb, ha]
    simp only
    split_ifs with he <;> simp [he]
  | cosmetic t | procedural t => simp [ofRule?, Rule.isNetwork, hb]

theorem Rule.isNetwork_of_isTypeless {defaults : TypeSet} {r : Rule} (h : r.isTypeless defaults = true) :
    r.isNetwork = true := by
  cases hb : r.body with
  | network p o => rw [isNetwork, hb]
  | cosmetic t | procedural t => simp [isTypeless, hb] at h

theorem Batch.length_recordsFrom_add (defaults : TypeSet) (id : UInt32) {rules : List Rule}
    (h : ∀ r ∈ rules, r.isNetwork = true → r.action = .block ∨ r.action = .allow) :
    (recordsFrom defaults id rules).length + rules.countP (Rule.isTypeless defaults) = rules.countP Rule.isNetwork := by
  have hrecords : (recordsFrom defaults id rules).length =
      rules.countP fun r => r.isNetwork && !r.isTypeless defaults := by
    rw [← List.length_map (f := Record.unnumbered), map_unnumbered_recordsFrom, List.length_filterMap_eq_countP]
    exact List.countP_congr fun r hr => by rw [Record.isSome_ofRule? (h r hr)]
  have htypeless : rules.countP (Rule.isTypeless defaults) =
      rules.countP fun r => r.isNetwork && r.isTypeless defaults := by
    refine List.countP_congr fun r _ => ?_
    rw [Bool.and_eq_true, and_iff_right_of_imp Rule.isNetwork_of_isTypeless]
  rw [hrecords, htypeless, List.countP_eq_countP_filter_add rules Rule.isNetwork (Rule.isTypeless defaults),
    List.countP_filter, List.countP_filter, Nat.add_comm]

/-- Every rule that is no network rule has one entry. -/
theorem CosmeticBundle.size_ofRules (rules : List Rule) :
    (ofRules rules).size = rules.countP fun r => !r.isNetwork := by
  simp only [ofRules, size, List.length_filterMap_eq_countP]
  induction rules with
  | nil => rfl
  | cons r rules ih =>
    obtain ⟨a, b, p, source, line⟩ := r
    simp only [List.countP_cons, ← ih]
    cases b <;> cases a <;> simp [hidden?, unhidden?, procedural?, Rule.isNetwork] <;> omega

namespace Compilation

def unique (c : Compilation) : List Rule := Reduction.distinct c.rules

def groups (c : Compilation) : List Rule := Reduction.grouped (Reduction.ranked c.unique)

/-- What the counts of a compilation count. The rules before a step are those after it and those it counts, so no count
is the difference of a shorter list and a longer one; and no group is empty, so that it has a first host. -/
structure Accounts (c : Compilation) : Prop where
  stripped : c.rules.length + c.ruleset.stats.stripped = (allRules c.settings c.readings).length
  stripped_eq : c.ruleset.stats.stripped =
    (allRules c.settings c.readings).countP (AllowList.contradicts (AllowList.domains c.settings.allowed))
  deduplicated : c.unique.length + c.ruleset.stats.deduplicated = c.rules.length
  deduplicated_eq : c.ruleset.stats.deduplicated =
    ∑ k ∈ (c.rules.map Rule.key).toFinset, ((c.rules.map Rule.key).count k - 1)
  merged : c.groups.length + c.ruleset.stats.merged = c.unique.length
  merged_eq : c.ruleset.stats.merged =
    ∑ k ∈ ((Reduction.ranked c.unique).filterMap Reduction.groupKey?).toFinset,
      ((Reduction.groupHosts (Reduction.ranked c.unique) k).length - 1)
  group : ∀ k ∈ (Reduction.ranked c.unique).filterMap Reduction.groupKey?,
    1 ≤ (Reduction.groupHosts (Reduction.ranked c.unique) k).length
  redundant : c.reduction.rules.length + c.ruleset.stats.redundant = c.groups.length
  truncated : c.kept.length + c.ruleset.stats.truncated = c.reduction.rules.length

section

variable [Regex.Library] (s : Settings) (lists : List FilterList)

theorem accounts_run : (run s lists).Accounts := by
  have hstrip := AllowList.length_strip_add s.allowed (allRules s (lists.map FilterList.read))
  have hdistinct := Reduction.length_distinct_add (run s lists).rules
  have hgrouped := Reduction.length_grouped_add (Reduction.ranked (run s lists).unique)
  rw [Reduction.length_ranked] at hgrouped
  constructor
  case stripped => exact Nat.add_sub_cancel' (Nat.le.intro hstrip)
  case stripped_eq => exact (Nat.eq_sub_of_add_eq' hstrip).symm
  case deduplicated => exact Nat.add_sub_cancel' (Nat.le.intro hdistinct)
  case deduplicated_eq => exact (Nat.eq_sub_of_add_eq' hdistinct).symm
  case merged => exact Nat.add_sub_cancel' (Nat.le.intro hgrouped)
  case merged_eq => exact (Nat.eq_sub_of_add_eq' hgrouped).symm
  case group => exact fun k hk => Reduction.one_le_length_groupHosts hk
  case redundant => exact Reduction.length_clear s.defaultTypeSet (run s lists).groups
  case truncated => exact Nat.add_sub_cancel' (kept_sublist s lists).length_le

theorem parsed_add_domains :
    (run s lists).ruleset.stats.parsed + (AllowList.domains s.allowed).toFinset.card =
      (allRules s (lists.map FilterList.read)).length := by
  rw [allRules, List.length_append, AllowList.length_exceptions, Nat.add_comm]
  rfl

/-- Network rules block or allow: the reduced ones come from network rules, and these do. -/
theorem action_of_isNetwork {o : Rule} (ho : o ∈ (run s lists).reduction.rules) (hn : o.isNetwork = true) :
    o.action = .block ∨ o.action = .allow := by
  have hseen : o.unplaced ∈ view .network (run s lists).reduction.rules := mem_view.mpr ⟨o, ho, hn, rfl⟩
  rw [view_reduction_run] at hseen
  obtain ⟨v, hv, hact, -⟩ := Reduction.exists_action_priority hseen
  obtain ⟨r, hr, hnetwork, rfl⟩ := mem_view.mp hv
  rw [Rule.unplaced_action, Rule.unplaced_action] at hact
  rw [← hact]
  rcases mem_allRules (List.mem_filter.mp hr).1 with ⟨d, n, rfl⟩ | hline
  · exact Or.inr rfl
  · cases hline with
    | network t q ha => exact ha
    | element t _ hb =>
      rcases hb with hb | hb <;> simp [Rule.isNetwork, hb] at hnetwork

/-- The network rules that are kept have a record each, those without a type apart. -/
theorem length_records_add :
    (run s lists).ruleset.records.length + (run s lists).kept.countP (Rule.isTypeless s.defaultTypeSet) =
      (run s lists).kept.countP Rule.isNetwork := by
  rw [records_run]
  apply Batch.length_recordsFrom_add
  intro r hr
  exact action_of_isNetwork s lists ((kept_sublist s lists).subset hr)

theorem finalCount_add :
    (run s lists).ruleset.stats.finalCount + (run s lists).kept.countP (Rule.isTypeless s.defaultTypeSet) =
      (run s lists).kept.length := by
  have hrecords := length_records_add s lists
  have hentries : (run s lists).ruleset.cosmetic.size = (run s lists).kept.countP fun r => !r.isNetwork :=
    CosmeticBundle.size_ofRules _
  have hkinds := countP_add_countP_not Rule.isNetwork (run s lists).kept
  have hfinal : (run s lists).ruleset.stats.finalCount =
      (run s lists).ruleset.records.length + (run s lists).ruleset.cosmetic.size := rfl
  omega

/-- Every rule is counted once. What is parsed and what is made for allowed sites is taken away by a step, emitted, or
kept without a type. -/
theorem stats_balance :
    (run s lists).ruleset.stats.parsed + (AllowList.domains s.allowed).toFinset.card =
      (run s lists).ruleset.stats.stripped + (run s lists).ruleset.stats.deduplicated +
        (run s lists).ruleset.stats.merged + (run s lists).ruleset.stats.redundant +
        (run s lists).ruleset.stats.truncated + (run s lists).ruleset.stats.finalCount +
        (run s lists).kept.countP (Rule.isTypeless s.defaultTypeSet) ∧
    (run s lists).Accounts := by
  have haccounts := accounts_run s lists
  refine ⟨?_, haccounts⟩
  have hin := parsed_add_domains s lists
  have hout := finalCount_add s lists
  have hstripped : (run s lists).rules.length + (run s lists).ruleset.stats.stripped =
      (allRules s (lists.map FilterList.read)).length := haccounts.stripped
  have hdeduplicated := haccounts.deduplicated
  have hmerged := haccounts.merged
  have hredundant := haccounts.redundant
  have htruncated := haccounts.truncated
  omega

end

end Compilation

end Blocklist
