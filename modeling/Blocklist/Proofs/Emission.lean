import Blocklist.Compilation
import Mathlib.Tactic.SplitIfs

/-! The records that a compilation emits. Cutting them into batches loses none and keeps their order, and apart from
its number each is the record of one rule. -/

namespace Blocklist

@[simp] theorem Action.toRecord?_eq_block {a : Action} : a.toRecord? = some .block ↔ a = .block := by
  cases a <;> simp [toRecord?]

@[simp] theorem Action.toRecord?_eq_allow {a : Action} : a.toRecord? = some .allow ↔ a = .allow := by
  cases a <;> simp [toRecord?]

namespace Record

def unnumbered (x : Record) : Record := { x with id := 0 }

theorem ofRule?_eq_some {defaults : TypeSet} {id : UInt32} {r : Rule} {x : Record} :
    ofRule? defaults id r = some x ↔
      ∃ p o a, r.body = .network p o ∧ r.action.toRecord? = some a ∧ (o.effectiveTypes defaults).isEmpty = false ∧
        x = ⟨id, r.priority, a, Condition.ofNetwork p o (o.effectiveTypes defaults)⟩ := by
  unfold ofRule?
  split
  · rename_i p o a hb ha
    simp only [hb, ha, Body.network.injEq, Option.some.injEq]
    split_ifs with he
    · simp only [false_iff]
      rintro ⟨_, _, _, ⟨rfl, rfl⟩, rfl, hne, -⟩
      rw [he] at hne
      cases hne
    · constructor
      · rintro h
        exact ⟨p, o, a, ⟨rfl, rfl⟩, rfl, by simpa using he, (Option.some.inj h).symm⟩
      · rintro ⟨_, _, _, ⟨rfl, rfl⟩, rfl, -, rfl⟩
        rfl
  · rename_i hne
    simp only [reduceCtorEq, false_iff]
    rintro ⟨p, o, a, hb, ha, -⟩
    exact hne p o a hb ha

theorem toRecord?_of_ofRule? {defaults : TypeSet} {id : UInt32} {r : Rule} {x : Record}
    (h : ofRule? defaults id r = some x) : r.action.toRecord? = some x.action := by
  obtain ⟨p, o, a, -, ha, -, rfl⟩ := ofRule?_eq_some.mp h
  exact ha

theorem priority_of_ofRule? {defaults : TypeSet} {id : UInt32} {r : Rule} {x : Record}
    (h : ofRule? defaults id r = some x) : x.priority = r.priority := by
  obtain ⟨p, o, a, -, -, -, rfl⟩ := ofRule?_eq_some.mp h
  rfl

theorem ofRule?_unnumbered (defaults : TypeSet) (id : UInt32) (r : Rule) :
    (ofRule? defaults id r).map unnumbered = ofRule? defaults 0 r := by
  unfold ofRule?
  split
  · simp only
    split_ifs <;> rfl
  · rfl

theorem ofRule?_of_unnumbered {defaults : TypeSet} {id : UInt32} {r : Rule} {x : Record}
    (h : ofRule? defaults id r = some x.unnumbered) : ofRule? defaults x.id r = some x := by
  obtain ⟨p, o, a, hb, ha, hne, he⟩ := ofRule?_eq_some.mp h
  obtain ⟨-, hp, hact, hcond⟩ := Record.mk.inj he
  refine ofRule?_eq_some.mpr ⟨p, o, a, hb, ha, hne, ?_⟩
  rw [← hp, ← hact, ← hcond]

end Record

namespace Batch

theorem flatten_pieces (size : Nat) (xs : List α) : (pieces size xs).flatten = xs := by
  induction xs using pieces.induct size with
  | case1 => simp [pieces]
  | case2 xs h ih =>
    rw [pieces, dif_neg h, List.flatten_cons, ih, List.take_append_drop]

theorem flatMap_records_numberFrom (n : Nat) (ps : List (List Record)) :
    (numberFrom n ps).flatMap records = ps.flatten := by
  induction ps generalizing n with
  | nil => rfl
  | cons p ps ih => rw [numberFrom, List.flatMap_cons, ih, List.flatten_cons]

theorem flatMap_records_ofRules (defaults : TypeSet) (size : Nat) (rules : List Rule) :
    (ofRules defaults size rules).flatMap records = recordsFrom defaults 1 rules := by
  rw [ofRules, flatMap_records_numberFrom, flatten_pieces]

/-- Numbers apart, each rule gives its record, if it has one. -/
theorem map_unnumbered_recordsFrom (defaults : TypeSet) (id : UInt32) (rules : List Rule) :
    (recordsFrom defaults id rules).map Record.unnumbered = rules.filterMap (Record.ofRule? defaults 0) := by
  induction rules generalizing id with
  | nil => rfl
  | cons r rules ih =>
    have hr := Record.ofRule?_unnumbered defaults id r
    unfold recordsFrom
    cases ho : Record.ofRule? defaults id r with
    | none =>
      rw [ho] at hr
      rw [List.filterMap_cons_none hr.symm]
      exact ih id
    | some x =>
      rw [ho] at hr
      rw [List.filterMap_cons_some hr.symm, List.map_cons]
      exact congrArg (x.unnumbered :: ·) (ih (id + 1))

/-- A record is that of one of the rules, under its own number. -/
theorem exists_rule_of_mem_recordsFrom {defaults : TypeSet} {id : UInt32} {rules : List Rule} {x : Record}
    (h : x ∈ recordsFrom defaults id rules) : ∃ r ∈ rules, Record.ofRule? defaults x.id r = some x := by
  have hx := List.mem_map_of_mem (f := Record.unnumbered) h
  rw [map_unnumbered_recordsFrom] at hx
  obtain ⟨r, hr, ho⟩ := List.mem_filterMap.mp hx
  exact ⟨r, hr, Record.ofRule?_of_unnumbered ho⟩

end Batch

def Ruleset.records (r : Ruleset) : List Record := r.batches.flatMap Batch.records

theorem capNetwork_sublist (n : Nat) (rules : List Rule) : (capNetwork n rules).Sublist rules := by
  induction rules generalizing n with
  | nil => exact .slnil
  | cons r rules ih =>
    unfold capNetwork
    split_ifs
    · cases n with
      | zero => exact (ih 0).cons r
      | succ n => exact (ih n).cons_cons r
    · exact (ih n).cons_cons r

namespace Compilation

theorem limit_sublist (s : Settings) (rules : List Rule) : (limit s rules).Sublist rules := by
  unfold limit
  split
  · exact .refl _
  · exact capNetwork_sublist _ rules

variable [Regex.Library]

theorem kept_sublist (s : Settings) (lists : List FilterList) :
    (run s lists).kept.Sublist (run s lists).reduction.rules := limit_sublist s _

theorem records_run (s : Settings) (lists : List FilterList) :
    (run s lists).ruleset.records = Batch.recordsFrom s.defaultTypeSet 1 (run s lists).kept :=
  Batch.flatMap_records_ofRules _ s.batchSize _

theorem map_unnumbered_records (s : Settings) (lists : List FilterList) :
    (run s lists).ruleset.records.map Record.unnumbered =
      (run s lists).kept.filterMap (Record.ofRule? s.defaultTypeSet 0) := by
  rw [records_run, Batch.map_unnumbered_recordsFrom]

theorem kept_of_unlimited {s : Settings} (h : s.maxRules = none) (lists : List FilterList) :
    (run s lists).kept = (run s lists).reduction.rules := by
  have hlimit : limit s (run s lists).reduction.rules = (run s lists).reduction.rules := by rw [limit, h]
  exact hlimit

/-- A rule that is kept has its record, if there is one, among those emitted. -/
theorem exists_record_of_mem_kept {s : Settings} {lists : List FilterList} {r : Rule} {x : Record}
    (hr : r ∈ (run s lists).kept) (hx : Record.ofRule? s.defaultTypeSet 0 r = some x) :
    ∃ y ∈ (run s lists).ruleset.records, Record.ofRule? s.defaultTypeSet y.id r = some y := by
  have hm : x ∈ (run s lists).ruleset.records.map Record.unnumbered := by
    rw [map_unnumbered_records]
    exact List.mem_filterMap.mpr ⟨r, hr, hx⟩
  obtain ⟨y, hy, rfl⟩ := List.mem_map.mp hm
  exact ⟨y, hy, Record.ofRule?_of_unnumbered hx⟩

/-- Every record that is emitted is that of a rule that the reduction left. -/
theorem exists_rule_of_mem_records {s : Settings} {lists : List FilterList} {x : Record}
    (h : x ∈ (run s lists).ruleset.records) :
    ∃ r ∈ (run s lists).reduction.rules, Record.ofRule? s.defaultTypeSet x.id r = some x := by
  rw [records_run] at h
  obtain ⟨r, hr, ho⟩ := Batch.exists_rule_of_mem_recordsFrom h
  exact ⟨r, (kept_sublist s lists).subset hr, ho⟩

end Compilation

end Blocklist
