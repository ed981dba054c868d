import Blocklist.Proofs.Emission
import Mathlib.Algebra.Group.Nat.Defs

/-! Numbers and batches. The rules that have a record are numbered from 1 on without a gap, in their order, and the
records are cut into full batches, of which only the last may be shorter. -/

namespace Blocklist

/-- The rule has a record: it blocks or allows requests, and some resource type is left for it. -/
def Rule.isEmittable (defaults : TypeSet) (r : Rule) : Bool :=
  match r.body with
  | .network _ o => (r.action == .block || r.action == .allow) && !(o.effectiveTypes defaults).isEmpty
  | _ => false

theorem Record.exists_ofRule? {defaults : TypeSet} {r : Rule} (h : r.isEmittable defaults = true) (id : UInt32) :
    ∃ x, ofRule? defaults id r = some x ∧ x.id = id := by
  cases hb : r.body with
  | network p o =>
    simp only [Rule.isEmittable, hb, Bool.and_eq_true, Bool.or_eq_true, beq_iff_eq, Bool.not_eq_true'] at h
    obtain ⟨a, ha⟩ : ∃ a, r.action.toRecord? = some a := by
      rcases h.1 with ha | ha <;> simp [ha, Action.toRecord?]
    exact ⟨_, ofRule?_eq_some.mpr ⟨p, o, a, hb, ha, h.2, rfl⟩, rfl⟩
  | cosmetic t | procedural t => simp [Rule.isEmittable, hb] at h

theorem Record.ofRule?_eq_none {defaults : TypeSet} {r : Rule} (h : r.isEmittable defaults = false) (id : UInt32) :
    ofRule? defaults id r = none := by
  rw [Option.eq_none_iff_forall_ne_some]
  intro x hx
  obtain ⟨p, o, a, hb, ha, htypes, -⟩ := ofRule?_eq_some.mp hx
  have haction : r.action = .block ∨ r.action = .allow := by
    cases a with
    | block => exact Or.inl (Action.toRecord?_eq_block.mp ha)
    | allow => exact Or.inr (Action.toRecord?_eq_allow.mp ha)
  rcases haction with haction | haction <;> simp [Rule.isEmittable, hb, haction, htypes] at h

namespace Batch

variable {defaults : TypeSet} {r : Rule}

theorem recordsFrom_cons_of_isEmittable (h : r.isEmittable defaults = true) (id : UInt32) (rules : List Rule) :
    ∃ x, Record.ofRule? defaults id r = some x ∧ x.id = id ∧
      recordsFrom defaults id (r :: rules) = x :: recordsFrom defaults (id + 1) rules := by
  obtain ⟨x, hx, hid⟩ := Record.exists_ofRule? h id
  exact ⟨x, hx, hid, by rw [recordsFrom, hx]⟩

theorem recordsFrom_cons_of_not_isEmittable (h : r.isEmittable defaults = false) (id : UInt32) (rules : List Rule) :
    recordsFrom defaults id (r :: rules) = recordsFrom defaults id rules := by
  rw [recordsFrom, Record.ofRule?_eq_none h]

/-- The records are those of the emittable rules, each under the number of its place among them. -/
theorem map_some_recordsFrom (id : UInt32) (rules : List Rule) :
    (recordsFrom defaults id rules).map some =
      (rules.filter (Rule.isEmittable defaults)).mapIdx fun i r => Record.ofRule? defaults (id + .ofNat i) r := by
  induction rules generalizing id with
  | nil => rfl
  | cons r rules ih =>
    cases h : r.isEmittable defaults with
    | false =>
      rw [recordsFrom_cons_of_not_isEmittable h, List.filter_cons_of_neg (by simp [h])]
      exact ih id
    | true =>
      obtain ⟨x, hx, -, hrecords⟩ := recordsFrom_cons_of_isEmittable h id rules
      have hfirst : id + UInt32.ofNat 0 = id := UInt32.add_zero id
      have hnext (i : Nat) : id + 1 + UInt32.ofNat i = id + UInt32.ofNat (i + 1) := by
        rw [UInt32.ofNat_add, UInt32.add_assoc, UInt32.add_comm 1]
        rfl
      rw [hrecords, List.filter_cons_of_pos h, List.mapIdx_cons, List.map_cons, ih, hfirst, hx]
      simp only [hnext]

/-- As long as the numbers do not run over, they are consecutive. -/
theorem map_id_recordsFrom (id : UInt32) (rules : List Rule)
    (h : id.toNat + rules.countP (Rule.isEmittable defaults) < 2 ^ 32) :
    (recordsFrom defaults id rules).map (·.id.toNat) =
      List.range' id.toNat (rules.countP (Rule.isEmittable defaults)) := by
  induction rules generalizing id with
  | nil => rfl
  | cons r rules ih =>
    cases hr : r.isEmittable defaults with
    | false =>
      rw [List.countP_cons_of_neg (by simp [hr])] at h ⊢
      rw [recordsFrom_cons_of_not_isEmittable hr]
      exact ih id h
    | true =>
      obtain ⟨x, -, hid, hrecords⟩ := recordsFrom_cons_of_isEmittable hr id rules
      rw [List.countP_cons_of_pos hr] at h ⊢
      have hnext : (id + 1).toNat = id.toNat + 1 := by
        rw [UInt32.toNat_add]
        exact Nat.mod_eq_of_lt (by simp; omega)
      rw [hrecords, List.map_cons, hid, List.range'_succ, ih (id + 1) (by omega), hnext]

theorem ne_nil_of_mem_pieces {size : Nat} {xs p : List α} (h : p ∈ pieces size xs) : p ≠ [] := by
  induction xs using pieces.induct size with
  | case1 => simp [pieces] at h
  | case2 xs hne ih =>
    rw [pieces, dif_neg hne] at h
    rcases List.mem_cons.mp h with rfl | h
    · simpa using hne
    · exact ih h

theorem length_le_of_mem_pieces {size : Nat} {xs p : List α} (h : p ∈ pieces size xs) : p.length ≤ size + 1 := by
  induction xs using pieces.induct size with
  | case1 => simp [pieces] at h
  | case2 xs hne ih =>
    rw [pieces, dif_neg hne] at h
    rcases List.mem_cons.mp h with rfl | h
    · exact List.length_take_le _ _
    · exact ih h

/-- A piece with another one behind it is full. -/
theorem length_of_mem_dropLast_pieces {size : Nat} {xs p : List α} (h : p ∈ (pieces size xs).dropLast) :
    p.length = size + 1 := by
  induction xs using pieces.induct size with
  | case1 => simp [pieces] at h
  | case2 xs hne ih =>
    rw [pieces, dif_neg hne] at h
    by_cases hrest : xs.drop (size + 1) = []
    · rw [hrest] at h
      simp [pieces] at h
    · have hlong : size + 1 < xs.length := by simpa using hrest
      have hpieces : pieces size (xs.drop (size + 1)) ≠ [] := by
        rw [pieces, dif_neg hrest]
        exact List.cons_ne_nil _ _
      rw [List.dropLast_cons_of_ne_nil hpieces] at h
      rcases List.mem_cons.mp h with rfl | h
      · rw [List.length_take]
        omega
      · exact ih h

theorem map_records_numberFrom (n : Nat) (ps : List (List Record)) : (numberFrom n ps).map records = ps := by
  induction ps generalizing n with
  | nil => rfl
  | cons p ps ih => rw [numberFrom, List.map_cons, ih]

theorem map_index_numberFrom (n : Nat) (ps : List (List Record)) :
    (numberFrom n ps).map index = List.range' n ps.length := by
  induction ps generalizing n with
  | nil => rfl
  | cons p ps ih => rw [numberFrom, List.map_cons, ih, List.length_cons, List.range'_succ]

variable (defaults) (size : Nat) (rules : List Rule)

theorem map_records_ofRules :
    (ofRules defaults size rules).map records = pieces (size - 1) (recordsFrom defaults 1 rules) :=
  map_records_numberFrom 0 _

theorem map_index_ofRules :
    (ofRules defaults size rules).map index = List.range (ofRules defaults size rules).length := by
  have hlength : (ofRules defaults size rules).length = (pieces (size - 1) (recordsFrom defaults 1 rules)).length := by
    rw [← map_records_ofRules, List.length_map]
  rw [hlength, List.range_eq_range', ofRules, map_index_numberFrom]

/-- The batches hold the records of the emittable rules, numbered from 1 on. They are numbered from 0 on, none is empty,
and all but the last are full; a size of zero counts as one. -/
theorem ofRules_numbered (h : rules.countP (Rule.isEmittable defaults) < 2 ^ 32 - 1) :
    ((ofRules defaults size rules).flatMap records).map some =
      (rules.filter (Rule.isEmittable defaults)).mapIdx (fun i r => Record.ofRule? defaults (.ofNat (i + 1)) r) ∧
    ((ofRules defaults size rules).flatMap records).map (·.id.toNat) =
      List.range' 1 (rules.countP (Rule.isEmittable defaults)) ∧
    (ofRules defaults size rules).map index = List.range (ofRules defaults size rules).length ∧
    (∀ b ∈ ofRules defaults size rules, b.records ≠ [] ∧ b.records.length ≤ max size 1) ∧
    (∀ b ∈ (ofRules defaults size rules).dropLast, b.records.length = max size 1) ∧
    ∀ size', (ofRules defaults size' rules).flatMap records = (ofRules defaults size rules).flatMap records := by
  have hsize : max size 1 = size - 1 + 1 := by omega
  have hpieces := map_records_ofRules defaults size rules
  refine ⟨?_, ?_, map_index_ofRules defaults size rules, ?_, ?_, ?_⟩
  · rw [flatMap_records_ofRules, map_some_recordsFrom]
    congr 1
    funext i r
    rw [UInt32.add_comm, UInt32.ofNat_add]
    rfl
  · rw [flatMap_records_ofRules]
    exact map_id_recordsFrom 1 rules (by simp; omega)
  · intro b hb
    have hmem : b.records ∈ pieces (size - 1) (recordsFrom defaults 1 rules) := hpieces ▸ List.mem_map_of_mem hb
    exact ⟨ne_nil_of_mem_pieces hmem, hsize ▸ length_le_of_mem_pieces hmem⟩
  · intro b hb
    have hmem : b.records ∈ (pieces (size - 1) (recordsFrom defaults 1 rules)).dropLast := by
      rw [← hpieces, ← List.map_dropLast]
      exact List.mem_map_of_mem hb
    rw [hsize]
    exact length_of_mem_dropLast_pieces hmem
  · intro size'
    rw [flatMap_records_ofRules, flatMap_records_ofRules]

def bannerRule (a : Action) (o : Options) : Rule :=
  ⟨a, .network (.substring "banner".toList) o, 1, "list".toList, 1⟩

def bannerRules : List Rule :=
  [bannerRule .block {}, bannerRule .block { excludedTypes := .full }, bannerRule .allow {},
   ⟨.hide, .cosmetic { selector := ".ad".toList }, 1, "list".toList, 4⟩, bannerRule .block { important := true }]

theorem ofRules_numbered_bannerRules :
    bannerRules.countP (Rule.isEmittable defaultTypes) < 2 ^ 32 - 1 ∧
    ((ofRules defaultTypes 2 bannerRules).flatMap records).map (·.id.toNat) = [1, 2, 3] ∧
    ∀ b ∈ (ofRules defaultTypes 2 bannerRules).dropLast, b.records.length = 2 := by
  have hcount : bannerRules.countP (Rule.isEmittable defaultTypes) = 3 := by decide
  have hlt : bannerRules.countP (Rule.isEmittable defaultTypes) < 2 ^ 32 - 1 := by omega
  obtain ⟨-, hids, -, -, hfull, -⟩ := ofRules_numbered defaultTypes 2 bannerRules hlt
  rw [hcount] at hids
  exact ⟨hlt, hids, hfull⟩

end Batch

end Blocklist
