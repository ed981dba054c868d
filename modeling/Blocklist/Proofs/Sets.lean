import Blocklist.NameSet
import Blocklist.Resource

/-! Sets of names and of resource types are known by their members. -/

namespace Blocklist

namespace NameSet

theorem mem_insert {s : NameSet} {x y : Text} : x ∈ s.insert y ↔ x = y ∨ x ∈ s := mem_insertName

theorem not_mem_empty (x : Text) : x ∉ empty := List.not_mem_nil

theorem mem_foldl_insert {xs : List Text} {s : NameSet} {x : Text} : x ∈ xs.foldl insert s ↔ x ∈ s ∨ x ∈ xs := by
  induction xs generalizing s with
  | nil => simp
  | cons y xs ih =>
    rw [List.foldl_cons, ih, mem_insert, List.mem_cons, or_assoc, or_left_comm]

/-- Increasing lists with the same members are the same. -/
theorem eq_of_mem_iff {s t : NameSet} (h : ∀ x, x ∈ s ↔ x ∈ t) : s = t := by
  have hnodup (s : NameSet) : s.names.Nodup := by
    apply s.increasing.imp
    rintro a _ hab rfl
    rw [Text.before_irrefl] at hab
    cases hab
  have hperm : s.names.Perm t.names := (List.perm_ext_iff_of_nodup (hnodup s) (hnodup t)).mpr h
  have hnames : s.names = t.names := by
    refine hperm.eq_of_pairwise (fun a b _ _ hab hba => ?_) s.increasing t.increasing
    have haa := Text.before_trans hab hba
    rw [Text.before_irrefl] at haa
    cases haa
  exact NameSet.mk.injEq .. ▸ hnames

theorem foldl_insert_names (s : NameSet) : s.names.foldl insert empty = s :=
  eq_of_mem_iff fun x => by
    rw [mem_foldl_insert, or_iff_right (not_mem_empty x)]
    rfl

end NameSet

namespace TypeSet

theorem mem_toList {s : TypeSet} {t : ResourceType} : t ∈ s.toList ↔ s.contains t = true := by
  have ht : t ∈ ResourceType.all := by cases t <;> decide
  simp [toList, ht]

theorem eq_of_contains {s t : TypeSet} (h : ∀ r, s.contains r = t.contains r) : s = t := by
  have hindex : ∀ i < 12, i ∈ ResourceType.all.map ResourceType.index := by decide
  have hbits : s.bits = t.bits := by
    apply BitVec.eq_of_getLsbD_eq
    intro i hi
    obtain ⟨r, -, rfl⟩ := List.mem_map.mp (hindex i hi)
    exact h r
  exact TypeSet.mk.injEq .. ▸ hbits

theorem contains_empty (r : ResourceType) : empty.contains r = false := by
  cases r <;> rfl

theorem contains_single (r q : ResourceType) : (single r).contains q = decide (q = r) := by
  cases r <;> cases q <;> rfl

theorem contains_insert (s : TypeSet) (r q : ResourceType) :
    (s.insert r).contains q = (s.contains q || decide (q = r)) := by
  rw [← contains_single, insert, union, contains, BitVec.getLsbD_or]
  rfl

theorem contains_diff (s t : TypeSet) (q : ResourceType) :
    (s.diff t).contains q = (s.contains q && !t.contains q) := by
  have hq : q.index < 12 := by cases q <;> decide
  rw [diff, contains, BitVec.getLsbD_and, BitVec.getLsbD_not]
  simp [hq, contains]

theorem contains_erase (s : TypeSet) (r q : ResourceType) :
    (s.erase r).contains q = (s.contains q && !decide (q = r)) := by
  rw [erase, contains_diff, contains_single]

theorem contains_full (r : ResourceType) : full.contains r = true := by
  cases r <;> rfl

theorem eq_empty_iff {s : TypeSet} : s = empty ↔ ∀ r, s.contains r = false := by
  refine ⟨fun h r => h ▸ contains_empty r, fun h => eq_of_contains fun r => ?_⟩
  rw [h r, contains_empty]

theorem isEmpty_iff {s : TypeSet} : s.isEmpty = true ↔ s = empty := by
  rw [isEmpty, beq_iff_eq, empty, ← TypeSet.mk.injEq]

/-- The members of a set stand in the order of all types. -/
theorem toList_pairwise (s : TypeSet) :
    s.toList.Pairwise fun a b => ResourceType.all.idxOf a < ResourceType.all.idxOf b := by
  have hall : ResourceType.all.Pairwise fun a b => ResourceType.all.idxOf a < ResourceType.all.idxOf b := by decide
  exact hall.filter s.contains

theorem toList_eq_nil {s : TypeSet} : s.toList = [] ↔ s = empty := by
  simp only [List.eq_nil_iff_forall_not_mem, mem_toList, Bool.not_eq_true, eq_empty_iff]

theorem contains_foldl_insert (rs : List ResourceType) (s : TypeSet) (q : ResourceType) :
    (rs.foldl insert s).contains q = (s.contains q || decide (q ∈ rs)) := by
  induction rs generalizing s with
  | nil => simp
  | cons r rs ih =>
    rw [List.foldl_cons, ih, contains_insert, Bool.or_assoc]
    simp

theorem contains_foldl_erase (rs : List ResourceType) (s : TypeSet) (q : ResourceType) :
    (rs.foldl erase s).contains q = (s.contains q && !decide (q ∈ rs)) := by
  induction rs generalizing s with
  | nil => simp
  | cons r rs ih =>
    rw [List.foldl_cons, ih, contains_erase, Bool.and_assoc]
    simp

theorem foldl_insert_toList (s : TypeSet) : s.toList.foldl insert empty = s :=
  eq_of_contains fun r => by simp [contains_foldl_insert, contains_empty, mem_toList]

theorem foldl_erase_eq_self {rs : List ResourceType} {s : TypeSet} (h : ∀ r ∈ rs, s.contains r = false) :
    rs.foldl erase s = s := by
  apply eq_of_contains
  intro q
  rw [contains_foldl_erase]
  by_cases hq : q ∈ rs
  · simp [h q hq]
  · simp [hq]

end TypeSet

end Blocklist
