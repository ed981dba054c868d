import Blocklist.Text.Basic

/-! Finite sets of names, kept as increasing lists: two sets with the same members are the same value. The
order is that of code points, which is also the order of the UTF-8 bytes. -/

namespace Blocklist

/-- `s` comes before `t` when they are compared code point by code point. -/
def Text.before : Text → Text → Bool
  | [], [] => false
  | [], _ :: _ => true
  | _ :: _, [] => false
  | a :: s, b :: t => Nat.blt a.toNat b.toNat || (a == b && before s t)

theorem Text.before_trans : ∀ {s t u : Text}, s.before t = true → t.before u = true → s.before u = true
  | [], [], _, h, _ => by simp [before] at h
  | [], _ :: _, [], _, h => by simp [before] at h
  | [], _ :: _, _ :: _, _, _ => rfl
  | _ :: _, [], _, h, _ => by simp [before] at h
  | _ :: _, _ :: _, [], _, h => by simp [before] at h
  | a :: s, b :: t, c :: u, h, k => by
    simp only [before, Bool.or_eq_true, Nat.blt_eq, Bool.and_eq_true, beq_iff_eq] at h k ⊢
    rcases h with h | ⟨rfl, h⟩
    · rcases k with k | ⟨rfl, _⟩
      · exact Or.inl (Nat.lt_trans h k)
      · exact Or.inl h
    · rcases k with k | ⟨rfl, k⟩
      · exact Or.inl k
      · exact Or.inr ⟨rfl, before_trans h k⟩

theorem Text.before_irrefl : ∀ s : Text, s.before s = false
  | [] => rfl
  | a :: s => by
    have h : Nat.blt a.toNat a.toNat = false := by
      rw [Bool.eq_false_iff, Ne, Nat.blt_eq]
      exact Nat.lt_irrefl _
    simp [before, h, before_irrefl s]

theorem Text.before_total : ∀ {s t : Text}, s ≠ t → s.before t = false → t.before s = true
  | [], [], h, _ => absurd rfl h
  | [], _ :: _, _, h => by simp [before] at h
  | _ :: _, [], _, _ => rfl
  | a :: s, b :: t, hne, h => by
    simp only [before, Bool.or_eq_false_iff, Bool.and_eq_false_iff, beq_eq_false_iff_ne] at h
    simp only [before, Bool.or_eq_true, Nat.blt_eq, Bool.and_eq_true, beq_iff_eq]
    by_cases hab : a = b
    · subst hab
      have hst : s ≠ t := fun e => hne (by rw [e])
      exact Or.inr ⟨rfl, before_total hst (h.2.resolve_left (fun hn => hn rfl))⟩
    · have hlt : ¬ a.toNat < b.toNat := fun hl => by
        have := h.1
        rw [Bool.eq_false_iff, Ne, Nat.blt_eq] at this
        exact this hl
      have hn : a.toNat ≠ b.toNat := fun e => hab (Char.toNat_inj.mp e)
      exact Or.inl (Nat.lt_of_le_of_ne (Nat.le_of_not_lt hlt) (Ne.symm hn))

/-- Puts `x` at its place in an increasing list, unless it is there already. -/
def insertName (x : Text) : List Text → List Text
  | [] => [x]
  | y :: ys => if x.before y then x :: y :: ys else if x = y then y :: ys else y :: insertName x ys

theorem mem_insertName {x z : Text} {ys : List Text} : z ∈ insertName x ys ↔ z = x ∨ z ∈ ys := by
  induction ys with
  | nil => simp [insertName]
  | cons y ys ih =>
    simp only [insertName]
    split
    · simp
    · split
      · rename_i h
        subst h
        simp
      · simp only [List.mem_cons, ih]
        exact ⟨fun h => h.elim (fun h => Or.inr (Or.inl h)) (fun h => h.imp id Or.inr),
          fun h => h.elim (fun h => Or.inr (Or.inl h)) (fun h => h.imp id Or.inr)⟩

/-- Every name comes before the names behind it. -/
def Increasing (names : List Text) : Prop := names.Pairwise fun a b => a.before b = true

theorem insertName_increasing {x : Text} {ys : List Text} (h : Increasing ys) :
    Increasing (insertName x ys) := by
  induction ys with
  | nil => exact List.pairwise_singleton _ _
  | cons y ys ih =>
    have hy : ∀ z ∈ ys, y.before z = true := (List.pairwise_cons.mp h).1
    simp only [insertName]
    split
    · rename_i hxy
      refine List.pairwise_cons.mpr ⟨fun z hz => ?_, h⟩
      rcases List.mem_cons.mp hz with rfl | hz
      · exact hxy
      · exact Text.before_trans hxy (hy z hz)
    · split
      · exact h
      · rename_i hxy hne
        refine List.pairwise_cons.mpr ⟨fun z hz => ?_, ih (List.pairwise_cons.mp h).2⟩
        rcases mem_insertName.mp hz with rfl | hz
        · exact Text.before_total hne (by simpa using hxy)
        · exact hy z hz

/-- A set of names. -/
structure NameSet where
  names : List Text
  increasing : Increasing names
deriving DecidableEq

namespace NameSet

def empty : NameSet := ⟨[], List.Pairwise.nil⟩

instance : Inhabited NameSet := ⟨empty⟩

instance : Membership Text NameSet := ⟨fun s x => x ∈ s.names⟩

def isEmpty (s : NameSet) : Bool := s.names.isEmpty

def insert (s : NameSet) (x : Text) : NameSet :=
  ⟨insertName x s.names, insertName_increasing s.increasing⟩

def ofList (xs : List Text) : NameSet := xs.foldl insert empty

end NameSet

end Blocklist
