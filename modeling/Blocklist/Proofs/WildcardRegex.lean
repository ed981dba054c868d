import Blocklist.Proofs.Wildcard
import Blocklist.Regex.Admissible

/-! The regular expression of a wildcard, read by the grammar. Whatever characters the wildcard has, escaping leaves no
construct in the expression but the repeated dots of its stars. -/

namespace Blocklist

open Wildcard

namespace Regex

def wildcardTree (c : Char) : Tree := if c = '*' then .repetition .dot else .literal c

theorem step_plain {c : Char} (h : specials.contains c = false) (p : Progress) (r : Text) :
    p.step c r = .ok (p.push (.literal c), r) := by
  unfold Progress.step
  split
  all_goals try exact absurd h (by decide)
  rfl

theorem escape_special {c : Char} (h : c ∈ specials) (r : Text) : escape false (c :: r) = .ok (.literal c, r) := by
  simp only [specials, List.mem_cons, List.not_mem_nil, or_false] at h
  rcases h with rfl | rfl | rfl | rfl | rfl | rfl | rfl | rfl | rfl | rfl | rfl | rfl | rfl | rfl <;> rfl

/-- A repetition in the expression is never made lazy: a question mark of the wildcard is escaped. -/
theorem skipLazy_regex (w : Text) : Progress.skipLazy (Wildcard.regex w) = Wildcard.regex w := by
  cases w with
  | nil => rfl
  | cons c w =>
    by_cases hc : c = '*'
    · subst hc
      rw [regex_star]
      rfl
    · rw [regex_char hc, escapeChar]
      split_ifs with hs
      · rfl
      · have hq : c ≠ '?' := by
          rintro rfl
          exact hs (by decide)
        unfold Progress.skipLazy
        split
        · rename_i heq
          exact absurd (List.cons.inj heq).1 hq
        · rfl

/-- One round of the reader at an escaped character. -/
theorem finish_escapeChar (n : Nat) (items : List Tree) (c : Char) (r : Text) :
    Progress.finish (n + 1) { items } (escapeChar c ++ r) = Progress.finish n { items := .literal c :: items } r := by
  have hround (d : Char) (t : Text) : Progress.finish (n + 1) { items } (d :: t) =
      (Progress.step { items } d t).bind fun x => Progress.finish n x.1 x.2 := rfl
  unfold escapeChar
  split_ifs with hs
  · rw [List.cons_append, List.singleton_append, hround, Progress.step, escape_special (by simpa using hs)]
    rfl
  · rw [List.singleton_append, hround, step_plain (by simpa using hs)]
    rfl

/-- The reader at a wildcard's expression, behind what it has read already. -/
theorem finish_regex (w : Text) {n : Nat} (hn : (Wildcard.regex w).length < n) (items : List Tree) :
    Progress.finish n { items } (Wildcard.regex w) = .ok (Tree.ofItems (items.reverse ++ w.map wildcardTree)) := by
  induction w generalizing n items with
  | nil =>
    obtain ⟨n, rfl⟩ : ∃ m, n = m + 1 := ⟨n - 1, by omega⟩
    rw [List.map_nil, List.append_nil]
    rfl
  | cons c w ih =>
    by_cases hc : c = '*'
    · subst hc
      rw [regex_star, List.length_cons, List.length_cons] at hn
      obtain ⟨n, rfl⟩ : ∃ m, n = m + 2 := ⟨n - 2, by omega⟩
      have hread : Progress.finish (n + 2) { items } ('.' :: '*' :: Wildcard.regex w) =
          Progress.finish n { items := .repetition .dot :: items } (Progress.skipLazy (Wildcard.regex w)) := rfl
      rw [regex_star, hread, skipLazy_regex, ih (by omega)]
      simp [wildcardTree]
    · have hlength : 1 ≤ (escapeChar c).length := by
        unfold escapeChar
        split_ifs <;> simp
      rw [regex_char hc, List.length_append] at hn
      obtain ⟨n, rfl⟩ : ∃ m, n = m + 1 := ⟨n - 1, by omega⟩
      rw [regex_char hc, finish_escapeChar, ih (by omega)]
      simp [wildcardTree, hc]

theorem read_regex (w : Text) : read (Wildcard.regex w) = .ok (Tree.ofItems (w.map wildcardTree)) :=
  finish_regex w (Nat.lt_succ_self _) []

theorem depths_wildcardTree (w : Text) : Tree.depths (w.map wildcardTree) ≤ 1 := by
  induction w with
  | nil => exact Nat.zero_le 1
  | cons c w ih =>
    have hc : (wildcardTree c).depth ≤ 1 := by
      unfold wildcardTree
      split_ifs
      · exact Nat.le_refl 1
      · exact Nat.zero_le 1
    exact Nat.max_le.mpr ⟨hc, ih⟩

theorem depth_ofItems (ts : List Tree) : (Tree.ofItems ts).depth ≤ Tree.depths ts + 1 := by
  unfold Tree.ofItems
  split
  · exact Nat.le_succ_of_le (Nat.le_max_left _ _)
  · cases ts with
    | nil => exact Nat.zero_le _
    | cons t ts => exact Nat.le_refl _

theorem check_wildcardTree (c : Char) : (wildcardTree c).check true = .ok true := by
  unfold wildcardTree
  split_ifs <;> rfl

theorem check_ofItems (w : Text) : (Tree.ofItems (w.map wildcardTree)).check true = .ok true := by
  have hall (w : Text) : Tree.checkAll true (w.map wildcardTree) = .ok true := by
    induction w with
    | nil => rfl
    | cons c w ih =>
      rw [List.map_cons, Tree.checkAll, check_wildcardTree]
      exact ih
  unfold Tree.ofItems
  split
  · rename_i t ht
    obtain ⟨c, -, rfl⟩ := List.mem_map.mp (ht ▸ List.mem_singleton_self t : t ∈ w.map wildcardTree)
    exact check_wildcardTree c
  · exact hall w

/-- By the grammar no wildcard is refused: escaping leaves nothing in it that could be read in another way. -/
theorem compile_regex (w : Text) : grammar.compile (Wildcard.regex w) = .ok () := by
  have hdepth : decide ((Tree.ofItems (w.map wildcardTree)).depth > maxDepth) = false := by
    have hle := Nat.le_trans (depth_ofItems _) (Nat.succ_le_succ (depths_wildcardTree w))
    rw [decide_eq_false_iff_not, maxDepth]
    omega
  show (accept (Wildcard.regex w)).mapError _ = .ok ()
  rw [accept, read_regex]
  change (do refuse (decide _) _; discard _ : Except Fault Unit).mapError _ = .ok ()
  rw [hdepth, check_ofItems]
  rfl

end Regex

end Blocklist
