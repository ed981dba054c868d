import Blocklist.Proofs.Reduction.Idempotent
import Mathlib.Algebra.BigOperators.Group.Finset.Basic

/-! The counts of a reduction. Each pass takes away as many rules as its count says: the rules of a key but for one,
the hosts of a group but for one, and the rules that are covered. -/

namespace Blocklist

/-- All but one of the occurrences of each element, and one of each, are all of them. -/
theorem sum_count_sub_one {α : Type} [DecidableEq α] (xs : List α) :
    ∑ a ∈ xs.toFinset, (xs.count a - 1) + xs.toFinset.card = xs.length := by
  rw [← List.sum_toFinset_count_eq_length, Finset.card_eq_sum_ones, ← Finset.sum_add_distrib]
  refine Finset.sum_congr rfl fun a ha => ?_
  exact Nat.sub_add_cancel (List.one_le_count_iff.mpr (List.mem_toFinset.mp ha))

/-- What an element adds unless it was seen before; then it is seen. -/
theorem sum_insert_sdiff {α : Type} [DecidableEq α] (f : α → Nat) (a : α) (new seen : Finset α) :
    ∑ b ∈ insert a new \ seen, f b =
      if a ∈ seen then ∑ b ∈ new \ seen, f b else f a + ∑ b ∈ new \ insert a seen, f b := by
  split_ifs with h
  · rw [Finset.insert_sdiff_of_mem new h]
  · have hnot : a ∉ new \ insert a seen := by simp
    rw [← Finset.sum_insert hnot]
    congr 1
    ext b
    by_cases hb : b = a <;> simp [hb, h]

theorem card_insert_sdiff {α : Type} [DecidableEq α] (a : α) (new seen : Finset α) :
    (insert a new \ seen).card = if a ∈ seen then (new \ seen).card else (new \ insert a seen).card + 1 := by
  rw [Nat.add_comm]
  simp only [Finset.card_eq_sum_ones]
  exact sum_insert_sdiff (fun _ => 1) a new seen

namespace Reduction

/-- As many rules are distinct as there are keys. -/
theorem length_distinct (rules : List Rule) : (distinct rules).length = (rules.map Rule.key).toFinset.card := by
  have h := distinct_condenses rules
  have hkeys : ((distinct rules).map Rule.key).toFinset = (rules.map Rule.key).toFinset := by
    ext k
    rw [List.mem_toFinset, List.mem_toFinset, h.mem_keys]
  rw [← hkeys, List.toFinset_card_of_nodup h.nodup, List.length_map]

theorem length_distinct_add (rules : List Rule) :
    (distinct rules).length + ∑ k ∈ (rules.map Rule.key).toFinset, ((rules.map Rule.key).count k - 1) =
      rules.length := by
  rw [length_distinct, Nat.add_comm, sum_count_sub_one, List.length_map]

/-- Of the rules that belong to groups the pass leaves one for each group that has none yet. -/
theorem length_groupFrom (all : List Rule) (done : List GroupKey) (rs : List Rule) :
    (groupFrom all done rs).length + (rs.filterMap groupKey?).length =
      rs.length + ((rs.filterMap groupKey?).toFinset \ done.toFinset).card := by
  induction rs generalizing done with
  | nil => simp [groupFrom]
  | cons r rs ih =>
    cases hk : groupKey? r with
    | none =>
      have hrest := ih done
      simp only [groupFrom_cons_other rs hk, List.filterMap_cons_none hk, List.length_cons]
      omega
    | some k =>
      simp only [List.filterMap_cons_some hk, List.length_cons, List.toFinset_cons, card_insert_sdiff,
        List.mem_toFinset]
      by_cases hd : k ∈ done
      · have hrest := ih done
        rw [groupFrom_cons_done rs hk hd, if_pos hd]
        omega
      · have hrest := ih (k :: done)
        rw [List.toFinset_cons] at hrest
        rw [groupFrom_cons_new rs hk hd, if_neg hd, List.length_cons]
        omega

theorem one_le_length_groupHosts {rules : List Rule} {k : GroupKey} (h : k ∈ rules.filterMap groupKey?) :
    1 ≤ (groupHosts rules k).length := by
  rw [length_groupHosts]
  exact List.one_le_count_iff.mpr h

/-- A group of `n` hosts takes `n - 1` rules away. -/
theorem length_grouped_add (rules : List Rule) :
    (grouped rules).length + ∑ k ∈ (rules.filterMap groupKey?).toFinset, ((groupHosts rules k).length - 1) =
      rules.length := by
  have hpass := length_groupFrom rules [] rules
  rw [List.toFinset_nil, Finset.sdiff_empty] at hpass
  have hmembers := sum_count_sub_one (rules.filterMap groupKey?)
  simp only [length_groupHosts]
  unfold grouped
  omega

theorem length_clearFrom [Regex.Library] (defaults : TypeSet) (kept rs : List Rule) :
    (clearFrom defaults kept rs).kept.length + (clearFrom defaults kept rs).covered.length =
      kept.length + rs.length := by
  induction rs generalizing kept with
  | nil => simp [clearFrom]
  | cons r rs ih =>
    by_cases h : (kept.any fun w => covers defaults w r) = true
    · have hrest := ih kept
      simp only [clearFrom_of_covered rs h, List.length_cons]
      omega
    · have hrest := ih (r :: kept)
      simp only [clearFrom_of_not_covered rs h, List.length_cons] at hrest ⊢
      omega

/-- The rules that are kept and the covered ones are all that were grouped. -/
theorem length_clear [Regex.Library] (defaults : TypeSet) (rules : List Rule) :
    (clear defaults rules).kept.length + (clear defaults rules).covered.length = rules.length := by
  rw [clear, length_clearFrom, List.length_nil, Nat.zero_add]

end Reduction

end Blocklist
