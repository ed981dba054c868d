import Blocklist.Reduction
import Mathlib.Data.List.Nodup

/-! The first two passes of a reduction. `distinct` keeps each key once, at the highest priority that the
rules with this key have; `ranked` only orders. -/

namespace Blocklist.Reduction

theorem le_higher_left (a b : UInt32) : a ≤ higher a b := by
  unfold higher
  split <;> simp only [UInt32.le_iff_toNat_le] <;> omega

theorem le_higher_right (a b : UInt32) : b ≤ higher a b := by
  unfold higher
  split <;> simp only [UInt32.le_iff_toNat_le] <;> omega

theorem higher_eq_or (a b : UInt32) : higher a b = a ∨ higher a b = b := by
  unfold higher
  split
  · exact Or.inr rfl
  · exact Or.inl rfl

structure IsPeak (rules : List Rule) (k : Rule.Key) (p : UInt32) : Prop where
  attained : ∃ r ∈ rules, r.key = k ∧ r.priority = p
  bound : ∀ r ∈ rules, r.key = k → r.priority ≤ p

theorem IsPeak.snoc_other {rules : List Rule} {k : Rule.Key} {p : UInt32} {r : Rule} (h : IsPeak rules k p)
    (hr : r.key ≠ k) : IsPeak (rules ++ [r]) k p := by
  obtain ⟨s, hs, hk⟩ := h.attained
  refine ⟨⟨s, List.mem_append_left _ hs, hk⟩, fun t ht htk => ?_⟩
  rcases List.mem_append.mp ht with ht | ht
  · exact h.bound t ht htk
  · rw [List.mem_singleton.mp ht] at htk
    exact absurd htk hr

theorem IsPeak.snoc_same {rules : List Rule} {p : UInt32} {r : Rule} (h : IsPeak rules r.key p) :
    IsPeak (rules ++ [r]) r.key (higher p r.priority) := by
  constructor
  · rcases higher_eq_or p r.priority with e | e
    · obtain ⟨s, hs, hk, hp⟩ := h.attained
      exact ⟨s, List.mem_append_left _ hs, hk, by rw [hp, e]⟩
    · exact ⟨r, by simp, rfl, e.symm⟩
  · intro t ht htk
    rcases List.mem_append.mp ht with ht | ht
    · exact UInt32.le_trans (h.bound t ht htk) (le_higher_left _ _)
    · rw [List.mem_singleton.mp ht]
      exact le_higher_right _ _

theorem IsPeak.snoc_new {rules : List Rule} {r : Rule} (h : ∀ s ∈ rules, s.key ≠ r.key) :
    IsPeak (rules ++ [r]) r.key r.priority := by
  refine ⟨⟨r, by simp, rfl, rfl⟩, fun t ht htk => ?_⟩
  rcases List.mem_append.mp ht with ht | ht
  · exact absurd htk (h t ht)
  · rw [List.mem_singleton.mp ht]
    exact UInt32.le_refl _

theorem map_key_absorb (ks : List Rule) (r : Rule) :
    (absorb ks r).map Rule.key =
      if r.key ∈ ks.map Rule.key then ks.map Rule.key else ks.map Rule.key ++ [r.key] := by
  induction ks with
  | nil => simp [absorb]
  | cons k ks ih =>
    by_cases hk : k.key = r.key
    · rw [absorb, if_pos hk, if_pos (by simp [hk])]
      rfl
    · simp only [absorb, hk, if_false, List.map_cons, ih, List.mem_cons, Ne.symm hk, false_or]
      split <;> simp

/-- What a rule in `absorb ks r` is: an old rule, the old rule with the key of `r`, or `r` itself. -/
theorem mem_absorb {ks : List Rule} {r x : Rule} (hn : (ks.map Rule.key).Nodup) (hx : x ∈ absorb ks r) :
    (x ∈ ks ∧ r.key ≠ x.key) ∨
      (∃ k ∈ ks, k.key = r.key ∧ x = { k with priority := higher k.priority r.priority }) ∨
      (r.key ∉ ks.map Rule.key ∧ x = r) := by
  induction ks with
  | nil =>
    simp only [absorb, List.mem_singleton] at hx
    exact Or.inr (Or.inr ⟨by simp, hx⟩)
  | cons k ks ih =>
    simp only [List.map_cons, List.nodup_cons] at hn
    unfold absorb at hx
    split at hx
    · rename_i hk
      rcases List.mem_cons.mp hx with rfl | hx
      · exact Or.inr (Or.inl ⟨k, by simp, hk, rfl⟩)
      · refine Or.inl ⟨List.mem_cons_of_mem _ hx, fun he => hn.1 ?_⟩
        rw [hk, he]
        exact List.mem_map_of_mem hx
    · rename_i hk
      rcases List.mem_cons.mp hx with rfl | hx
      · exact Or.inl ⟨by simp, Ne.symm hk⟩
      · rcases ih hn.2 hx with ⟨hx, he⟩ | ⟨j, hj, he⟩ | ⟨hr, rfl⟩
        · exact Or.inl ⟨List.mem_cons_of_mem _ hx, he⟩
        · exact Or.inr (Or.inl ⟨j, List.mem_cons_of_mem _ hj, he⟩)
        · exact Or.inr (Or.inr ⟨by simpa [Ne.symm hk] using hr, rfl⟩)

/-- `ks` has each key of `rules` once, at the highest priority it has there. -/
structure Condenses (rules ks : List Rule) : Prop where
  nodup : (ks.map Rule.key).Nodup
  complete : ∀ r ∈ rules, r.key ∈ ks.map Rule.key
  peak : ∀ k ∈ ks, IsPeak rules k.key k.priority

theorem Condenses.mem_keys {rules ks : List Rule} (h : Condenses rules ks) (k : Rule.Key) :
    k ∈ ks.map Rule.key ↔ k ∈ rules.map Rule.key := by
  constructor
  · intro hk
    obtain ⟨d, hd, rfl⟩ := List.mem_map.mp hk
    obtain ⟨r, hr, hrk, -⟩ := (h.peak d hd).attained
    exact List.mem_map.mpr ⟨r, hr, hrk⟩
  · intro hk
    obtain ⟨r, hr, rfl⟩ := List.mem_map.mp hk
    exact h.complete r hr

theorem Condenses.absorb {rules ks : List Rule} (h : Condenses rules ks) (r : Rule) :
    Condenses (rules ++ [r]) (absorb ks r) := by
  refine ⟨?_, fun s hs => ?_, fun x hx => ?_⟩
  · rw [map_key_absorb]
    split_ifs with hr
    · exact h.nodup
    · refine List.nodup_append.mpr ⟨h.nodup, by simp, ?_⟩
      rintro a ha b hb rfl
      exact hr (List.mem_singleton.mp hb ▸ ha)
  · rw [map_key_absorb]
    rcases List.mem_append.mp hs with hs | hs
    · have := h.complete s hs
      split_ifs <;> simp_all
    · rw [List.mem_singleton.mp hs]
      split_ifs <;> simp_all
  · rcases mem_absorb h.nodup hx with ⟨hx, he⟩ | ⟨k, hk, he, rfl⟩ | ⟨hr, rfl⟩
    · exact (h.peak x hx).snoc_other he
    · have hp := h.peak k hk
      rw [he] at hp
      have hs := hp.snoc_same
      rwa [← he] at hs
    · exact IsPeak.snoc_new fun s hs he => hr (he ▸ h.complete s hs)

theorem Condenses.foldl {rules ks : List Rule} (h : Condenses rules ks) (rs : List Rule) :
    Condenses (rules ++ rs) (rs.foldl Reduction.absorb ks) := by
  induction rs generalizing rules ks with
  | nil => simpa using h
  | cons r rs ih => simpa using ih (h.absorb r)

theorem distinct_condenses (rules : List Rule) : Condenses rules (distinct rules) := by
  have h : Condenses [] [] := ⟨by simp, by simp, by simp⟩
  exact h.foldl rules

/-- Every rule has an equal one that is at least as high among the distinct ones. -/
theorem exists_distinct {rules : List Rule} {r : Rule} (hr : r ∈ rules) :
    ∃ d ∈ distinct rules, d.key = r.key ∧ r.priority ≤ d.priority := by
  have h := distinct_condenses rules
  obtain ⟨d, hd, hk⟩ := List.mem_map.mp (h.complete r hr)
  exact ⟨d, hd, hk, (h.peak d hd).bound r hr hk.symm⟩

def Ranked (rules : List Rule) : Prop := rules.Pairwise fun a b => b.priority ≤ a.priority

theorem ranked_perm (rules : List Rule) : (ranked rules).Perm rules := List.mergeSort_perm _ _

theorem length_ranked (rules : List Rule) : (ranked rules).length = rules.length := (ranked_perm rules).length_eq

theorem ble_priority_trans (a b c : Rule) (hab : Nat.ble b.priority.toNat a.priority.toNat = true)
    (hbc : Nat.ble c.priority.toNat b.priority.toNat = true) : Nat.ble c.priority.toNat a.priority.toNat = true := by
  simp only [Nat.ble_eq] at hab hbc ⊢
  omega

theorem ble_priority_total (a b : Rule) :
    (Nat.ble b.priority.toNat a.priority.toNat || Nat.ble a.priority.toNat b.priority.toNat) = true := by
  simp only [Bool.or_eq_true, Nat.ble_eq]
  omega

theorem ranked_ranked (rules : List Rule) : Ranked (ranked rules) :=
  (List.pairwise_mergeSort ble_priority_trans ble_priority_total rules).imp fun h =>
    UInt32.le_iff_toNat_le.mpr (Nat.le_of_ble_eq_true h)

/-- Ranking is stable: rules of equal priority stay in order. -/
theorem filter_ranked (rules : List Rule) (p : UInt32) :
    (ranked rules).filter (fun r => r.priority = p) = rules.filter fun r => r.priority = p := by
  have hequal : (rules.filter fun r => r.priority = p).Pairwise
      fun a b => Nat.ble b.priority.toNat a.priority.toNat = true := by
    refine List.pairwise_iff_forall_sublist.mpr fun {a b} hab => ?_
    have ha := (List.mem_filter.mp (hab.subset (by simp : a ∈ [a, b]))).2
    have hb := (List.mem_filter.mp (hab.subset (by simp : b ∈ [a, b]))).2
    rw [of_decide_eq_true ha, of_decide_eq_true hb]
    exact Nat.ble_eq_true_of_le (Nat.le_refl _)
  have hsub := List.sublist_mergeSort ble_priority_trans ble_priority_total hequal List.filter_sublist
  have hfilter := hsub.filter fun r => decide (r.priority = p)
  rw [List.filter_filter] at hfilter
  simp only [Bool.and_self] at hfilter
  exact (hfilter.eq_of_length ((ranked_perm rules).filter _).length_eq.symm).symm

theorem ranked_eq_self {rules : List Rule} (h : Ranked rules) : ranked rules = rules :=
  List.mergeSort_of_pairwise (h.imp fun hab => Nat.ble_eq_true_of_le (UInt32.le_iff_toNat_le.mp hab))

instance (rules : List Rule) : Decidable (Ranked rules) := inferInstanceAs (Decidable (rules.Pairwise _))

end Blocklist.Reduction
