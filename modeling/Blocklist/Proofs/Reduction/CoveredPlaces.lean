import Blocklist.Proofs.Reduction.Survivors
import Blocklist.Regex.Admissible

/-! The covering pass, place by place. The pass tests a rule against those it has kept so far. Covers are never left out
themselves, so this is the test against all rules before it, and the whole pass is a filter over the places of the given
rules. -/

namespace Blocklist.Reduction

open Wildcard

section

variable [Regex.Library]

inductive IsCover (defaults : TypeSet) (w r : Rule) : Prop
  | intro {v : Text} {o q : Options} {p : Pattern} {ts : List Text} (wildcard : w.body = .network (.wildcard v) o)
    (given : r.body = .network p q) (action : w.action = r.action) (scope : o.subsumes q defaults = true)
    (taken : Regex.Library.compile (Wildcard.regex v) = .ok ())
    (texts : coverTexts? p = some ts) (starless : ∀ t ∈ ts, '*' ∉ t) (found : ∀ t ∈ ts, Finds (Wildcard.regex v) t)

theorem isCover_iff {defaults : TypeSet} {w r : Rule} : IsCover defaults w r ↔ covers defaults w r = true := by
  rw [covers_iff]
  constructor
  · rintro ⟨hw, hr, ha, ho, hv, ht, hstar, hfound⟩
    exact ⟨_, _, _, _, _, hw, hr, ha, ho, hv, ht, fun t hm => ⟨hstar t hm, hfound t hm⟩⟩
  · rintro ⟨v, o, p, q, ts, hw, hr, ha, ho, hv, ht, h⟩
    exact ⟨hw, hr, ha, ho, hv, ht, fun t hm => (h t hm).1, fun t hm => (h t hm).2⟩

instance (defaults : TypeSet) (w r : Rule) : Decidable (IsCover defaults w r) := decidable_of_iff _ isCover_iff.symm

def CoveredAt (defaults : TypeSet) (rules : List Rule) (i : Nat) : Prop :=
  ∃ j < i, ∃ w ∈ rules[j]?, ∃ r ∈ rules[i]?, IsCover defaults w r

instance (defaults : TypeSet) (rules : List Rule) : DecidablePred (CoveredAt defaults rules) := fun i =>
  inferInstanceAs (Decidable (∃ j < i, ∃ w ∈ rules[j]?, ∃ r ∈ rules[i]?, IsCover defaults w r))

end

def atPlaces (P : Nat → Prop) [DecidablePred P] (rules : List Rule) : List Rule :=
  (rules.zipIdx.filter fun x => P x.2).map Prod.fst

section

variable {P Q : Nat → Prop} [DecidablePred P] [DecidablePred Q]

theorem atPlaces_snoc (rules : List Rule) (o : Rule) :
    atPlaces P (rules ++ [o]) = atPlaces P rules ++ if P rules.length then [o] else [] := by
  rw [atPlaces, List.zipIdx_append, List.filter_append, List.map_append, Nat.zero_add]
  by_cases h : P rules.length <;> simp [atPlaces, h]

theorem atPlaces_congr {rules : List Rule} (h : ∀ i < rules.length, P i ↔ Q i) : atPlaces P rules = atPlaces Q rules := by
  rw [atPlaces, atPlaces, List.filter_congr]
  rintro ⟨r, i⟩ hx
  have hi : i < rules.length := (List.getElem?_eq_some_iff.mp (List.mk_mem_zipIdx_iff_getElem?.mp hx)).1
  exact decide_eq_decide.mpr (h i hi)

theorem atPlaces_sublist (rules : List Rule) : (atPlaces P rules).Sublist rules := by
  have hsub := (List.filter_sublist (p := fun x => P x.2) (l := rules.zipIdx)).map Prod.fst
  rwa [List.zipIdx_map_fst] at hsub

theorem mem_atPlaces {rules : List Rule} {r : Rule} : r ∈ atPlaces P rules ↔ ∃ i, P i ∧ rules[i]? = some r := by
  simp [atPlaces, List.mk_mem_zipIdx_iff_getElem?, and_comm]

theorem length_atPlaces (rules : List Rule) : (atPlaces P rules).length = (List.range rules.length).countP (P ·) := by
  rw [atPlaces, List.length_map, ← List.countP_eq_length_filter, List.range_eq_range', ← List.zipIdx_map_snd,
    List.countP_map]
  rfl

end

section

variable [Regex.Library]

theorem coveredAt_append (defaults : TypeSet) {rules : List Rule} {i : Nat} (hi : i < rules.length) (post : List Rule) :
    CoveredAt defaults (rules ++ post) i ↔ CoveredAt defaults rules i := by
  refine exists_congr fun j => and_congr_right fun hj => ?_
  rw [List.getElem?_append_left (Nat.lt_trans hj hi), List.getElem?_append_left hi]

theorem coveredAt_last {defaults : TypeSet} {rules : List Rule} {o : Rule} :
    CoveredAt defaults (rules ++ [o]) rules.length ↔ (rules.any fun w => covers defaults w o) = true := by
  rw [List.any_eq_true]
  constructor
  · rintro ⟨j, hj, w, hw, r, hr, hc⟩
    rw [List.getElem?_append_left hj] at hw
    obtain rfl : o = r := by simpa using hr
    exact ⟨w, List.mem_of_getElem? hw, isCover_iff.mp hc⟩
  · rintro ⟨w, hw, hc⟩
    obtain ⟨j, hj⟩ := List.mem_iff_getElem?.mp hw
    have hlt : j < rules.length := (List.getElem?_eq_some_iff.mp hj).1
    refine ⟨j, hlt, w, ?_, o, ?_, isCover_iff.mpr hc⟩
    · rw [List.getElem?_append_left hlt]
      exact hj
    · simp

/-- The pass is a filter over places. -/
theorem clear_eq_atPlaces (defaults : TypeSet) (rules : List Rule) :
    clear defaults rules =
      ⟨atPlaces (fun i => ¬ CoveredAt defaults rules i) rules, atPlaces (CoveredAt defaults rules) rules⟩ := by
  induction rules using List.reverseRecOn with
  | nil => rfl
  | append_singleton rules o ih =>
    have hstay (i : Nat) (hi : i < rules.length) := coveredAt_append defaults hi [o]
    rw [clear_snoc, ih, atPlaces_snoc, atPlaces_snoc, atPlaces_congr hstay,
      atPlaces_congr fun i hi => not_congr (hstay i hi)]
    simp only [coveredAt_last]
    split_ifs <;> simp

def NeverCovered (r : Rule) : Prop :=
  match r.body with
  | .network (.wildcard _) _ | .cosmetic _ | .procedural _ => True
  | .network (.regex t) _ => ∃ c ∈ t, c ∈ operators
  | .network _ _ => False

namespace NeverCovered

variable {defaults : TypeSet} {r : Rule} (h : NeverCovered r)

include h

theorem not_isCover (w : Rule) : ¬ IsCover defaults w r := by
  intro hcover
  obtain ⟨-, -, p, q, ts, -, hr, -, -, -, ht, -⟩ := covers_iff.mp (isCover_iff.mp hcover)
  unfold NeverCovered at h
  rw [hr] at h
  cases p with
  | wildcard => cases ht
  | regex t =>
    obtain ⟨c, hc, ho⟩ := h
    exact (coverTexts?_regex ht).1 c hc ho
  | hostAnchor | hostStart | startAnchor | endAnchor | substring | hostGroup => exact h

theorem not_mem_covered (rules : List Rule) : r ∉ (clear defaults rules).covered := by
  rw [clear_eq_atPlaces, mem_atPlaces]
  rintro ⟨i, ⟨j, -, w, -, s, hs, hc⟩, hr⟩
  obtain rfl := Option.some.inj (hr.symm.trans hs)
  exact h.not_isCover w hc

end NeverCovered

/-- The pass leaves out exactly the rules at the places that a rule before them covers. Wildcards, expressions with
operators and rules about elements are never left out; what is left out is counted, and what stays keeps its order. -/
theorem clear_by_place (defaults : TypeSet) (rules : List Rule) :
    (clear defaults rules).kept = atPlaces (fun i => ¬ CoveredAt defaults rules i) rules ∧
    (clear defaults rules).covered = atPlaces (CoveredAt defaults rules) rules ∧
    (∀ r, NeverCovered r → r ∉ (clear defaults rules).covered) ∧
    (clear defaults rules).kept.Sublist rules ∧
    (clear defaults rules).covered.length = (List.range rules.length).countP (CoveredAt defaults rules ·) := by
  have hkept : (clear defaults rules).kept = atPlaces (fun i => ¬ CoveredAt defaults rules i) rules := by
    rw [clear_eq_atPlaces]
  have hcovered : (clear defaults rules).covered = atPlaces (CoveredAt defaults rules) rules := by
    rw [clear_eq_atPlaces]
  refine ⟨hkept, hcovered, fun r hr => hr.not_mem_covered rules, ?_, ?_⟩
  · rw [hkept]
    exact atPlaces_sublist rules
  · rw [hcovered]
    exact length_atPlaces rules

end

-- a rule before its cover and behind it
example :
    let cover : Rule := ⟨.block, .network (.wildcard "*ad*".toList) {}, 1, [], 2⟩
    let banner : Rule := ⟨.block, .network (.substring "/ad".toList) {}, 1, [], 1⟩
    (clear .empty [banner, cover, banner]).kept = [banner, cover] ∧
      CoveredAt .empty [banner, cover, banner] 2 ∧ ¬ CoveredAt .empty [banner, cover, banner] 0 := by
  decide

end Blocklist.Reduction
