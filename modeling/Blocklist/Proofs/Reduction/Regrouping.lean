import Blocklist.Proofs.Reduction.Counts

/-! The grouping pass only regroups. Whatever the order of the rules, it loses no host and adds none, leaves every other
rule where it stands, and puts a group where its first member stood. -/

namespace Blocklist.Reduction

theorem groupRule_of_many {all : List Rule} {k : GroupKey} (h : 2 ≤ (groupHosts all k).length) (r : Rule) :
    groupRule all k r = { r with body := .network (.hostGroup (groupHosts all k)) k.options } := by
  unfold groupRule
  match hs : groupHosts all k with
  | [] | [_] => simp [hs] at h
  | g :: g' :: gs => rfl

theorem groupRule_of_single {all : List Rule} {k : GroupKey} (h : (groupHosts all k).length < 2) (r : Rule) :
    groupRule all k r = r := by
  unfold groupRule
  match hs : groupHosts all k with
  | [] | [_] => rfl
  | g :: g' :: gs =>
    rw [hs, List.length_cons, List.length_cons] at h
    omega

def hostEntries (r : Rule) : List (GroupKey × Text) :=
  match r.body with
  | .network (.hostAnchor h) o => if isHostname h then [(⟨r.action, o, r.priority⟩, h)] else []
  | .network (.hostGroup hs) o => hs.map fun h => (⟨r.action, o, r.priority⟩, h)
  | _ => []

theorem hostEntries_of_member? {r : Rule} {h : Text} {k : GroupKey} (hm : member? r = some (h, k)) :
    hostEntries r = [(k, h)] := by
  obtain ⟨hh, hb, ha, hp⟩ := member?_eq_some.mp hm
  simp [hostEntries, hb, hh, ha, hp]

/-- The rule of a group names the hosts of its members. -/
theorem hostEntries_groupRule {all : List Rule} {k : GroupKey} {r : Rule} (hr : r ∈ all) (hk : groupKey? r = some k) :
    hostEntries (groupRule all k r) = (groupHosts all k).map (Prod.mk k) := by
  obtain ⟨h, hm⟩ := groupKey?_eq_some.mp hk
  rcases Nat.lt_or_ge (groupHosts all k).length 2 with hlt | hge
  · have hmem : h ∈ groupHosts all k := mem_groupHosts.mpr ⟨r, hr, hm⟩
    have hone : (groupHosts all k).length = 1 := by have := List.length_pos_of_mem hmem; omega
    obtain ⟨x, hx⟩ := List.length_eq_one_iff.mp hone
    rw [hx, List.mem_singleton] at hmem
    rw [groupRule_of_single hlt, hostEntries_of_member? hm, hx, hmem]
    rfl
  · rw [groupRule_of_many hge, hostEntries, groupKey?_action hk, groupKey?_priority hk]

/-- How often a host with its key is named by what the pass leaves of the rules `rs`. -/
theorem count_hostEntries_groupFrom {all rs : List Rule} (hsub : rs ⊆ all) (done : List GroupKey) (k : GroupKey)
    (h : Text) :
    ((groupFrom all done rs).flatMap hostEntries).count (k, h) =
      ((rs.filter fun r => groupKey? r = none).flatMap hostEntries).count (k, h) +
        if k ∈ rs.filterMap groupKey? ∧ k ∉ done then (groupHosts all k).count h else 0 := by
  induction rs generalizing done with
  | nil => simp [groupFrom]
  | cons r rs ih =>
    obtain ⟨hr, hrs⟩ := List.cons_subset.mp hsub
    cases hk : groupKey? r with
    | none =>
      simp only [groupFrom_cons_other rs hk, List.flatMap_cons, List.count_append, ih hrs, List.filter_cons, hk,
        decide_true, if_true, List.filterMap_cons_none hk, Nat.add_assoc]
    | some j =>
      have hfilter : (r :: rs).filter (fun r => groupKey? r = none) = rs.filter fun r => groupKey? r = none := by
        simp [hk]
      have hcount : ((groupHosts all j).map (Prod.mk j)).count (k, h) =
          if k = j then (groupHosts all k).count h else 0 := by
        split_ifs with hkj
        · rw [hkj, List.count_map_of_injective _ _ (Prod.mk_right_injective j)]
        · exact List.count_eq_zero.mpr (by simp [Ne.symm hkj])
      simp only [hfilter, List.filterMap_cons_some hk, List.mem_cons]
      by_cases hd : j ∈ done
      · rw [groupFrom_cons_done rs hk hd, ih hrs]
        by_cases hkj : k = j <;> simp [hkj, hd]
      · rw [groupFrom_cons_new rs hk hd, List.flatMap_cons, List.count_append, hostEntries_groupRule hr hk, hcount,
          ih hrs]
        by_cases hkj : k = j <;> simp [hkj, hd, Nat.add_comm]

/-- A rule that may be grouped names one host; all other rules name what they name. -/
theorem count_hostEntries (rules : List Rule) (k : GroupKey) (h : Text) :
    (rules.flatMap hostEntries).count (k, h) =
      ((rules.filter fun r => groupKey? r = none).flatMap hostEntries).count (k, h) + (groupHosts rules k).count h := by
  induction rules with
  | nil => rfl
  | cons r rules ih =>
    unfold groupHosts at ih ⊢
    cases hm : member? r with
    | none =>
      have hk : groupKey? r = none := by simp [groupKey?, hm]
      simp [hk, hm, ih, Nat.add_assoc]
    | some m =>
      obtain ⟨g, j⟩ := m
      have hk : groupKey? r = some j := groupKey?_eq_some.mpr ⟨g, hm⟩
      have hentries : hostEntries r = [(j, g)] := hostEntries_of_member? hm
      by_cases hj : j = k
      · simp [hk, hm, hentries, hj, ih, List.count_cons, Nat.add_assoc]
      · simp [hk, hm, hentries, hj, ih]

theorem hostEntries_grouped_perm (rules : List Rule) :
    ((grouped rules).flatMap hostEntries).Perm (rules.flatMap hostEntries) := by
  rw [List.perm_iff_count]
  rintro ⟨k, h⟩
  rw [grouped, count_hostEntries_groupFrom (List.Subset.refl rules), count_hostEntries rules]
  by_cases hk : k ∈ rules.filterMap groupKey?
  · rw [if_pos ⟨hk, List.not_mem_nil⟩]
  · have hnone : groupHosts rules k = [] := by
      rw [← List.length_eq_zero_iff, length_groupHosts]
      exact List.count_eq_zero.mpr hk
    rw [if_neg fun h => hk h.1, hnone, List.count_nil]

theorem filter_sublist_groupFrom (all : List Rule) (done : List GroupKey) (rs : List Rule) :
    (rs.filter fun r => groupKey? r = none).Sublist (groupFrom all done rs) := by
  induction rs generalizing done with
  | nil => exact List.nil_sublist _
  | cons r rs ih =>
    cases hk : groupKey? r with
    | none =>
      rw [List.filter_cons_of_pos (by simpa using hk), groupFrom_cons_other rs hk]
      exact (ih done).cons_cons r
    | some k =>
      rw [List.filter_cons_of_neg (by simp [hk])]
      by_cases hd : k ∈ done
      · rw [groupFrom_cons_done rs hk hd]
        exact ih done
      · rw [groupFrom_cons_new rs hk hd]
        exact (ih (k :: done)).cons _

theorem groupKey?_groupRule {all : List Rule} {j k : GroupKey} {r : Rule} (hk : groupKey? r = some k)
    (h : groupKey? (groupRule all k r) = some j) : j = k := by
  rcases groupRule_cases all hk with ⟨-, he⟩ | hg
  · rw [he, hk] at h
    exact (Option.some.inj h).symm
  · rw [groupKey?_network hg.body (by simp)] at h
    cases h

/-- A rule that the pass leaves and that could still be grouped is the only one of its group, and no rule of this group
was left before. -/
theorem nodup_groupKey?_groupFrom (all : List Rule) (done : List GroupKey) (rs : List Rule) :
    ((groupFrom all done rs).filterMap groupKey?).Nodup ∧
      ∀ k ∈ (groupFrom all done rs).filterMap groupKey?, k ∉ done := by
  induction rs generalizing done with
  | nil => simp [groupFrom]
  | cons r rs ih =>
    cases hk : groupKey? r with
    | none =>
      rw [groupFrom_cons_other rs hk, List.filterMap_cons_none hk]
      exact ih done
    | some k =>
      by_cases hd : k ∈ done
      · rw [groupFrom_cons_done rs hk hd]
        exact ih done
      · rw [groupFrom_cons_new rs hk hd]
        obtain ⟨hnodup, hnew⟩ := ih (k :: done)
        have hrest (j : GroupKey) (hj : j ∈ (groupFrom all (k :: done) rs).filterMap groupKey?) : j ≠ k ∧ j ∉ done := by
          simpa using hnew j hj
        cases hg : groupKey? (groupRule all k r) with
        | none =>
          rw [List.filterMap_cons_none hg]
          exact ⟨hnodup, fun j hj => (hrest j hj).2⟩
        | some j =>
          obtain rfl := groupKey?_groupRule hk hg
          rw [List.filterMap_cons_some hg]
          refine ⟨List.nodup_cons.mpr ⟨fun hj => (hrest j hj).1 rfl, hnodup⟩, fun i hi => ?_⟩
          rcases List.mem_cons.mp hi with rfl | hi
          · exact hd
          · exact (hrest i hi).2

structure Leads (all : List Rule) (k : GroupKey) (i : Nat) (r : Rule) : Prop where
  rule : all[i]? = some r
  key : groupKey? r = some k
  first : ∀ s ∈ all.take i, groupKey? s ≠ some k

/-- What the pass may leave at a place: the rule itself, if it cannot be grouped or is the only one of its group, or the
group that it leads, with all its hosts in order. -/
inductive PlacedAt (all : List Rule) : Nat → Rule → Prop
  | other {i : Nat} {r : Rule} (rule : all[i]? = some r) (key : groupKey? r = none) : PlacedAt all i r
  | single {i : Nat} {r : Rule} {k : GroupKey} (leads : Leads all k i r) (one : (groupHosts all k).length = 1) :
    PlacedAt all i r
  | group {i : Nat} {r : Rule} {k : GroupKey} (leads : Leads all k i r) (many : 2 ≤ (groupHosts all k).length) :
    PlacedAt all i { r with body := .network (.hostGroup (groupHosts all k)) k.options }

theorem Leads.placedAt {all : List Rule} {k : GroupKey} {i : Nat} {r : Rule} (h : Leads all k i r) :
    PlacedAt all i (groupRule all k r) := by
  have hone : 1 ≤ (groupHosts all k).length :=
    one_le_length_groupHosts (List.mem_filterMap.mpr ⟨r, List.mem_of_getElem? h.rule, h.key⟩)
  rcases Nat.lt_or_ge (groupHosts all k).length 2 with hlt | hge
  · rw [groupRule_of_single hlt]
    exact .single h (by omega)
  · rw [groupRule_of_many hge]
    exact .group h hge

/-- The rules `out` stand at places from `n` on, in order, and no rule from there on that cannot be grouped has lost its
place. -/
structure Placement (all : List Rule) (n : Nat) (places : List Nat) (out : List Rule) : Prop where
  increasing : places.Pairwise (· < ·)
  bound : ∀ i ∈ places, n ≤ i
  placed : List.Forall₂ (PlacedAt all) places out
  others : ∀ i r, n ≤ i → all[i]? = some r → groupKey? r = none → i ∈ places

theorem Placement.cons {all out : List Rule} {n : Nat} {places : List Nat} {o : Rule}
    (h : Placement all (n + 1) places out) (ho : PlacedAt all n o) : Placement all n (n :: places) (o :: out) where
  increasing := List.pairwise_cons.mpr ⟨h.bound, h.increasing⟩
  bound i hi := by
    rcases List.mem_cons.mp hi with rfl | hi
    · exact Nat.le_refl i
    · exact Nat.le_of_succ_le (h.bound i hi)
  placed := .cons ho h.placed
  others i r hi hr hk := by
    rcases Nat.eq_or_lt_of_le hi with rfl | hi
    · exact List.mem_cons_self
    · exact List.mem_cons_of_mem _ (h.others i r hi hr hk)

theorem Placement.skip {all out : List Rule} {n : Nat} {places : List Nat} {r : Rule} {k : GroupKey}
    (h : Placement all (n + 1) places out) (hr : all[n]? = some r) (hk : groupKey? r = some k) :
    Placement all n places out where
  increasing := h.increasing
  bound i hi := Nat.le_of_succ_le (h.bound i hi)
  placed := h.placed
  others i s hi hs hnone := by
    rcases Nat.eq_or_lt_of_le hi with rfl | hi
    · obtain rfl := Option.some.inj (hr.symm.trans hs)
      rw [hk] at hnone
      cases hnone
    · exact h.others i s hi hs hnone

theorem exists_placement {all pre rs : List Rule} {done : List GroupKey} (hall : all = pre ++ rs)
    (hp : Passed done pre) : ∃ places, Placement all pre.length places (groupFrom all done rs) := by
  induction rs generalizing pre done with
  | nil =>
    refine ⟨[], .nil, by simp, .nil, fun i r hi hr => ?_⟩
    rw [hall, List.append_nil, List.getElem?_eq_none hi] at hr
    cases hr
  | cons r rs ih =>
    have hsnoc : all = (pre ++ [r]) ++ rs := by rw [hall, List.append_assoc]; rfl
    have hrule : all[pre.length]? = some r := by simp [hall]
    have hrest {done' : List GroupKey} (hp' : Passed done' (pre ++ [r])) :
        ∃ places, Placement all (pre.length + 1) places (groupFrom all done' rs) := by
      simpa using ih hsnoc hp'
    cases hk : groupKey? r with
    | none =>
      obtain ⟨places, h⟩ := hrest (hp.snoc_other hk)
      rw [groupFrom_cons_other rs hk]
      exact ⟨_, h.cons (.other hrule hk)⟩
    | some k =>
      by_cases hd : k ∈ done
      · obtain ⟨places, h⟩ := hrest (hp.snoc_done hk hd)
        rw [groupFrom_cons_done rs hk hd]
        exact ⟨places, h.skip hrule hk⟩
      · obtain ⟨places, h⟩ := hrest (hp.snoc_new hk)
        have hleads : Leads all k pre.length r := by
          refine ⟨hrule, hk, fun s hs he => hd ((hp k).mpr ?_)⟩
          rw [hall, List.take_left] at hs
          exact List.mem_map.mpr ⟨s, hs, he⟩
        rw [groupFrom_cons_new rs hk hd]
        exact ⟨_, h.cons hleads.placedAt⟩

end Blocklist.Reduction
