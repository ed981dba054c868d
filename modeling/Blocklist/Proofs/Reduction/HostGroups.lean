import Blocklist.Proofs.Reduction.Distinct
import Blocklist.Reduction

/-! The pass that groups hosts. A rule about one host either stays or is one of the two or more rules with its
action, options and priority that become one rule about all their hosts; every other rule stays, and so does
the order of the priorities. -/

namespace Blocklist.Reduction

theorem member?_eq_some {r : Rule} {h : Text} {k : GroupKey} :
    member? r = some (h, k) ↔
      isHostname h = true ∧ r.body = .network (.hostAnchor h) k.options ∧ r.action = k.action ∧
        r.priority = k.priority := by
  unfold member?
  split
  · rename_i g o hb
    split_ifs with hg
    · simp only [Option.some.injEq, Prod.mk.injEq, hb, Body.network.injEq, Pattern.hostAnchor.injEq]
      constructor
      · rintro ⟨rfl, rfl⟩
        exact ⟨hg, ⟨rfl, rfl⟩, rfl, rfl⟩
      · rintro ⟨-, ⟨rfl, rfl⟩, ha, hp⟩
        exact ⟨rfl, by rw [ha, hp]⟩
    · simp only [hb, Body.network.injEq, Pattern.hostAnchor.injEq, false_iff]
      rintro ⟨hh, ⟨rfl, -⟩, -⟩
      exact hg hh
  · rename_i hb
    simp only [reduceCtorEq, false_iff]
    rintro ⟨-, he, -⟩
    exact hb _ _ he

theorem groupKey?_eq_some {r : Rule} {k : GroupKey} : groupKey? r = some k ↔ ∃ h, member? r = some (h, k) := by
  simp [groupKey?]

theorem groupKey?_priority {r : Rule} {k : GroupKey} (h : groupKey? r = some k) : r.priority = k.priority := by
  obtain ⟨_, h⟩ := groupKey?_eq_some.mp h
  exact (member?_eq_some.mp h).2.2.2

theorem groupKey?_action {r : Rule} {k : GroupKey} (h : groupKey? r = some k) : r.action = k.action := by
  obtain ⟨_, h⟩ := groupKey?_eq_some.mp h
  exact (member?_eq_some.mp h).2.2.1

theorem mem_groupHosts {rules : List Rule} {k : GroupKey} {h : Text} :
    h ∈ groupHosts rules k ↔ ∃ r ∈ rules, member? r = some (h, k) := by
  simp only [groupHosts, List.mem_filterMap]
  refine exists_congr fun r => and_congr_right fun _ => ?_
  cases hm : member? r with
  | none => simp
  | some m =>
    obtain ⟨g, j⟩ := m
    by_cases hj : j = k <;> simp [hj]

structure IsGroup (rules : List Rule) (k : GroupKey) (o : Rule) : Prop where
  many : 2 ≤ (groupHosts rules k).length
  body : o.body = .network (.hostGroup (groupHosts rules k)) k.options
  action : o.action = k.action
  priority : o.priority = k.priority

@[simp] theorem groupRule_priority (rules : List Rule) (k : GroupKey) (r : Rule) :
    (groupRule rules k r).priority = r.priority := by
  unfold groupRule
  split <;> rfl

theorem groupRule_cases (rules : List Rule) {k : GroupKey} {r : Rule} (hr : groupKey? r = some k) :
    ((groupHosts rules k).length < 2 ∧ groupRule rules k r = r) ∨ IsGroup rules k (groupRule rules k r) := by
  have ha := groupKey?_action hr
  have hp := groupKey?_priority hr
  unfold groupRule
  split
  · rename_i h h' hs he
    exact Or.inr ⟨by simp [he], by simp [he], ha, hp⟩
  · rename_i hne
    refine Or.inl ⟨?_, rfl⟩
    match hs : groupHosts rules k with
    | [] | [_] => simp
    | h :: h' :: t => exact absurd hs (hne h h' t)

section

variable {all : List Rule} {done : List GroupKey} {r : Rule} (rs : List Rule)

theorem groupFrom_cons_other (hk : groupKey? r = none) :
    groupFrom all done (r :: rs) = r :: groupFrom all done rs := by
  simp only [groupFrom, hk]

theorem groupFrom_cons_done {k : GroupKey} (hk : groupKey? r = some k) (hd : k ∈ done) :
    groupFrom all done (r :: rs) = groupFrom all done rs := by
  simp [groupFrom, hk, hd]

theorem groupFrom_cons_new {k : GroupKey} (hk : groupKey? r = some k) (hd : k ∉ done) :
    groupFrom all done (r :: rs) = groupRule all k r :: groupFrom all (k :: done) rs := by
  simp [groupFrom, hk, hd]

end

/-- The keys `done` are those of the rules that were gone through. -/
def Passed (done : List GroupKey) (pre : List Rule) : Prop := ∀ k, k ∈ done ↔ some k ∈ pre.map groupKey?

theorem passed_nil : Passed [] [] := by simp [Passed]

section

variable {done : List GroupKey} {pre : List Rule} {r : Rule} (h : Passed done pre)

include h

theorem Passed.snoc_other (hr : groupKey? r = none) : Passed done (pre ++ [r]) := by
  intro k
  rw [List.map_append, List.mem_append, ← h k]
  simp [hr]

theorem Passed.snoc_done {k : GroupKey} (hr : groupKey? r = some k) (hk : k ∈ done) : Passed done (pre ++ [r]) := by
  intro j
  rw [List.map_append, List.mem_append, ← h j]
  simp only [List.map_cons, List.map_nil, List.mem_singleton, hr, Option.some.injEq]
  exact ⟨Or.inl, fun hj => hj.elim id fun he => he ▸ hk⟩

theorem Passed.snoc_new {k : GroupKey} (hr : groupKey? r = some k) : Passed (k :: done) (pre ++ [r]) := by
  intro j
  rw [List.map_append, List.mem_append, ← h j]
  simp [hr, or_comm]

end

/-- Where the rules of a pass come from: rules that no group takes, and one rule for the first member of each
group that has none yet. -/
theorem mem_groupFrom {all rs : List Rule} {done : List GroupKey} {o : Rule} :
    o ∈ groupFrom all done rs ↔ (o ∈ rs ∧ groupKey? o = none) ∨
      ∃ k r, k ∉ done ∧ rs.find? (fun r => groupKey? r = some k) = some r ∧ o = groupRule all k r := by
  induction rs generalizing done with
  | nil => simp [groupFrom]
  | cons r rs ih =>
    unfold groupFrom
    cases hr : groupKey? r with
    | none =>
      simp only [List.mem_cons, ih, List.find?_cons, hr, reduceCtorEq, decide_false]
      grind
    | some k =>
      have hstep (j : GroupKey) (hj : j ≠ k) :
          (r :: rs).find? (fun r => groupKey? r = some j) = rs.find? (fun r => groupKey? r = some j) := by
        simp [hr, Ne.symm hj]
      simp only [List.contains_eq_mem, decide_eq_true_eq]
      split_ifs with hd
      · rw [ih]
        grind
      · have hself : (r :: rs).find? (fun r => groupKey? r = some k) = some r := by simp [hr]
        rw [List.mem_cons, ih]
        grind

theorem find?_groupKey {rs : List Rule} {k : GroupKey} {r : Rule}
    (h : rs.find? (fun r => groupKey? r = some k) = some r) : r ∈ rs ∧ groupKey? r = some k :=
  ⟨List.mem_of_find?_eq_some h, by simpa using List.find?_some h⟩

theorem groupFrom_priority {all rs : List Rule} {done : List GroupKey} {o : Rule} (ho : o ∈ groupFrom all done rs) :
    ∃ r ∈ rs, o.priority = r.priority := by
  rcases mem_groupFrom.mp ho with ⟨ho, -⟩ | ⟨k, r, -, hf, rfl⟩
  · exact ⟨o, ho, rfl⟩
  · exact ⟨r, (find?_groupKey hf).1, groupRule_priority all k r⟩

theorem groupFrom_ranked {all rs : List Rule} (done : List GroupKey) (h : Ranked rs) :
    Ranked (groupFrom all done rs) := by
  induction rs generalizing done with
  | nil => exact h
  | cons r rs ih =>
    obtain ⟨hr, hrs⟩ := List.pairwise_cons.mp h
    have hrest (d : List GroupKey) : ∀ o ∈ groupFrom all d rs, o.priority ≤ r.priority := by
      intro o ho
      obtain ⟨s, hs, he⟩ := groupFrom_priority ho
      exact he ▸ hr s hs
    cases hk : groupKey? r with
    | none =>
      rw [groupFrom_cons_other rs hk]
      exact List.pairwise_cons.mpr ⟨hrest done, ih done hrs⟩
    | some k =>
      by_cases hd : k ∈ done
      · rw [groupFrom_cons_done rs hk hd]
        exact ih done hrs
      · rw [groupFrom_cons_new rs hk hd]
        exact List.pairwise_cons.mpr ⟨by simpa using hrest (k :: done), ih _ hrs⟩

theorem grouped_ranked {rules : List Rule} (h : Ranked rules) : Ranked (grouped rules) := groupFrom_ranked [] h

/-- A rule of the result is one of the given ones or stands for a group. -/
theorem grouped_origin {rules : List Rule} {o : Rule} (ho : o ∈ grouped rules) :
    o ∈ rules ∨ ∃ k, IsGroup rules k o := by
  rcases mem_groupFrom.mp ho with ⟨ho, -⟩ | ⟨k, r, -, hf, rfl⟩
  · exact Or.inl ho
  · obtain ⟨hr, hk⟩ := find?_groupKey hf
    rcases groupRule_cases rules hk with ⟨-, he⟩ | hg
    · rw [he]
      exact Or.inl hr
    · exact Or.inr ⟨k, hg⟩

/-- A given rule stays, up to where it was read, or a group takes its host. -/
theorem exists_grouped {rules : List Rule} {r : Rule} (hr : r ∈ rules) :
    (∃ o ∈ grouped rules, o.key = r.key ∧ o.priority = r.priority) ∨
      ∃ h k, member? r = some (h, k) ∧ ∃ o ∈ grouped rules, IsGroup rules k o := by
  cases hm : member? r with
  | none => exact Or.inl ⟨r, mem_groupFrom.mpr (Or.inl ⟨hr, by simp [groupKey?, hm]⟩), rfl, rfl⟩
  | some m =>
    obtain ⟨h, k⟩ := m
    have hk : groupKey? r = some k := groupKey?_eq_some.mpr ⟨h, hm⟩
    obtain ⟨f, hf⟩ : ∃ f, rules.find? (fun r => groupKey? r = some k) = some f :=
      Option.isSome_iff_exists.mp (by simpa using ⟨r, hr, hk⟩)
    obtain ⟨hfr, hfk⟩ := find?_groupKey hf
    have ho : groupRule rules k f ∈ grouped rules := mem_groupFrom.mpr (Or.inr ⟨k, f, by simp, hf, rfl⟩)
    rcases groupRule_cases rules hfk with ⟨hlt, he⟩ | hg
    · -- the group has one host, so its first rule and `r` name the same
      left
      obtain ⟨g, hg⟩ := groupKey?_eq_some.mp hfk
      have hgh : g = h := by
        have h1 := mem_groupHosts.mpr ⟨f, hfr, hg⟩
        have h2 := mem_groupHosts.mpr ⟨r, hr, hm⟩
        have hone : (groupHosts rules k).length = 1 := by have := List.length_pos_of_mem h1; omega
        obtain ⟨x, hx⟩ := List.length_eq_one_iff.mp hone
        rw [hx, List.mem_singleton] at h1 h2
        rw [h1, h2]
      subst hgh
      obtain ⟨-, hfb, hfa, hfp⟩ := member?_eq_some.mp hg
      obtain ⟨-, hrb, hra, hrp⟩ := member?_eq_some.mp hm
      exact ⟨f, he ▸ ho, by simp [Rule.key, hfb, hrb, hfa, hra], by rw [hfp, hrp]⟩
    · exact Or.inr ⟨h, k, rfl, _, ho, hg⟩

end Blocklist.Reduction
