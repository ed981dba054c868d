import Blocklist.FilterList
import Blocklist.Proofs.Reduction.Survivors
import Blocklist.Regex.Admissible
import Mathlib.Data.List.Pairwise

/-! When the rules of a reduction have different keys. Equal rules are merged before hosts are grouped, so a new
group can have the key of a group that was given; nothing else can make two rules of the result equal. -/

namespace Blocklist.Reduction

theorem eq_of_nodup_filterMap {f : α → Option β} {xs : List α} (h : (xs.filterMap f).Nodup) {a b : α} {c : β}
    (ha : a ∈ xs) (hb : b ∈ xs) (hac : f a = some c) (hbc : f b = some c) : a = b := by
  have hsymm : Std.Symm fun a b => ∀ x, f a = some x → ∀ y, f b = some y → x ≠ y :=
    ⟨fun a b h y hy x hx he => h x hx y hy he.symm⟩
  rw [List.Nodup, List.pairwise_filterMap] at h
  by_contra hne
  exact h.forall ha hb hne c hac c hbc rfl

/-- The given rule `g` does what the group with key `k` does, whose first member is `f`. -/
structure Clash (all : List Rule) (k : GroupKey) (g f : Rule) : Prop where
  given : g ∈ all
  first : IsFirst all k f
  many : 2 ≤ (groupHosts all k).length
  key : g.key = ⟨k.action, .network (.hostGroup (groupHosts all k)) k.options⟩

theorem IsGroup.key_eq {all : List Rule} {k : GroupKey} {o : Rule} (h : IsGroup all k o) :
    o.key = ⟨k.action, .network (.hostGroup (groupHosts all k)) k.options⟩ := by
  rw [Rule.key, h.action, h.body]

theorem eq_of_key_eq {all : List Rule} (hn : (all.map Rule.key).Nodup) {r s : Rule} (hr : r ∈ all) (hs : s ∈ all)
    (h : r.key = s.key) : r = s := List.inj_on_of_nodup_map hn hr hs h

/-- Two groups with the same action, options and hosts are one: a host has one rule with these. -/
theorem groupKey_unique {all : List Rule} (hn : (all.map Rule.key).Nodup) {j k : GroupKey} {o p : Rule}
    (ho : IsGroup all j o) (hp : IsGroup all k p) (h : o.key = p.key) : j = k := by
  rw [ho.key_eq, hp.key_eq, Rule.Key.mk.injEq, Body.network.injEq, Pattern.hostGroup.injEq] at h
  obtain ⟨ha, hhosts, hopt⟩ := h
  obtain ⟨x, hx⟩ := List.exists_mem_of_length_pos (Nat.lt_of_lt_of_le Nat.zero_lt_two ho.many)
  obtain ⟨r, hr, hrm⟩ := mem_groupHosts.mp hx
  obtain ⟨s, hs, hsm⟩ := mem_groupHosts.mp (hhosts ▸ hx)
  have hrs : r = s := by
    apply eq_of_key_eq hn hr hs
    obtain ⟨-, hrb, hra, -⟩ := member?_eq_some.mp hrm
    obtain ⟨-, hsb, hsa, -⟩ := member?_eq_some.mp hsm
    rw [Rule.key, Rule.key, hrb, hsb, hra, hsa, ha, hopt]
  rw [hrs] at hrm
  exact (Prod.mk.inj (Option.some.inj (hrm.symm.trans hsm))).2

/-- If two rules leave equal ones, then one of them was given as it is and the other made room for a group. -/
theorem clash_of_placed? {all : List Rule} (hn : (all.map Rule.key).Nodup) {r s o p : Rule} (hr : r ∈ all)
    (hs : s ∈ all) (hne : r ≠ s) (ho : placed? all r = some o) (hp : placed? all s = some p) (h : o.key = p.key) :
    (o = r ∧ ∃ k, Clash all k r s) ∨ (p = s ∧ ∃ k, Clash all k s r) := by
  rcases placed?_cases ho with ⟨rfl, -⟩ | ⟨j, hj, hgo⟩
  · rcases placed?_cases hp with ⟨rfl, -⟩ | ⟨k, hk, hgp⟩
    · exact absurd (eq_of_key_eq hn hr hs h) hne
    · exact Or.inl ⟨rfl, k, hr, hk, hgp.many, h.trans hgp.key_eq⟩
  · rcases placed?_cases hp with ⟨rfl, -⟩ | ⟨k, hk, hgp⟩
    · exact Or.inr ⟨rfl, j, hs, hj, hgo.many, h.symm.trans hgo.key_eq⟩
    · obtain rfl := groupKey_unique hn hgo hgp h
      exact absurd (hj.unique hk) hne

theorem Clash.groupKey?_given {all : List Rule} {k : GroupKey} {g f : Rule} (h : Clash all k g f) :
    groupKey? g = none := groupKey?_network (Rule.Key.mk.inj h.key).2 (by simp)

theorem Clash.placed?_first {all : List Rule} {k : GroupKey} {g f : Rule} (h : Clash all k g f) :
    placed? all f = some (groupRule all k f) ∧ (groupRule all k f).key = g.key := by
  refine ⟨placed?_of_isFirst h.first, ?_⟩
  rcases groupRule_cases all (find?_groupKey h.first).2 with ⟨hlt, -⟩ | hg
  · exact absurd h.many (Nat.not_le_of_lt hlt)
  · rw [hg.key_eq, h.key]

section

variable [Regex.Library]

def CoveredEarly (defaults : TypeSet) (all : List Rule) (g f : Rule) : Prop :=
  ∃ w, covers defaults w g = true ∧ ([w, g].Sublist all ∨ [w, f].Sublist all)

/-- A cover of the given rule covers the group as well, so not both of them are left. -/
theorem CoveredEarly.not_outcomes {defaults : TypeSet} {all : List Rule} {g f o : Rule} (h : CoveredEarly defaults all g f)
    (hg : outcome? defaults all g = some g) (hf : outcome? defaults all f = some o) : o.key ≠ g.key := by
  intro hkey
  obtain ⟨w, hc, hw | hw⟩ := h
  · rw [(outcome?_eq_some.mp hg).2 w hw] at hc
    cases hc
  · rw [← covers_congr defaults w hkey, (outcome?_eq_some.mp hf).2 w hw] at hc
    cases hc

/-- Where every clash is covered, no two rules of the result are equal. -/
theorem nodup_keys_of_clashes_covered {defaults : TypeSet} {rules : List Rule}
    (h : ∀ k g f, Clash (ranked (distinct rules)) k g f → CoveredEarly defaults (ranked (distinct rules)) g f) :
    ((ofRules defaults rules).rules.map Rule.key).Nodup := by
  have hn := nodup_ranked_distinct rules
  rw [List.Nodup, List.pairwise_map, pairwise_rules_iff]
  intro r s hrs o ho p hp hkey
  have hne : r ≠ s := by
    rintro rfl
    exact List.nodup_iff_sublist.mp (.of_map _ hn) r hrs
  rcases clash_of_placed? hn (hrs.subset (by simp)) (hrs.subset (by simp)) hne (outcome?_eq_some.mp ho).1
    (outcome?_eq_some.mp hp).1 hkey with ⟨rfl, k, hc⟩ | ⟨rfl, k, hc⟩
  · exact (h k _ _ hc).not_outcomes ho hp hkey.symm
  · exact (h k _ _ hc).not_outcomes hp ho hkey

/-- A clash that nothing covers leaves two equal rules. -/
theorem not_nodup_keys_of_clash {defaults : TypeSet} {rules : List Rule} {k : GroupKey} {g f : Rule}
    (hc : Clash (ranked (distinct rules)) k g f) (hu : ¬ CoveredEarly defaults (ranked (distinct rules)) g f) :
    ¬ ((ofRules defaults rules).rules.map Rule.key).Nodup := by
  rw [rules_eq_filterMap, List.map_filterMap]
  intro hnodup
  obtain ⟨hf, hfk⟩ := find?_groupKey hc.first
  obtain ⟨hpf, hkey⟩ := hc.placed?_first
  have hg : outcome? defaults (ranked (distinct rules)) g = some g := by
    refine outcome?_eq_some.mpr ⟨placed?_of_groupKey?_none _ hc.groupKey?_given, fun w hw => ?_⟩
    rw [Bool.eq_false_iff]
    exact fun hcov => hu ⟨w, hcov, Or.inl hw⟩
  have hgroup : outcome? defaults (ranked (distinct rules)) f = some (groupRule (ranked (distinct rules)) k f) := by
    refine outcome?_eq_some.mpr ⟨hpf, fun w hw => ?_⟩
    rw [covers_congr defaults w hkey, Bool.eq_false_iff]
    exact fun hcov => hu ⟨w, hcov, Or.inr hw⟩
  obtain rfl : g = f := by
    apply eq_of_nodup_filterMap hnodup hc.given hf
    · rw [hg, Option.map_some]
    · rw [hgroup, Option.map_some, hkey]
  rw [hc.groupKey?_given] at hfk
  cases hfk

/-- The keys of the result are different exactly if each given group that does what a new group does is covered by a
wildcard rule before it or before the first member of the new one. -/
theorem nodup_keys_iff (defaults : TypeSet) (rules : List Rule) :
    ((ofRules defaults rules).rules.map Rule.key).Nodup ↔
      ∀ k g f, Clash (ranked (distinct rules)) k g f → CoveredEarly defaults (ranked (distinct rules)) g f := by
  constructor
  · intro h k g f hc
    by_contra hu
    exact not_nodup_keys_of_clash hc hu h
  · exact nodup_keys_of_clashes_covered

end

def hostPair : FilterList := ⟨[], "||a.com^\n||b.com^".toList⟩

def hostPairGroup : Rule := ⟨.block, .network (.hostGroup ["a.com".toList, "b.com".toList]) {}, 1, [], 1⟩

/-- A list that is read again after it was reduced: its hosts are grouped a second time, and both groups stay. -/
theorem not_nodup_keys_hostPair :
    ¬ ((ofRules .full ((ofRules .full hostPair.read.rules).rules ++ hostPair.read.rules)).rules.map Rule.key).Nodup := by
  have hfirst : (ofRules .full hostPair.read.rules).rules = [hostPairGroup] := by
    rw [(ofRules_of_ranked .full (by decide)).1]
    decide
  rw [hfirst, (ofRules_of_ranked .full (by decide)).1]
  decide

end Blocklist.Reduction
