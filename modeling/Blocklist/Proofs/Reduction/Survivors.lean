import Blocklist.Proofs.Reduction.Account
import Mathlib.Data.List.Induction

/-! The grouping pass and the covering pass together, as one choice for each rule. Once equal rules are merged and
the rest is ranked, a rule leaves at its own place at most one rule of the result: itself, or the group that it is
the first member of, and only if no wildcard rule before it covers that. -/

namespace Blocklist.Reduction

section

variable [Regex.Library]

theorem covers_wildcard {defaults : TypeSet} {w r : Rule} (h : covers defaults w r = true) :
    ∃ v o, w.body = .network (.wildcard v) o := by
  obtain ⟨v, o, -, -, -, hw, -⟩ := covers_iff.mp h
  exact ⟨v, o, hw⟩

/-- Whether a rule is covered depends on what it does only. -/
theorem covers_congr (defaults : TypeSet) (w : Rule) {r s : Rule} (h : r.key = s.key) :
    covers defaults w r = covers defaults w s := by
  obtain ⟨ha, hb⟩ := Rule.Key.mk.inj h
  simp only [covers, ha, hb]

theorem not_covers_wildcard {defaults : TypeSet} {w r : Rule} {v : Text} {o : Options}
    (hr : r.body = .network (.wildcard v) o) : covers defaults w r = false := by
  rw [Bool.eq_false_iff]
  intro h
  obtain ⟨-, -, p, q, ts, -, hb, -, -, -, ht, -⟩ := covers_iff.mp h
  obtain ⟨rfl, -⟩ := Body.network.inj (hr.symm.trans hb)
  cases ht

/-- Covers are never covered themselves, so testing against the rules kept is testing against all. -/
theorem any_kept_clear (defaults : TypeSet) (rules : List Rule) (o : Rule) :
    ((clear defaults rules).kept.any fun w => covers defaults w o) = rules.any fun w => covers defaults w o := by
  have hs := clear_splits defaults rules
  rw [Bool.eq_iff_iff, List.any_eq_true, List.any_eq_true]
  constructor
  · rintro ⟨w, hw, hc⟩
    exact ⟨w, hs.kept w hw, hc⟩
  · rintro ⟨w, hw, hc⟩
    rcases hs.mem w hw with hk | hcov
    · exact ⟨w, hk, hc⟩
    · obtain ⟨v, q, hv⟩ := covers_wildcard hc
      obtain ⟨x, -, hx, -⟩ := hs.covered w hcov
      rw [not_covers_wildcard hv] at hx
      cases hx

/-- The pass with one more rule at the end. -/
theorem clearFrom_snoc (defaults : TypeSet) (kept rs : List Rule) (o : Rule) :
    clearFrom defaults kept (rs ++ [o]) =
      if (clearFrom defaults kept rs).kept.any (fun w => covers defaults w o)
      then ⟨(clearFrom defaults kept rs).kept, (clearFrom defaults kept rs).covered ++ [o]⟩
      else ⟨(clearFrom defaults kept rs).kept ++ [o], (clearFrom defaults kept rs).covered⟩ := by
  induction rs generalizing kept with
  | nil =>
    simp only [List.nil_append, clearFrom, List.any_reverse]
    split_ifs <;> simp
  | cons r rs ih =>
    by_cases h : (kept.any fun w => covers defaults w r) = true
    · rw [List.cons_append, clearFrom_of_covered _ h, clearFrom_of_covered _ h, ih kept]
      split_ifs <;> rfl
    · rw [List.cons_append, clearFrom_of_not_covered _ h, clearFrom_of_not_covered _ h]
      exact ih (r :: kept)

/-- The last rule stays unless a rule before it covers it. -/
theorem clear_snoc (defaults : TypeSet) (rules : List Rule) (o : Rule) :
    clear defaults (rules ++ [o]) =
      if rules.any (fun w => covers defaults w o)
      then ⟨(clear defaults rules).kept, (clear defaults rules).covered ++ [o]⟩
      else ⟨(clear defaults rules).kept ++ [o], (clear defaults rules).covered⟩ := by
  rw [← any_kept_clear]
  exact clearFrom_snoc defaults [] rules o

theorem kept_clear_snoc (defaults : TypeSet) (rules : List Rule) (o : Rule) :
    (clear defaults (rules ++ [o])).kept =
      if rules.any (fun w => covers defaults w o) then (clear defaults rules).kept
      else (clear defaults rules).kept ++ [o] := by
  rw [clear_snoc, apply_ite Cleared.kept]

end

def IsFirst (all : List Rule) (k : GroupKey) (r : Rule) : Prop := all.find? (fun s => groupKey? s = some k) = some r

instance (all : List Rule) (k : GroupKey) (r : Rule) : Decidable (IsFirst all k r) :=
  inferInstanceAs (Decidable (_ = _))

theorem IsFirst.unique {all : List Rule} {k : GroupKey} {r s : Rule} (hr : IsFirst all k r) (hs : IsFirst all k s) :
    r = s := Option.some.inj (hr.symm.trans hs)

/-- What the grouping pass leaves at the place of a rule: the group where its first member stood, and nothing where
the others did. -/
def placed? (all : List Rule) (r : Rule) : Option Rule :=
  match groupKey? r with
  | none => some r
  | some k => if IsFirst all k r then some (groupRule all k r) else none

theorem placed?_of_groupKey?_none (all : List Rule) {r : Rule} (h : groupKey? r = none) : placed? all r = some r := by
  simp [placed?, h]

theorem placed?_of_isFirst {all : List Rule} {k : GroupKey} {r : Rule} (h : IsFirst all k r) :
    placed? all r = some (groupRule all k r) := by
  simp [placed?, (find?_groupKey h).2, h]

theorem placed?_of_not_isFirst {all : List Rule} {k : GroupKey} {r : Rule} (hk : groupKey? r = some k)
    (h : ¬ IsFirst all k r) : placed? all r = none := by
  simp [placed?, hk, h]

/-- A rule leaves itself or the group that it is the first member of. -/
theorem placed?_cases {all : List Rule} {r o : Rule} (h : placed? all r = some o) :
    (o = r ∧ ∀ k, groupKey? r = some k → IsFirst all k r) ∨ ∃ k, IsFirst all k r ∧ IsGroup all k o := by
  cases hr : groupKey? r with
  | none =>
    rw [placed?_of_groupKey?_none all hr, Option.some.injEq] at h
    exact Or.inl ⟨h.symm, by simp⟩
  | some k =>
    by_cases hf : IsFirst all k r
    · rw [placed?_of_isFirst hf, Option.some.injEq] at h
      rcases groupRule_cases all hr with ⟨-, he⟩ | hg
      · refine Or.inl ⟨h.symm.trans he, fun j hj => ?_⟩
        obtain rfl := Option.some.inj hj
        exact hf
      · exact Or.inr ⟨k, hf, h ▸ hg⟩
    · rw [placed?_of_not_isFirst hr hf] at h
      cases h

theorem placed?_priority {all : List Rule} {r o : Rule} (h : placed? all r = some o) : o.priority = r.priority := by
  rcases placed?_cases h with ⟨rfl, -⟩ | ⟨k, hf, hg⟩
  · rfl
  · rw [hg.priority, groupKey?_priority (find?_groupKey hf).2]

theorem groupKey?_network {r : Rule} {p : Pattern} {o : Options} (hb : r.body = .network p o)
    (hp : ∀ h, p ≠ .hostAnchor h) : groupKey? r = none := by
  rw [Option.eq_none_iff_forall_ne_some]
  intro k hk
  obtain ⟨h, hm⟩ := groupKey?_eq_some.mp hk
  obtain ⟨-, hb', -⟩ := member?_eq_some.mp hm
  exact hp h (Body.network.inj (hb.symm.trans hb')).1

/-- A wildcard that the grouping pass leaves somewhere stood there. -/
theorem eq_of_placed?_wildcard {all : List Rule} {r o : Rule} {v : Text} {q : Options} (h : placed? all r = some o)
    (ho : o.body = .network (.wildcard v) q) : o = r := by
  rcases placed?_cases h with ⟨he, -⟩ | ⟨k, -, hg⟩
  · exact he
  · cases ho.symm.trans hg.body

theorem isFirst_middle_iff {all pre post : List Rule} {k : GroupKey} {r : Rule} (hall : all = pre ++ r :: post)
    (hn : all.Nodup) (hk : groupKey? r = some k) : IsFirst all k r ↔ some k ∉ pre.map groupKey? := by
  subst hall
  rw [IsFirst, List.find?_append]
  cases hf : pre.find? (fun s => groupKey? s = some k) with
  | none =>
    have hnone : some k ∉ pre.map groupKey? := by
      intro hm
      obtain ⟨p, hp, hpk⟩ := List.mem_map.mp hm
      exact List.find?_eq_none.mp hf p hp (decide_eq_true hpk)
    have hr : (r :: post).find? (fun s => groupKey? s = some k) = some r := by simp [hk]
    exact ⟨fun _ => hnone, fun _ => hr⟩
  | some f =>
    obtain ⟨hfm, hfk⟩ := find?_groupKey hf
    have hne : f ≠ r := (List.nodup_append.mp hn).2.2 f hfm r (by simp)
    have hsome : some k ∈ pre.map groupKey? := List.mem_map.mpr ⟨f, hfm, hfk⟩
    rw [Option.some_or, Option.some.injEq]
    exact ⟨fun he => absurd he hne, fun hnone => absurd hsome hnone⟩

theorem groupFrom_eq_filterMap {all pre rs : List Rule} {done : List GroupKey} (hall : all = pre ++ rs)
    (hn : all.Nodup) (hp : Passed done pre) : groupFrom all done rs = rs.filterMap (placed? all) := by
  induction rs generalizing pre done with
  | nil => rfl
  | cons r rs ih =>
    have hsnoc : all = (pre ++ [r]) ++ rs := by rw [hall, List.append_assoc]; rfl
    cases hr : groupKey? r with
    | none =>
      rw [groupFrom_cons_other rs hr, List.filterMap_cons_some (placed?_of_groupKey?_none all hr),
        ih hsnoc (hp.snoc_other hr)]
    | some k =>
      have hfirst := isFirst_middle_iff hall hn hr
      rw [← hp k] at hfirst
      by_cases hd : k ∈ done
      · rw [groupFrom_cons_done rs hr hd,
          List.filterMap_cons_none (placed?_of_not_isFirst hr fun hf => hfirst.mp hf hd),
          ih hsnoc (hp.snoc_done hr hd)]
      · rw [groupFrom_cons_new rs hr hd, List.filterMap_cons_some (placed?_of_isFirst (hfirst.mpr hd)),
          ih hsnoc (hp.snoc_new hr)]

/-- The grouping pass looks at each rule on its own, if no rule occurs twice. -/
theorem grouped_eq_filterMap {all : List Rule} (hn : all.Nodup) : grouped all = all.filterMap (placed? all) :=
  groupFrom_eq_filterMap (List.nil_append all).symm hn passed_nil

/-- Where no rule occurs twice, the rules before `r` are those before its place. -/
theorem pair_sublist_iff {pre post : List Rule} {w r : Rule} (hn : (pre ++ r :: post).Nodup) :
    [w, r].Sublist (pre ++ r :: post) ↔ w ∈ pre := by
  have hpost : r ∉ post := (List.nodup_cons.mp (List.nodup_append.mp hn).2.1).1
  constructor
  · intro h
    obtain ⟨l, m, he, hl, hm⟩ := List.sublist_append_iff.mp h
    cases l with
    | nil =>
      -- then `r` itself stands behind the place of `r`
      obtain rfl : [w, r] = m := he
      rcases List.sublist_cons_iff.mp hm with hm | ⟨t, ht, hm⟩
      · exact absurd (hm.subset (by simp)) hpost
      · obtain rfl := (List.cons.inj ht).2
        exact absurd (hm.subset (by simp)) hpost
    | cons a l =>
      obtain rfl : w = a := (List.cons.inj he).1
      exact hl.subset (by simp)
  · intro h
    exact (List.singleton_sublist.mpr h).append (by simp : [r].Sublist (r :: post))

theorem nodup_ranked_distinct (rules : List Rule) : ((ranked (distinct rules)).map Rule.key).Nodup :=
  ((ranked_perm _).map Rule.key).nodup_iff.mpr (distinct_condenses rules).nodup

variable [Regex.Library]

def outcome? (defaults : TypeSet) (all : List Rule) (r : Rule) : Option Rule :=
  (placed? all r).filter fun o => all.all fun w => !([w, r].isSublist all && covers defaults w o)

theorem outcome?_eq_some {defaults : TypeSet} {all : List Rule} {r o : Rule} :
    outcome? defaults all r = some o ↔
      placed? all r = some o ∧ ∀ w, [w, r].Sublist all → covers defaults w o = false := by
  rw [outcome?, Option.filter_eq_some_iff]
  refine and_congr_right fun _ => ?_
  simp only [List.all_eq_true, Bool.not_eq_true', Bool.and_eq_false_imp, List.isSublist_iff_sublist]
  exact ⟨fun h w hw => h w (hw.subset (by simp)) hw, fun h w _ hw => h w hw⟩

/-- Only wildcard rules cover others, and the grouping pass leaves these where they are. -/
theorem any_covers_placed (defaults : TypeSet) (all pre : List Rule) (o : Rule) :
    ((pre.filterMap (placed? all)).any fun w => covers defaults w o) = pre.any fun w => covers defaults w o := by
  rw [Bool.eq_iff_iff, List.any_eq_true, List.any_eq_true]
  constructor
  · rintro ⟨x, hx, hc⟩
    obtain ⟨w, hw, hp⟩ := List.mem_filterMap.mp hx
    obtain ⟨v, q, hv⟩ := covers_wildcard hc
    exact ⟨w, hw, eq_of_placed?_wildcard hp hv ▸ hc⟩
  · rintro ⟨w, hw, hc⟩
    obtain ⟨v, q, hv⟩ := covers_wildcard hc
    have hk : groupKey? w = none := groupKey?_network hv (by simp)
    exact ⟨w, List.mem_filterMap.mpr ⟨w, hw, placed?_of_groupKey?_none all hk⟩, hc⟩

theorem outcome?_middle {defaults : TypeSet} {all pre post : List Rule} {r o : Rule} (hall : all = pre ++ r :: post)
    (hn : all.Nodup) (ho : placed? all r = some o) :
    outcome? defaults all r = if pre.any (fun w => covers defaults w o) then none else some o := by
  have hbefore (w : Rule) : [w, r].Sublist all ↔ w ∈ pre := by
    rw [hall] at hn ⊢
    exact pair_sublist_iff hn
  split_ifs with hc
  · rw [Option.eq_none_iff_forall_ne_some]
    intro p hp
    obtain ⟨hpo, huncov⟩ := outcome?_eq_some.mp hp
    obtain rfl := Option.some.inj (ho.symm.trans hpo)
    obtain ⟨w, hw, hcw⟩ := List.any_eq_true.mp hc
    rw [huncov w ((hbefore w).mpr hw)] at hcw
    cases hcw
  · refine outcome?_eq_some.mpr ⟨ho, fun w hw => ?_⟩
    rw [Bool.eq_false_iff]
    intro hcw
    exact hc (List.any_eq_true.mpr ⟨w, (hbefore w).mp hw, hcw⟩)

/-- The two passes on the first rules leave the outcomes of these rules. -/
theorem kept_clear_prefix {defaults : TypeSet} {all pre post : List Rule} (hn : all.Nodup) (hall : all = pre ++ post) :
    (clear defaults (pre.filterMap (placed? all))).kept = pre.filterMap (outcome? defaults all) := by
  induction pre using List.reverseRecOn generalizing post with
  | nil => rfl
  | append_singleton pre r ih =>
    have hr : all = pre ++ r :: post := by rw [hall, List.append_assoc]; rfl
    rw [List.filterMap_append, List.filterMap_append, ← ih hr]
    cases ho : placed? all r with
    | none => simp [ho, outcome?]
    | some o =>
      rw [List.filterMap_cons_some ho, List.filterMap_nil, kept_clear_snoc, any_covers_placed, List.filterMap_cons,
        outcome?_middle hr hn ho]
      split_ifs <;> simp

/-- The result of a reduction, rule by rule. -/
theorem rules_eq_filterMap (defaults : TypeSet) (rules : List Rule) :
    (ofRules defaults rules).rules =
      (ranked (distinct rules)).filterMap (outcome? defaults (ranked (distinct rules))) := by
  have hn : (ranked (distinct rules)).Nodup := .of_map _ (nodup_ranked_distinct rules)
  rw [← kept_clear_prefix hn (List.append_nil _).symm, ← grouped_eq_filterMap hn]
  rfl

/-- A relation holds between the rules of the result in order if it holds between the outcomes of any two rules. -/
theorem pairwise_rules_iff {R : Rule → Rule → Prop} {defaults : TypeSet} {rules : List Rule} :
    (ofRules defaults rules).rules.Pairwise R ↔
      ∀ r s, [r, s].Sublist (ranked (distinct rules)) →
        ∀ o, outcome? defaults (ranked (distinct rules)) r = some o →
        ∀ p, outcome? defaults (ranked (distinct rules)) s = some p → R o p := by
  rw [rules_eq_filterMap, List.pairwise_filterMap, List.pairwise_iff_forall_sublist]

theorem rules_ranked (defaults : TypeSet) (rules : List Rule) : Ranked (ofRules defaults rules).rules := by
  refine pairwise_rules_iff.mpr fun r s hrs o ho p hp => ?_
  have hle := List.pairwise_iff_forall_sublist.mp (ranked_ranked (distinct rules)) hrs
  rw [placed?_priority (outcome?_eq_some.mp ho).1, placed?_priority (outcome?_eq_some.mp hp).1]
  exact hle

end Blocklist.Reduction
