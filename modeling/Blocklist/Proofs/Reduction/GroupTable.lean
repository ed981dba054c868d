import Blocklist.Proofs.Reduction.Regrouping

/-! The grouping pass run from a table. The table gives for each group the places of its members; from it come the
places that lead a group and those that a group absorbs, and a second walk over the rules replays them. The order in
which the table gives its groups has no effect, and the pass that needs no table gives the same rules. -/

namespace Blocklist.Reduction

def enter (k : GroupKey) (i : Nat) : List (GroupKey × List Nat) → List (GroupKey × List Nat)
  | [] => [(k, [i])]
  | g :: gs => if g.1 = k then (k, g.2 ++ [i]) :: gs else g :: enter k i gs

def enterFrom (groups : List (GroupKey × List Nat)) (i : Nat) : List Rule → List (GroupKey × List Nat)
  | [] => groups
  | r :: rs =>
    match groupKey? r with
    | none => enterFrom groups (i + 1) rs
    | some k => enterFrom (enter k i groups) (i + 1) rs

def groupTable (rules : List Rule) : List (GroupKey × List Nat) := enterFrom [] 0 rules

def large (groups : List (GroupKey × List Nat)) : List (GroupKey × List Nat) := groups.filter fun g => 2 ≤ g.2.length

def leaders (groups : List (GroupKey × List Nat)) : List (Nat × List Nat) :=
  (large groups).map fun g => (g.2.headD 0, g.2)

/-- The places that leave no rule of their own. -/
def absorbed (groups : List (GroupKey × List Nat)) : List Nat := (large groups).flatMap fun g => g.2.tail

def hostAt? (rules : List Rule) (i : Nat) : Option Text := rules[i]?.bind fun r => (member? r).map Prod.fst

def optionsOf (r : Rule) : Options :=
  match r.body with
  | .network _ o => o
  | _ => {}

/-- Goes through the rules from place `i` on, and counts the rules that go into the group of another one. -/
def replayFrom (rules : List Rule) (groups : List (GroupKey × List Nat)) (i : Nat) : List Rule → List Rule × Nat
  | [] => ([], 0)
  | r :: rs =>
    let rest := replayFrom rules groups (i + 1) rs
    if (absorbed groups).contains i then rest
    else
      match (leaders groups).lookup i with
      | none => (r :: rest.1, rest.2)
      | some is =>
        ({ r with body := .network (.hostGroup (is.filterMap (hostAt? rules))) (optionsOf r) } :: rest.1,
          (is.length - 1) + rest.2)

def regroup (groups : List (GroupKey × List Nat)) (rules : List Rule) : List Rule × Nat :=
  if (leaders groups).isEmpty then (rules, 0) else replayFrom rules groups 0 rules

def placesFrom (k : GroupKey) (n : Nat) : List Rule → List Nat
  | [] => []
  | r :: rs => if groupKey? r = some k then n :: placesFrom k (n + 1) rs else placesFrom k (n + 1) rs

theorem placesFrom_append (k : GroupKey) (n : Nat) (xs ys : List Rule) :
    placesFrom k n (xs ++ ys) = placesFrom k n xs ++ placesFrom k (n + xs.length) ys := by
  induction xs generalizing n with
  | nil => rfl
  | cons x xs ih =>
    have hlength : n + (xs.length + 1) = n + 1 + xs.length := by omega
    simp only [List.cons_append, placesFrom, ih, List.length_cons, hlength]
    split_ifs <;> rfl

theorem bounds_of_mem_placesFrom {k : GroupKey} {n i : Nat} {rs : List Rule} (h : i ∈ placesFrom k n rs) :
    n ≤ i ∧ i < n + rs.length := by
  induction rs generalizing n with
  | nil => cases h
  | cons r rs ih =>
    have hrest (hi : i ∈ placesFrom k (n + 1) rs) : n ≤ i ∧ i < n + (rs.length + 1) := by
      have := ih hi
      omega
    rw [List.length_cons]
    rw [placesFrom] at h
    split_ifs at h
    · rcases List.mem_cons.mp h with rfl | h
      · omega
      · exact hrest h
    · exact hrest h

theorem placesFrom_eq_nil {k : GroupKey} {n : Nat} {rs : List Rule} :
    placesFrom k n rs = [] ↔ some k ∉ rs.map groupKey? := by
  induction rs generalizing n with
  | nil => simp [placesFrom]
  | cons r rs ih =>
    rw [placesFrom, List.map_cons, List.mem_cons, eq_comm (a := some k)]
    split_ifs with hr
    · simp [hr]
    · simp [hr, ih]

theorem mem_of_placesFrom_eq_cons {k : GroupKey} {n p : Nat} {ps : List Nat} {rs : List Rule}
    (h : placesFrom k n rs = p :: ps) : some k ∈ rs.map groupKey? := by
  by_contra hnone
  rw [placesFrom_eq_nil.mpr hnone] at h
  cases h

/-- The groups have their keys once and hold all places of the rules that may be grouped. -/
structure IsTable (rules : List Rule) (groups : List (GroupKey × List Nat)) : Prop where
  nodup : (groups.map Prod.fst).Nodup
  mem_iff : ∀ k is, (k, is) ∈ groups ↔ is = placesFrom k 0 rules ∧ is ≠ []

theorem IsTable.perm {rules : List Rule} {groups groups' : List (GroupKey × List Nat)} (h : IsTable rules groups)
    (hp : groups'.Perm groups) : IsTable rules groups' where
  nodup := (hp.map Prod.fst).nodup_iff.mpr h.nodup
  mem_iff k is := hp.mem_iff.trans (h.mem_iff k is)

theorem map_fst_enter (k : GroupKey) (i : Nat) (groups : List (GroupKey × List Nat)) :
    (enter k i groups).map Prod.fst =
      if k ∈ groups.map Prod.fst then groups.map Prod.fst else groups.map Prod.fst ++ [k] := by
  induction groups with
  | nil => rfl
  | cons g groups ih =>
    by_cases hg : g.1 = k
    · simp [enter, hg]
    · simp only [enter, hg, if_false, List.map_cons, ih, List.mem_cons, Ne.symm hg, false_or]
      split <;> simp

theorem mem_enter {groups : List (GroupKey × List Nat)} (hn : (groups.map Prod.fst).Nodup) (j k : GroupKey) (i : Nat)
    (is : List Nat) :
    (j, is) ∈ enter k i groups ↔
      if j = k then (∃ old, (k, old) ∈ groups ∧ is = old ++ [i]) ∨ (k ∉ groups.map Prod.fst ∧ is = [i])
      else (j, is) ∈ groups := by
  induction groups with
  | nil => by_cases hj : j = k <;> simp [enter, hj]
  | cons g groups ih =>
    obtain ⟨g, old⟩ := g
    obtain ⟨hnot, hn⟩ := List.nodup_cons.mp hn
    by_cases hg : g = k
    · subst hg
      have hold (is : List Nat) : (g, is) ∉ groups := fun h => hnot (List.mem_map.mpr ⟨_, h, rfl⟩)
      by_cases hj : j = g <;> simp [enter, hj, hold]
    · rw [enter, if_neg hg, List.mem_cons, ih hn]
      by_cases hj : j = k
      · subst hj
        simp [Ne.symm hg]
      · simp [hj]

theorem IsTable.mem_keys {rules : List Rule} {groups : List (GroupKey × List Nat)} (h : IsTable rules groups)
    (k : GroupKey) : k ∈ groups.map Prod.fst ↔ placesFrom k 0 rules ≠ [] := by
  constructor
  · intro hk
    obtain ⟨⟨j, is⟩, hg, rfl⟩ := List.mem_map.mp hk
    obtain ⟨rfl, hne⟩ := (h.mem_iff j is).mp hg
    exact hne
  · exact fun hne => List.mem_map.mpr ⟨_, (h.mem_iff k _).mpr ⟨rfl, hne⟩, rfl⟩

theorem IsTable.snoc_other {pre : List Rule} {groups : List (GroupKey × List Nat)} (h : IsTable pre groups) {r : Rule}
    (hr : groupKey? r = none) : IsTable (pre ++ [r]) groups where
  nodup := h.nodup
  mem_iff k is := by simp [placesFrom_append, placesFrom, hr, h.mem_iff]

theorem IsTable.snoc_enter {pre : List Rule} {groups : List (GroupKey × List Nat)} (h : IsTable pre groups) {r : Rule}
    {k : GroupKey} (hr : groupKey? r = some k) : IsTable (pre ++ [r]) (enter k pre.length groups) where
  nodup := by
    rw [map_fst_enter]
    split_ifs with hk
    · exact h.nodup
    · refine List.nodup_append.mpr ⟨h.nodup, by simp, ?_⟩
      rintro a ha b hb rfl
      exact hk (List.mem_singleton.mp hb ▸ ha)
  mem_iff j is := by
    rw [mem_enter h.nodup, placesFrom_append, h.mem_keys]
    split_ifs with hj
    · subst hj
      have hlast : placesFrom j (0 + pre.length) [r] = [pre.length] := by simp [placesFrom, hr]
      rw [hlast]
      have hne : is = placesFrom j 0 pre ++ [pre.length] → is ≠ [] := by
        rintro rfl
        simp
      by_cases hnil : placesFrom j 0 pre = []
      · simpa [hnil, h.mem_iff] using hne
      · simpa [hnil, h.mem_iff] using hne
    · have hnone : placesFrom j (0 + pre.length) [r] = [] := by simp [placesFrom, hr, Ne.symm hj]
      rw [hnone, List.append_nil, h.mem_iff]

theorem enterFrom_isTable {pre : List Rule} {groups : List (GroupKey × List Nat)} (h : IsTable pre groups)
    (rs : List Rule) : IsTable (pre ++ rs) (enterFrom groups pre.length rs) := by
  induction rs generalizing pre groups with
  | nil => rwa [List.append_nil]
  | cons r rs ih =>
    rw [enterFrom, List.append_cons]
    cases hr : groupKey? r with
    | none => simpa using ih (h.snoc_other hr)
    | some k => simpa using ih (h.snoc_enter hr)

theorem groupTable_isTable (rules : List Rule) : IsTable rules (groupTable rules) := by
  have hempty : IsTable [] [] := ⟨List.nodup_nil, by simp [placesFrom]⟩
  exact enterFrom_isTable hempty rules

section

variable {rules : List Rule} {groups : List (GroupKey × List Nat)} (h : IsTable rules groups)

include h

theorem IsTable.mem_large (k : GroupKey) (is : List Nat) :
    (k, is) ∈ large groups ↔ is = placesFrom k 0 rules ∧ 2 ≤ is.length := by
  rw [large, List.mem_filter, h.mem_iff, decide_eq_true_eq]
  refine ⟨fun ⟨⟨he, _⟩, hlen⟩ => ⟨he, hlen⟩, fun ⟨he, hlen⟩ => ⟨⟨he, ?_⟩, hlen⟩⟩
  exact List.length_pos_iff.mp (Nat.lt_of_lt_of_le Nat.zero_lt_two hlen)

theorem IsTable.mem_absorbed (i : Nat) : i ∈ absorbed groups ↔ ∃ k, i ∈ (placesFrom k 0 rules).tail := by
  simp only [absorbed, List.mem_flatMap, Prod.exists, h.mem_large]
  constructor
  · rintro ⟨k, is, ⟨rfl, -⟩, hi⟩
    exact ⟨k, hi⟩
  · rintro ⟨k, hi⟩
    have hlen := List.length_pos_of_mem hi
    rw [List.length_tail] at hlen
    exact ⟨k, _, ⟨rfl, by omega⟩, hi⟩

theorem IsTable.mem_leaders (i : Nat) (is : List Nat) :
    (i, is) ∈ leaders groups ↔ ∃ k, is = placesFrom k 0 rules ∧ 2 ≤ is.length ∧ is.headD 0 = i := by
  simp only [leaders, List.mem_map, Prod.exists, h.mem_large, Prod.mk.injEq]
  constructor
  · rintro ⟨k, is', ⟨rfl, hlen⟩, hhead, rfl⟩
    exact ⟨k, rfl, hlen, hhead⟩
  · rintro ⟨k, rfl, hlen, hhead⟩
    exact ⟨k, _, ⟨rfl, hlen⟩, hhead, rfl⟩

end

section

variable {rules pre post : List Rule} {r : Rule} (hrules : rules = pre ++ r :: post) (k : GroupKey)

include hrules

/-- The places of a group around the place of `r`. -/
theorem placesFrom_middle :
    placesFrom k 0 rules = placesFrom k 0 pre ++
      if groupKey? r = some k then pre.length :: placesFrom k (pre.length + 1) post
      else placesFrom k (pre.length + 1) post := by
  rw [hrules, placesFrom_append, Nat.zero_add, placesFrom]

/-- The place of `r` is one of a group behind its first if `r` belongs to it and a rule before does. -/
theorem mem_tail_placesFrom :
    pre.length ∈ (placesFrom k 0 rules).tail ↔ groupKey? r = some k ∧ some k ∈ pre.map groupKey? := by
  have hpost : pre.length ∉ placesFrom k (pre.length + 1) post := fun hi => by
    have := bounds_of_mem_placesFrom hi
    omega
  rw [placesFrom_middle hrules]
  cases hpre : placesFrom k 0 pre with
  | nil =>
    have hnone := placesFrom_eq_nil.mp hpre
    split_ifs with hr
    · simp [hnone, hpost]
    · have htail := mt List.mem_of_mem_tail hpost
      simp [hr, htail]
  | cons p ps =>
    have hsome := mem_of_placesFrom_eq_cons hpre
    have hps : pre.length ∉ ps := fun hi => by
      have := bounds_of_mem_placesFrom (hpre ▸ List.mem_cons_of_mem p hi)
      omega
    split_ifs with hr
    · simp [hr, hsome]
    · simp [hr, hps, hpost]

/-- The place of `r` is the first of a group if `r` belongs to it and no rule before does. -/
theorem headD_placesFrom (hne : placesFrom k 0 rules ≠ []) :
    (placesFrom k 0 rules).headD 0 = pre.length ↔ groupKey? r = some k ∧ some k ∉ pre.map groupKey? := by
  rw [placesFrom_middle hrules] at hne ⊢
  cases hpre : placesFrom k 0 pre with
  | nil =>
    have hnone := placesFrom_eq_nil.mp hpre
    split_ifs with hr
    · simp [hr, hnone]
    · rw [hpre, if_neg hr, List.nil_append] at hne
      obtain ⟨q, qs, hq⟩ := List.exists_cons_of_ne_nil hne
      have := bounds_of_mem_placesFrom (hq ▸ List.mem_cons_self : q ∈ placesFrom k (pre.length + 1) post)
      have hlater : q ≠ pre.length := by omega
      simp [hq, hr, hlater]
  | cons p ps =>
    have hsome := mem_of_placesFrom_eq_cons hpre
    have := bounds_of_mem_placesFrom (hpre ▸ List.mem_cons_self : p ∈ placesFrom k 0 pre)
    have hearlier : p ≠ pre.length := by omega
    simp [hsome, hearlier]

end

/-! ## The replay -/

/-- Where a key has one value, looking it up finds that value. -/
theorem lookup_eq_some_iff_mem {β : Type} {i : Nat} {b : β} {entries : List (Nat × β)}
    (hone : ∀ b b', (i, b) ∈ entries → (i, b') ∈ entries → b = b') :
    entries.lookup i = some b ↔ (i, b) ∈ entries := by
  have hmem {b : β} (hb : entries.lookup i = some b) : (i, b) ∈ entries := by
    obtain ⟨before, after, rfl, -⟩ := List.lookup_eq_some_iff.mp hb
    simp
  refine ⟨hmem, fun hb => ?_⟩
  cases hl : entries.lookup i with
  | none => simpa using List.lookup_eq_none_iff.mp hl _ hb
  | some b' => rw [hone b b' hb (hmem hl)]

section

variable {rules pre post : List Rule} {r : Rule} {groups : List (GroupKey × List Nat)} {done : List GroupKey}
  (h : IsTable rules groups) (hrules : rules = pre ++ r :: post) (hp : Passed done pre)

include h hrules hp

/-- The replay skips the rules whose group has its rule already. -/
theorem IsTable.absorbed_iff : pre.length ∈ absorbed groups ↔ ∃ k ∈ done, groupKey? r = some k := by
  simp only [h.mem_absorbed, mem_tail_placesFrom hrules, hp _, and_comm]

/-- The replay puts a group at the first of its rules. -/
theorem IsTable.lookup_leaders (is : List Nat) :
    (leaders groups).lookup pre.length = some is ↔
      ∃ k ∉ done, groupKey? r = some k ∧ is = placesFrom k 0 rules ∧ 2 ≤ is.length := by
  have hmem (is : List Nat) : (pre.length, is) ∈ leaders groups ↔
      ∃ k ∉ done, groupKey? r = some k ∧ is = placesFrom k 0 rules ∧ 2 ≤ is.length := by
    rw [h.mem_leaders]
    refine exists_congr fun k => ?_
    constructor
    · rintro ⟨rfl, hlen, hhead⟩
      obtain ⟨hr, hnew⟩ := (headD_placesFrom hrules k (List.length_pos_iff.mp (by omega))).mp hhead
      exact ⟨mt (hp k).mp hnew, hr, rfl, hlen⟩
    · rintro ⟨hnew, hr, rfl, hlen⟩
      exact ⟨rfl, hlen, (headD_placesFrom hrules k (List.length_pos_iff.mp (by omega))).mpr ⟨hr, mt (hp k).mpr hnew⟩⟩
  rw [← hmem]
  refine lookup_eq_some_iff_mem fun is is' his his' => ?_
  obtain ⟨k, -, hk, rfl, -⟩ := (hmem is).mp his
  obtain ⟨k', -, hk', rfl, -⟩ := (hmem is').mp his'
  rw [Option.some.inj (hk.symm.trans hk')]

end

theorem length_placesFrom (k : GroupKey) (n : Nat) (rs : List Rule) :
    (placesFrom k n rs).length = (groupHosts rs k).length := by
  rw [length_groupHosts]
  induction rs generalizing n with
  | nil => rfl
  | cons r rs ih =>
    rw [placesFrom]
    split_ifs with hr
    · rw [List.length_cons, ih, List.filterMap_cons_some hr, List.count_cons_self]
    · rw [ih]
      cases hk : groupKey? r with
      | none => rw [List.filterMap_cons_none hk]
      | some j =>
        have hj : j ≠ k := fun he => hr (he ▸ hk)
        rw [List.filterMap_cons_some hk, List.count_cons_of_ne hj]

/-- The hosts at the places of a group are the hosts of the group. -/
theorem filterMap_hostAt? {rules pre rs : List Rule} (hrules : rules = pre ++ rs) (k : GroupKey) :
    (placesFrom k pre.length rs).filterMap (hostAt? rules) = groupHosts rs k := by
  induction rs generalizing pre with
  | nil => rfl
  | cons r rs ih =>
    have hrest : (placesFrom k (pre.length + 1) rs).filterMap (hostAt? rules) = groupHosts rs k := by
      have hsnoc : rules = (pre ++ [r]) ++ rs := by rw [hrules, List.append_assoc]; rfl
      simpa using ih hsnoc
    have hhere : hostAt? rules pre.length = (member? r).map Prod.fst := by simp [hostAt?, hrules]
    unfold groupHosts at hrest ⊢
    rw [placesFrom]
    cases hm : member? r with
    | none => simp [groupKey?, hm, hrest]
    | some m =>
      obtain ⟨g, j⟩ := m
      by_cases hj : j = k
      · simp [groupKey?, hm, hj, hhere, hrest]
      · simp [groupKey?, hm, hj, hrest]

theorem optionsOf_of_groupKey? {r : Rule} {k : GroupKey} (h : groupKey? r = some k) : optionsOf r = k.options := by
  obtain ⟨g, hm⟩ := groupKey?_eq_some.mp h
  obtain ⟨-, hb, -, -⟩ := member?_eq_some.mp hm
  simp [optionsOf, hb]

section

variable {rules : List Rule} {groups : List (GroupKey × List Nat)} {i : Nat} (r : Rule) (rs : List Rule)

theorem replayFrom_of_absorbed (ha : i ∈ absorbed groups) :
    replayFrom rules groups i (r :: rs) = replayFrom rules groups (i + 1) rs := by
  rw [replayFrom, if_pos (by simpa using ha)]

theorem replayFrom_of_lookup (ha : i ∉ absorbed groups) {is : List Nat}
    (hl : (leaders groups).lookup i = some is) :
    replayFrom rules groups i (r :: rs) =
      ({ r with body := .network (.hostGroup (is.filterMap (hostAt? rules))) (optionsOf r) } ::
          (replayFrom rules groups (i + 1) rs).1,
        (is.length - 1) + (replayFrom rules groups (i + 1) rs).2) := by
  rw [replayFrom, if_neg (by simpa using ha), hl]

theorem replayFrom_of_no_lookup (ha : i ∉ absorbed groups) (hl : (leaders groups).lookup i = none) :
    replayFrom rules groups i (r :: rs) =
      (r :: (replayFrom rules groups (i + 1) rs).1, (replayFrom rules groups (i + 1) rs).2) := by
  rw [replayFrom, if_neg (by simpa using ha), hl]

end

/-- At the first rule of a group the replay leaves what the pass leaves, and counts the other members. -/
theorem IsTable.replayFrom_of_new {rules pre post : List Rule} {r : Rule} {groups : List (GroupKey × List Nat)}
    {done : List GroupKey} (h : IsTable rules groups) (hrules : rules = pre ++ r :: post) (hp : Passed done pre)
    {k : GroupKey} (hk : groupKey? r = some k) (hd : k ∉ done) :
    replayFrom rules groups pre.length (r :: post) =
      (groupRule rules k r :: (replayFrom rules groups (pre.length + 1) post).1,
        ((groupHosts rules k).length - 1) + (replayFrom rules groups (pre.length + 1) post).2) := by
  have ha : pre.length ∉ absorbed groups := by simp [h.absorbed_iff hrules hp, hk, hd]
  have hlookup := h.lookup_leaders hrules hp
  rcases Nat.lt_or_ge (groupHosts rules k).length 2 with hlt | hge
  · have hnone : (leaders groups).lookup pre.length = none := by
      refine Option.eq_none_iff_forall_ne_some.mpr fun is his => ?_
      obtain ⟨j, -, hj, rfl, hlen⟩ := (hlookup is).mp his
      obtain rfl := Option.some.inj (hk.symm.trans hj)
      rw [length_placesFrom] at hlen
      omega
    have hzero : (groupHosts rules k).length - 1 = 0 := by omega
    rw [replayFrom_of_no_lookup r post ha hnone, groupRule_of_single hlt, hzero, Nat.zero_add]
  · have hleads := (hlookup _).mpr ⟨k, hd, hk, rfl, by rwa [length_placesFrom]⟩
    have hhosts : (placesFrom k 0 rules).filterMap (hostAt? rules) = groupHosts rules k :=
      filterMap_hostAt? (List.nil_append rules).symm k
    rw [replayFrom_of_lookup r post ha hleads, groupRule_of_many hge, hhosts, length_placesFrom,
      optionsOf_of_groupKey? hk]

/-- The replay does what the pass does, and counts the rules of each group but for one. -/
theorem IsTable.replayFrom_eq {rules : List Rule} {groups : List (GroupKey × List Nat)} (h : IsTable rules groups)
    {pre rs : List Rule} {done : List GroupKey} (hrules : rules = pre ++ rs) (hp : Passed done pre) :
    replayFrom rules groups pre.length rs =
      (groupFrom rules done rs,
        ∑ k ∈ (rs.filterMap groupKey?).toFinset \ done.toFinset, ((groupHosts rules k).length - 1)) := by
  induction rs generalizing pre done with
  | nil => simp [replayFrom, groupFrom]
  | cons r rs ih =>
    have hrest {done' : List GroupKey} (hp' : Passed done' (pre ++ [r])) :
        replayFrom rules groups (pre.length + 1) rs =
          (groupFrom rules done' rs,
            ∑ k ∈ (rs.filterMap groupKey?).toFinset \ done'.toFinset, ((groupHosts rules k).length - 1)) := by
      have hsnoc : rules = (pre ++ [r]) ++ rs := by rw [hrules, List.append_assoc]; rfl
      simpa using ih hsnoc hp'
    cases hk : groupKey? r with
    | none =>
      have ha : pre.length ∉ absorbed groups := by simp [h.absorbed_iff hrules hp, hk]
      have hnone : (leaders groups).lookup pre.length = none := by
        refine Option.eq_none_iff_forall_ne_some.mpr fun is his => ?_
        obtain ⟨j, -, hj, -⟩ := (h.lookup_leaders hrules hp is).mp his
        rw [hk] at hj
        cases hj
      rw [replayFrom_of_no_lookup r rs ha hnone, hrest (hp.snoc_other hk), groupFrom_cons_other rs hk,
        List.filterMap_cons_none hk]
    | some k =>
      simp only [List.filterMap_cons_some hk, List.toFinset_cons, sum_insert_sdiff, List.mem_toFinset]
      by_cases hd : k ∈ done
      · have ha : pre.length ∈ absorbed groups := (h.absorbed_iff hrules hp).mpr ⟨k, hd, hk⟩
        rw [replayFrom_of_absorbed r rs ha, hrest (hp.snoc_done hk hd), groupFrom_cons_done rs hk hd, if_pos hd]
      · rw [h.replayFrom_of_new hrules hp hk hd, hrest (hp.snoc_new hk), groupFrom_cons_new rs hk hd, if_neg hd,
          List.toFinset_cons]

theorem replayFrom_of_no_leaders {groups : List (GroupKey × List Nat)} (hl : leaders groups = []) (rules rs : List Rule)
    (i : Nat) : replayFrom rules groups i rs = (rs, 0) := by
  have hlarge : large groups = [] := List.map_eq_nil_iff.mp hl
  have ha (i : Nat) : i ∉ absorbed groups := by simp [absorbed, hlarge]
  induction rs generalizing i with
  | nil => rfl
  | cons r rs ih => rw [replayFrom_of_no_lookup r rs (ha i) (by rw [hl]; rfl), ih]

theorem regroup_eq_replayFrom (groups : List (GroupKey × List Nat)) (rules : List Rule) :
    regroup groups rules = replayFrom rules groups 0 rules := by
  rw [regroup]
  split_ifs with hl
  · rw [replayFrom_of_no_leaders (List.isEmpty_iff.mp hl)]
  · rfl

/-- A table of the groups, in whatever order it has them, leads to the rules of the pass and the number of rules that
the pass takes away. -/
theorem regroup_of_perm {rules : List Rule} {groups : List (GroupKey × List Nat)}
    (hp : groups.Perm (groupTable rules)) :
    (regroup groups rules).1 = grouped rules ∧ (regroup groups rules).2 + (grouped rules).length = rules.length := by
  have hreplay := ((groupTable_isTable rules).perm hp).replayFrom_eq (List.nil_append rules).symm passed_nil
  rw [List.toFinset_nil, Finset.sdiff_empty] at hreplay
  rw [regroup_eq_replayFrom, ← List.length_nil (α := Rule), hreplay]
  exact ⟨rfl, by rw [Nat.add_comm]; exact length_grouped_add rules⟩

/-- The pass only regroups, from whatever order of the groups it starts: it names the same hosts under the same keys,
keeps all other rules in order, leaves one rule of each group, and leaves it where the first member stood. -/
theorem grouped_only_regroups {rules : List Rule} {groups : List (GroupKey × List Nat)}
    (hp : groups.Perm (groupTable rules)) :
    (regroup groups rules).1 = grouped rules ∧
      (regroup groups rules).2 + (grouped rules).length = rules.length ∧
      ((grouped rules).flatMap hostEntries).Perm (rules.flatMap hostEntries) ∧
      (rules.filter fun r => groupKey? r = none).Sublist (grouped rules) ∧
      ((grouped rules).filterMap groupKey?).Nodup ∧
      ∃ places, Placement rules 0 places (grouped rules) := by
  obtain ⟨hout, hcount⟩ := regroup_of_perm hp
  exact ⟨hout, hcount, hostEntries_grouped_perm rules, filter_sublist_groupFrom rules [] rules,
    (nodup_groupKey?_groupFrom rules [] rules).1, exists_placement (List.nil_append rules).symm passed_nil⟩

def interleaved : List Rule :=
  [⟨.block, .network (.hostAnchor "a.com".toList) {}, 1, [], 1⟩,
    ⟨.allow, .network (.hostAnchor "b.com".toList) {}, 1, [], 2⟩,
    ⟨.block, .network (.hostAnchor "c.com".toList) {}, 1, [], 3⟩,
    ⟨.block, .network (.substring "/ad".toList) {}, 1, [], 4⟩,
    ⟨.allow, .network (.hostAnchor "d.com".toList) {}, 1, [], 5⟩]

def interleavedTable : List (GroupKey × List Nat) := [(⟨.allow, {}, 1⟩, [1, 4]), (⟨.block, {}, 1⟩, [0, 2])]

theorem grouped_only_regroups_interleaved :
    interleavedTable.Perm (groupTable interleaved) ∧ interleavedTable ≠ groupTable interleaved ∧
      regroup interleavedTable interleaved =
        ([⟨.block, .network (.hostGroup ["a.com".toList, "c.com".toList]) {}, 1, [], 1⟩,
          ⟨.allow, .network (.hostGroup ["b.com".toList, "d.com".toList]) {}, 1, [], 2⟩,
          ⟨.block, .network (.substring "/ad".toList) {}, 1, [], 4⟩], 2) ∧
      ((grouped interleaved).flatMap hostEntries).Perm (interleaved.flatMap hostEntries) ∧
      ∃ places, Placement interleaved 0 places (grouped interleaved) := by
  have hp : interleavedTable.Perm (groupTable interleaved) := by decide
  obtain ⟨-, -, hhosts, -, -, hplaces⟩ := grouped_only_regroups hp
  exact ⟨hp, by decide, by decide, hhosts, hplaces⟩

end Blocklist.Reduction
