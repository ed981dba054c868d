import Blocklist.Proofs.Reading
import Blocklist.Proofs.Reduction.Survivors

/-! Where the rules of a reduction come from. A rule of the result goes back to the first given rule that does the same,
and a group to the first given rule about one of its hosts. These places decide the order of rules of equal priority,
and a rule names the list and the line of the given rule at its place. -/

namespace Blocklist.Reduction

def firstPlace (rules : List Rule) (k : Rule.Key) : Nat := rules.findIdx fun r => r.key = k

section

variable {rules : List Rule} {k : Rule.Key}

theorem firstPlace_lt (h : k ∈ rules.map Rule.key) : firstPlace rules k < rules.length := by
  obtain ⟨r, hr, rfl⟩ := List.mem_map.mp h
  exact List.findIdx_lt_length_of_exists ⟨r, hr, by simp⟩

theorem firstPlace_append (h : k ∈ rules.map Rule.key) (rs : List Rule) :
    firstPlace (rules ++ rs) k = firstPlace rules k := by
  rw [firstPlace, List.findIdx_append]
  exact if_pos (firstPlace_lt h)

theorem firstPlace_snoc_new {r : Rule} (h : r.key ∉ rules.map Rule.key) :
    firstPlace (rules ++ [r]) r.key = rules.length := by
  have hnone : firstPlace rules r.key = rules.length :=
    List.findIdx_eq_length.mpr fun s hs => by simpa using fun he => h (List.mem_map.mpr ⟨s, hs, he⟩)
  unfold firstPlace at hnone ⊢
  rw [List.findIdx_append, hnone]
  simp

end

/-- `ks` are rules that do different things, in the order in which these things were first done, and each is the rule
that did it first but for its priority. -/
structure FirstSeen (rules ks : List Rule) : Prop where
  increasing : (ks.map Rule.key).Pairwise fun j k => firstPlace rules j < firstPlace rules k
  origin : ∀ d ∈ ks, ∃ r, rules[firstPlace rules d.key]? = some r ∧ d = { r with priority := d.priority }

section

variable {rules ks : List Rule} (hc : Condenses rules ks) (h : FirstSeen rules ks)

include hc h

/-- What is known of a rule stays when more rules are given. -/
theorem FirstSeen.origin_append {d : Rule} (hd : d ∈ ks) (rs : List Rule) :
    ∃ r, (rules ++ rs)[firstPlace (rules ++ rs) d.key]? = some r ∧ d = { r with priority := d.priority } := by
  have hk := (hc.mem_keys d.key).mp (List.mem_map_of_mem hd)
  obtain ⟨r, hr, he⟩ := h.origin d hd
  refine ⟨r, ?_, he⟩
  rwa [firstPlace_append hk, List.getElem?_append_left (firstPlace_lt hk)]

theorem FirstSeen.increasing_append (rs : List Rule) :
    (ks.map Rule.key).Pairwise fun j k => firstPlace (rules ++ rs) j < firstPlace (rules ++ rs) k := by
  refine h.increasing.imp_of_mem fun {j k} hj hk hlt => ?_
  rwa [firstPlace_append ((hc.mem_keys j).mp hj), firstPlace_append ((hc.mem_keys k).mp hk)]

theorem FirstSeen.absorb (r : Rule) : FirstSeen (rules ++ [r]) (Reduction.absorb ks r) := by
  constructor
  · have hold := h.increasing_append hc [r]
    rw [map_key_absorb]
    split_ifs with hr
    · exact hold
    · refine List.pairwise_append.mpr ⟨hold, List.pairwise_singleton _ _, fun j hj k hk => ?_⟩
      have hj := (hc.mem_keys j).mp hj
      rw [List.mem_singleton.mp hk, firstPlace_append hj, firstPlace_snoc_new (mt (hc.mem_keys _).mpr hr)]
      exact firstPlace_lt hj
  · intro x hx
    rcases mem_absorb hc.nodup hx with ⟨hx, -⟩ | ⟨d, hd, -, rfl⟩ | ⟨hr, rfl⟩
    · exact h.origin_append hc hx [r]
    · obtain ⟨s, hs, he⟩ := h.origin_append hc hd [r]
      exact ⟨s, hs, by rw [he]⟩
    · refine ⟨x, ?_, rfl⟩
      rw [firstPlace_snoc_new (mt (hc.mem_keys _).mpr hr)]
      exact List.getElem?_concat_length

theorem FirstSeen.foldl (rs : List Rule) : FirstSeen (rules ++ rs) (rs.foldl Reduction.absorb ks) := by
  induction rs generalizing rules ks with
  | nil => simpa using h
  | cons r rs ih => simpa using ih (hc.absorb r) (h.absorb hc r)

end

theorem distinct_firstSeen (rules : List Rule) : FirstSeen rules (distinct rules) := by
  have hc : Condenses [] [] := ⟨by simp, by simp, by simp⟩
  have h : FirstSeen [] [] := ⟨by simp, by simp⟩
  exact h.foldl hc rules

/-- Once ranked, rules of equal priority stand in the order in which they were first given. -/
theorem ranked_distinct_increasing (rules : List Rule) :
    (ranked (distinct rules)).Pairwise fun a b =>
      b.priority < a.priority ∨ b.priority = a.priority ∧ firstPlace rules a.key < firstPlace rules b.key := by
  refine List.pairwise_iff_forall_sublist.mpr fun {a b} hab => ?_
  have hle : b.priority ≤ a.priority := List.pairwise_iff_forall_sublist.mp (ranked_ranked (distinct rules)) hab
  by_cases hp : b.priority = a.priority
  · have hsub := hab.filter fun r => decide (r.priority = a.priority)
    rw [filter_ranked, List.filter_cons_of_pos (by simp), List.filter_cons_of_pos (by simpa using hp)] at hsub
    have hpair : [a, b].Sublist (distinct rules) := hsub.trans List.filter_sublist
    have hinc := List.pairwise_map.mp (distinct_firstSeen rules).increasing
    exact Or.inr ⟨hp, List.pairwise_iff_forall_sublist.mp hinc hpair⟩
  · exact Or.inl (UInt32.lt_of_le_of_ne hle hp)

def GroupKey.ruleKey (k : GroupKey) (h : Text) : Rule.Key := ⟨k.action, .network (.hostAnchor h) k.options⟩

theorem key_of_member? {r : Rule} {h : Text} {k : GroupKey} (hm : member? r = some (h, k)) : r.key = k.ruleKey h := by
  obtain ⟨-, hb, ha, -⟩ := member?_eq_some.mp hm
  rw [Rule.key, hb, ha, GroupKey.ruleKey]

/-- The hosts of a group stand in the order in which they were first given. -/
theorem groupHosts_increasing (rules : List Rule) (k : GroupKey) :
    (groupHosts (ranked (distinct rules)) k).Pairwise fun g h =>
      firstPlace rules (k.ruleKey g) < firstPlace rules (k.ruleKey h) := by
  have hmember {r : Rule} {h : Text} (hr : h ∈ groupHosts [r] k) : member? r = some (h, k) := by
    simpa using mem_groupHosts.mp hr
  unfold groupHosts
  refine List.pairwise_filterMap.mpr ((ranked_distinct_increasing rules).imp fun {a b} hab g hg h hh => ?_)
  have ha := hmember (by simp [groupHosts, hg] : g ∈ groupHosts [a] k)
  have hb := hmember (by simp [groupHosts, hh] : h ∈ groupHosts [b] k)
  have hp : b.priority = a.priority := by rw [(member?_eq_some.mp ha).2.2.2, (member?_eq_some.mp hb).2.2.2]
  rw [← key_of_member? ha, ← key_of_member? hb]
  exact (hab.resolve_left fun hlt => UInt32.ne_of_lt hlt hp).2

/-- A group lists the host of its first member first. -/
theorem exists_groupHosts_eq_cons {all : List Rule} {k : GroupKey} {r : Rule} (h : IsFirst all k r) :
    ∃ g hs, member? r = some (g, k) ∧ groupHosts all k = g :: hs := by
  obtain ⟨g, hm⟩ := groupKey?_eq_some.mp (find?_groupKey h).2
  obtain ⟨-, pre, post, rfl, hpre⟩ := List.find?_eq_some_iff_append.mp h
  have hnone : groupHosts pre k = [] := by
    refine List.eq_nil_iff_forall_not_mem.mpr fun x hx => ?_
    obtain ⟨s, hs, hsm⟩ := mem_groupHosts.mp hx
    simpa [groupKey?, hsm] using hpre s hs
  refine ⟨g, groupHosts post k, hm, ?_⟩
  unfold groupHosts at hnone ⊢
  rw [List.filterMap_append, hnone]
  simp [hm]

/-- What the given rules did that a rule stands for: the same, or for a group the same about one of its hosts. -/
def sourceKeys (o : Rule) : List Rule.Key :=
  match o.body with
  | .network (.hostGroup hs) q => hs.map fun h => ⟨o.action, .network (.hostAnchor h) q⟩
  | _ => [o.key]

def origin (rules : List Rule) (o : Rule) : Nat := ((sourceKeys o).map (firstPlace rules)).min?.getD rules.length

theorem sourceKeys_of_ungrouped {o : Rule} (h : ∀ hs q, o.body ≠ .network (.hostGroup hs) q) :
    sourceKeys o = [o.key] := by
  unfold sourceKeys
  split
  · rename_i hs q hb
    exact absurd hb (h hs q)
  · rfl

theorem IsGroup.sourceKeys_eq {all : List Rule} {k : GroupKey} {o : Rule} (h : IsGroup all k o) :
    sourceKeys o = (groupHosts all k).map k.ruleKey := by
  simp only [sourceKeys, h.body, h.action]
  rfl

theorem ungrouped_distinct {rules : List Rule} (h : Ungrouped rules) : Ungrouped (distinct rules) := by
  intro d hd
  obtain ⟨r, hr, he⟩ := (distinct_firstSeen rules).origin d hd
  rw [he]
  exact h r (List.mem_of_getElem? hr)

section

variable {rules : List Rule} {r o : Rule} (hu : Ungrouped rules) (hr : r ∈ ranked (distinct rules))
  (ho : placed? (ranked (distinct rules)) r = some o)

include hu hr ho

/-- A rule stands for the rule at whose place it is left before all others. -/
theorem sourceKeys_of_placed? :
    ∃ ks, sourceKeys o = r.key :: ks ∧ ∀ k ∈ ks, firstPlace rules r.key < firstPlace rules k := by
  rcases placed?_cases ho with ⟨rfl, -⟩ | ⟨k, hf, hg⟩
  · exact ⟨[], sourceKeys_of_ungrouped (ungrouped_distinct hu _ (mem_ranked_distinct.mp hr)), by simp⟩
  · obtain ⟨g, hs, hm, hhosts⟩ := exists_groupHosts_eq_cons hf
    have hinc := groupHosts_increasing rules k
    rw [hhosts] at hinc
    refine ⟨hs.map k.ruleKey, by rw [hg.sourceKeys_eq, hhosts, List.map_cons, key_of_member? hm], fun j hj => ?_⟩
    obtain ⟨h, hh, rfl⟩ := List.mem_map.mp hj
    rw [key_of_member? hm]
    exact (List.pairwise_cons.mp hinc).1 h hh

theorem origin_of_placed? : origin rules o = firstPlace rules r.key := by
  obtain ⟨ks, hkeys, hlater⟩ := sourceKeys_of_placed? hu hr ho
  have hmin : ((sourceKeys o).map (firstPlace rules)).min? = some (firstPlace rules r.key) := by
    rw [hkeys, List.min?_eq_some_iff]
    refine ⟨by simp, fun n hn => ?_⟩
    rcases List.mem_cons.mp hn with rfl | hn
    · exact Nat.le_refl _
    · obtain ⟨k, hk, rfl⟩ := List.mem_map.mp hn
      exact Nat.le_of_lt (hlater k hk)
  rw [origin, hmin, Option.getD_some]

theorem mem_keys_of_placed? {k : Rule.Key} (hk : k ∈ sourceKeys o) : k ∈ rules.map Rule.key := by
  have hkey {d : Rule} (hd : d ∈ ranked (distinct rules)) : d.key ∈ rules.map Rule.key :=
    ((distinct_condenses rules).mem_keys _).mp (List.mem_map_of_mem (mem_ranked_distinct.mp hd))
  rcases placed?_cases ho with ⟨rfl, -⟩ | ⟨j, -, hg⟩
  · rw [sourceKeys_of_ungrouped (ungrouped_distinct hu _ (mem_ranked_distinct.mp hr)), List.mem_singleton] at hk
    exact hk ▸ hkey hr
  · rw [hg.sourceKeys_eq] at hk
    obtain ⟨h, hh, rfl⟩ := List.mem_map.mp hk
    obtain ⟨d, hd, hm⟩ := mem_groupHosts.mp hh
    exact key_of_member? hm ▸ hkey hd

end

theorem groupRule_provenance (all : List Rule) (k : GroupKey) (r : Rule) :
    (groupRule all k r).source = r.source ∧ (groupRule all k r).line = r.line := by
  unfold groupRule
  split <;> exact ⟨rfl, rfl⟩

theorem placed?_provenance {all : List Rule} {r o : Rule} (h : placed? all r = some o) :
    o.source = r.source ∧ o.line = r.line := by
  unfold placed? at h
  split at h
  · rw [← Option.some.inj h]
    exact ⟨rfl, rfl⟩
  · rename_i k _
    split_ifs at h
    rw [← Option.some.inj h]
    exact groupRule_provenance all k r

/-- The hosts of a group of the result. -/
theorem hosts_of_placed? {rules : List Rule} {r o : Rule} {hs : List Text} {q : Options} (hu : Ungrouped rules)
    (hr : r ∈ ranked (distinct rules)) (ho : placed? (ranked (distinct rules)) r = some o)
    (hb : o.body = .network (.hostGroup hs) q) :
    hs.Pairwise fun g h => firstPlace rules ⟨o.action, .network (.hostAnchor g) q⟩ <
      firstPlace rules ⟨o.action, .network (.hostAnchor h) q⟩ := by
  rcases placed?_cases ho with ⟨rfl, -⟩ | ⟨k, -, hg⟩
  · exact absurd hb (ungrouped_distinct hu _ (mem_ranked_distinct.mp hr) hs q)
  · obtain ⟨hpat, rfl⟩ := Body.network.inj (hb.symm.trans hg.body)
    obtain rfl := Pattern.hostGroup.inj hpat
    rw [hg.action]
    exact groupHosts_increasing rules k

/-- The first places decide order and provenance. At equal priority a rule stands before those that go back to later
rules; it names the list and line of the given rule it goes back to; and a group lists each host once, in the order in
which they were first given. -/
theorem rules_by_first_place [Regex.Library] (defaults : TypeSet) {rules : List Rule} (hu : Ungrouped rules) :
    (ofRules defaults rules).rules.Pairwise (fun o p =>
      p.priority < o.priority ∨ p.priority = o.priority ∧ origin rules o < origin rules p) ∧
    ∀ o ∈ (ofRules defaults rules).rules,
      (∀ k ∈ sourceKeys o, k ∈ rules.map Rule.key) ∧
      (∃ r, rules[origin rules o]? = some r ∧ r.key ∈ sourceKeys o ∧ o.source = r.source ∧ o.line = r.line) ∧
      ∀ hs q, o.body = .network (.hostGroup hs) q →
        hs.Nodup ∧ hs.Pairwise fun g h => firstPlace rules ⟨o.action, .network (.hostAnchor g) q⟩ <
          firstPlace rules ⟨o.action, .network (.hostAnchor h) q⟩ := by
  constructor
  · refine pairwise_rules_iff.mpr fun r s hrs o ho p hp => ?_
    obtain ⟨ho, -⟩ := outcome?_eq_some.mp ho
    obtain ⟨hp, -⟩ := outcome?_eq_some.mp hp
    rw [placed?_priority ho, placed?_priority hp, origin_of_placed? hu (hrs.subset (by simp)) ho,
      origin_of_placed? hu (hrs.subset (by simp)) hp]
    exact List.pairwise_iff_forall_sublist.mp (ranked_distinct_increasing rules) hrs
  · intro o ho
    rw [rules_eq_filterMap] at ho
    obtain ⟨r, hr, ho⟩ := List.mem_filterMap.mp ho
    obtain ⟨ho, -⟩ := outcome?_eq_some.mp ho
    obtain ⟨ks, hkeys, -⟩ := sourceKeys_of_placed? hu hr ho
    obtain ⟨hsource, hline⟩ := placed?_provenance ho
    obtain ⟨s, hs, he⟩ := (distinct_firstSeen rules).origin r (mem_ranked_distinct.mp hr)
    refine ⟨fun k hk => mem_keys_of_placed? hu hr ho hk, ⟨s, ?_, ?_, ?_, ?_⟩, fun hosts q hb => ?_⟩
    · rwa [origin_of_placed? hu hr ho]
    · rw [hkeys, he]
      exact List.mem_cons_self
    · rw [hsource, he]
    · rw [hline, he]
    · have hinc := hosts_of_placed? hu hr ho hb
      refine ⟨hinc.imp fun {g h} hlt => ?_, hinc⟩
      rintro rfl
      exact Nat.lt_irrefl _ hlt

def hostLine (a : Action) (host : String) (p : UInt32) (source : String) (line : Nat) : Rule :=
  ⟨a, .network (.hostAnchor host.toList) {}, p, source.toList, line⟩

def adLine : Rule := ⟨.block, .network (.substring "/ad".toList) {}, 1, "one".toList, 3⟩

def raisedRules : List Rule :=
  [hostLine .block "a.com" 1 "one" 1, hostLine .allow "c.com" 10000 "one" 2, adLine,
    hostLine .allow "d.com" 10001 "two" 1, hostLine .block "a.com" 1 "two" 2, hostLine .block "b.com" 1 "two" 3,
    hostLine .allow "c.com" 10001 "two" 4]

theorem rules_by_first_place_raisedRules :
    Ungrouped raisedRules ∧
    (ofRules .full raisedRules).rules =
      [⟨.allow, .network (.hostGroup ["c.com".toList, "d.com".toList]) {}, 10001, "one".toList, 2⟩,
        ⟨.block, .network (.hostGroup ["a.com".toList, "b.com".toList]) {}, 1, "one".toList, 1⟩, adLine] ∧
    (ofRules .full raisedRules).rules.map (origin raisedRules) = [1, 0, 2] ∧
    (ofRules .full raisedRules).rules.Pairwise (fun o p =>
      p.priority < o.priority ∨ p.priority = o.priority ∧ origin raisedRules o < origin raisedRules p) ∧
    ∀ o ∈ (ofRules .full raisedRules).rules, ∃ r, raisedRules[origin raisedRules o]? = some r ∧
      r.key ∈ sourceKeys o ∧ o.source = r.source ∧ o.line = r.line := by
  have hdistinct : distinct raisedRules =
      [hostLine .block "a.com" 1 "one" 1, hostLine .allow "c.com" 10001 "one" 2, adLine,
        hostLine .allow "d.com" 10001 "two" 1, hostLine .block "b.com" 1 "two" 3] := by decide
  have hranked : ranked (distinct raisedRules) =
      [hostLine .allow "c.com" 10001 "one" 2, hostLine .allow "d.com" 10001 "two" 1,
        hostLine .block "a.com" 1 "one" 1, adLine, hostLine .block "b.com" 1 "two" 3] := by
    rw [hdistinct]
    simp [ranked, List.mergeSort, List.MergeSort.Internal.splitInTwo, hostLine, adLine]
  have hrules : (ofRules .full raisedRules).rules =
      [⟨.allow, .network (.hostGroup ["c.com".toList, "d.com".toList]) {}, 10001, "one".toList, 2⟩,
        ⟨.block, .network (.hostGroup ["a.com".toList, "b.com".toList]) {}, 1, "one".toList, 1⟩, adLine] := by
    rw [ofRules, hranked]
    decide
  have hu : Ungrouped raisedRules := by simp [Ungrouped, raisedRules, hostLine, adLine]
  obtain ⟨horder, hall⟩ := rules_by_first_place .full hu
  exact ⟨hu, hrules, by rw [hrules]; decide, horder, fun o ho => (hall o ho).2.1⟩

end Blocklist.Reduction
