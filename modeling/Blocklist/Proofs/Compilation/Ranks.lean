import Blocklist.Proofs.Emission
import Blocklist.Proofs.Reading
import Blocklist.Proofs.Reduction.Survivors

/-! The ranks of what is emitted. Exceptions rank from 10000 up and blocks up to 1111; reducing and limiting the
rules keep both bounds and the order, so the records come with their exceptions first. -/

namespace Blocklist

def Rule.InBand (r : Rule) : Prop :=
  (r.action = .allow → 10000 ≤ r.priority) ∧ (r.action = .block → r.priority ≤ 1111)

theorem Rule.InBand.congr {r s : Rule} (h : r.InBand) (ha : r.action = s.action) (hp : r.priority = s.priority) :
    s.InBand := by
  unfold InBand at h ⊢
  rwa [← ha, ← hp]

theorem Priority.le_ofNetwork_allow (o : Options) : 10000 ≤ ofNetwork .allow o := by
  rw [ofNetwork, if_pos rfl]
  split_ifs <;> decide

theorem Priority.ofNetwork_block_le (o : Options) : ofNetwork .block o ≤ 1111 := by
  rw [ofNetwork, if_neg (by decide)]
  split_ifs <;> decide

theorem FromLine.inBand {r : Rule} (h : FromLine r) : r.InBand := by
  cases h with
  | network t o _ _ hp =>
    refine ⟨fun ha => ?_, fun ha => ?_⟩
    · rw [hp, ha]
      exact Priority.le_ofNetwork_allow o
    · rw [hp, ha]
      exact Priority.ofNetwork_block_le o
  | element t ha _ _ =>
    rcases ha with ha | ha <;> simp [Rule.InBand, ha]

theorem inBand_allRules [Regex.Library] {s : Settings} {lists : List FilterList} {r : Rule}
    (h : r ∈ Compilation.allRules s (lists.map FilterList.read)) : r.InBand := by
  rcases Compilation.mem_allRules h with ⟨d, n, rfl⟩ | h
  · exact ⟨fun _ => UInt32.le_refl _, fun ha => by cases ha⟩
  · exact h.inBand

namespace Reduction

/-- A rule of the result has its action and its rank from a given one. -/
theorem exists_action_priority [Regex.Library] {defaults : TypeSet} {rules : List Rule} {o : Rule}
    (ho : o ∈ (ofRules defaults rules).rules) : ∃ r ∈ rules, r.action = o.action ∧ r.priority = o.priority := by
  rcases peak_or_groupOf ho with hp | ⟨hs, q, -, hlen, hpeak⟩
  · obtain ⟨r, hr, hk, hp⟩ := hp.attained
    exact ⟨r, hr, (Rule.Key.mk.inj hk).1, hp⟩
  · obtain ⟨h, hh⟩ := List.exists_mem_of_length_pos (Nat.lt_of_lt_of_le Nat.zero_lt_two hlen)
    obtain ⟨r, hr, hk, hp⟩ := (hpeak h hh).attained
    exact ⟨r, hr, (Rule.Key.mk.inj hk).1, hp⟩

end Reduction

namespace Compilation

section

variable [Regex.Library]

theorem inBand_reduction {s : Settings} {lists : List FilterList} {o : Rule}
    (ho : o ∈ (run s lists).reduction.rules) : o.InBand := by
  obtain ⟨r, hr, ha, hp⟩ := Reduction.exists_action_priority ho
  exact (inBand_allRules (List.mem_filter.mp hr).1).congr ha hp

/-- Whatever is no exception ranks below all of them. -/
theorem priority_le_of_not_allow {s : Settings} {lists : List FilterList} {o : Rule}
    (ho : o ∈ (run s lists).reduction.rules) (ha : o.action ≠ .allow) : o.priority ≤ 1111 := by
  obtain ⟨r, hr, hra, hrp⟩ := Reduction.exists_action_priority ho
  rw [← hra] at ha
  rw [← hrp]
  rcases mem_allRules (List.mem_filter.mp hr).1 with ⟨d, n, rfl⟩ | hline
  · exact absurd rfl ha
  · cases hline with
    | network t q hact _ hp =>
      have hblock : r.action = .block := hact.resolve_right ha
      rw [hp, hblock]
      exact Priority.ofNetwork_block_le q
    | element t _ _ hp =>
      rw [hp]
      decide

theorem kept_ranked (s : Settings) (lists : List FilterList) : Reduction.Ranked (run s lists).kept :=
  List.Pairwise.sublist (kept_sublist s lists) (Reduction.rules_ranked _ _)

theorem records_ranked (s : Settings) (lists : List FilterList) :
    (run s lists).ruleset.records.Pairwise fun x y => y.priority ≤ x.priority := by
  have h : ((run s lists).ruleset.records.map Record.unnumbered).Pairwise fun x y => y.priority ≤ x.priority := by
    rw [map_unnumbered_records, List.pairwise_filterMap]
    refine (kept_ranked s lists).imp fun {r t} hle x hx y hy => ?_
    rw [Record.priority_of_ofRule? hx, Record.priority_of_ofRule? hy]
    exact hle
  exact List.pairwise_map.mp h

theorem le_priority_of_allow {s : Settings} {lists : List FilterList} {x : Record}
    (hx : x ∈ (run s lists).ruleset.records) (ha : x.action = .allow) : 10000 ≤ x.priority := by
  obtain ⟨r, hr, ho⟩ := exists_rule_of_mem_records hx
  have hact := Record.toRecord?_of_ofRule? ho
  rw [ha, Action.toRecord?_eq_allow] at hact
  rw [Record.priority_of_ofRule? ho]
  exact (inBand_reduction hr).1 hact

theorem priority_le_of_block {s : Settings} {lists : List FilterList} {x : Record}
    (hx : x ∈ (run s lists).ruleset.records) (ha : x.action = .block) : x.priority ≤ 1111 := by
  obtain ⟨r, hr, ho⟩ := exists_rule_of_mem_records hx
  have hact := Record.toRecord?_of_ofRule? ho
  rw [ha, Action.toRecord?_eq_block] at hact
  rw [Record.priority_of_ofRule? ho]
  exact (inBand_reduction hr).2 hact

/-- Ranks never rise along the records, exceptions and blocks keep to their bands, and so no exception stands behind
a block. -/
theorem exceptions_first (s : Settings) (lists : List FilterList) :
    ((run s lists).ruleset.records.Pairwise fun x y => y.priority ≤ x.priority) ∧
    (∀ x ∈ (run s lists).ruleset.records, x.action = .allow → 10000 ≤ x.priority) ∧
    (∀ x ∈ (run s lists).ruleset.records, x.action = .block → x.priority ≤ 1111) ∧
    (run s lists).ruleset.records.Pairwise fun x y => x.action = .block → y.action ≠ .allow := by
  have hranked := records_ranked s lists
  refine ⟨hranked, fun x hx => le_priority_of_allow hx, fun x hx => priority_le_of_block hx, ?_⟩
  refine hranked.imp_of_mem fun {x y} hx hy hle hblock hallow => ?_
  have hlow : x.priority ≤ 1111 := priority_le_of_block hx hblock
  have hhigh : 10000 ≤ y.priority := le_priority_of_allow hy hallow
  have : (10000 : UInt32) ≤ 1111 := UInt32.le_trans hhigh (UInt32.le_trans hle hlow)
  exact absurd this (by decide)

end

def newsSettings : Settings := { allowed := ["news.org".toList] }

def newsList : FilterList := ⟨[], "||ads.com^$important\n@@||cdn.net^".toList⟩

def adsBlock : Rule := ⟨.block, .network (.hostAnchor "ads.com".toList) { important := true }, 1001, [], 1⟩

def cdnException : Rule := ⟨.allow, .network (.hostAnchor "cdn.net".toList) {}, 10001, [], 2⟩

theorem exceptions_first_newsList :
    (run newsSettings [newsList]).ruleset.records.map (fun x => (x.action, x.priority)) =
      [(.allow, 10001), (.allow, 10000), (.block, 1001)] ∧
    (run newsSettings [newsList]).ruleset.records.Pairwise fun x y => x.action = .block → y.action ≠ .allow := by
  refine ⟨?_, (exceptions_first newsSettings [newsList]).2.2.2⟩
  let site := AllowList.exception newsSettings.allowedTypeSet "news.org".toList 1
  have hdistinct : Reduction.distinct (run newsSettings [newsList]).rules = [site, adsBlock, cdnException] := by decide
  have hranked : Reduction.ranked [site, adsBlock, cdnException] = [cdnException, site, adsBlock] := by
    simp [Reduction.ranked, List.mergeSort, List.MergeSort.Internal.splitInTwo, site, AllowList.exception,
      Priority.allowedSite, adsBlock, cdnException]
  have hkept : (run newsSettings [newsList]).kept =
      (Reduction.clear newsSettings.defaultTypeSet (Reduction.grouped (Reduction.ranked
        (Reduction.distinct (run newsSettings [newsList]).rules)))).kept := rfl
  rw [records_run, hkept, hdistinct, hranked]
  decide

end Compilation

end Blocklist
