import Blocklist.Proofs.Compilation.Balance
import Blocklist.Proofs.Compilation.Separation

/-! The limit on network rules. It spares the element rules and cuts off the end of the network rules, which are in the
order of their ranks; so the records under a limit are the first of those without it. It counts rules and not records:
a rule without a resource type takes a place and gives no record. -/

namespace Blocklist

theorem filter_isNetwork_capNetwork (n : Nat) (rules : List Rule) :
    (capNetwork n rules).filter Rule.isNetwork = (rules.filter Rule.isNetwork).take n := by
  induction rules generalizing n with
  | nil => simp [capNetwork]
  | cons r rules ih =>
    cases hr : r.isNetwork with
    | true =>
      rw [List.filter_cons_of_pos hr]
      cases n with
      | zero => rw [capNetwork_zero_cons hr, ih, List.take_zero, List.take_zero]
      | succ n => rw [capNetwork_succ_cons hr, List.filter_cons_of_pos hr, ih, List.take_succ_cons]
    | false =>
      have hnot : ¬ r.isNetwork = true := by simp [hr]
      rw [capNetwork_cons_element hr, List.filter_cons_of_neg hnot, List.filter_cons_of_neg hnot, ih]

/-- The records of the first rules are the first records. -/
theorem Batch.recordsFrom_take_prefix (defaults : TypeSet) (id : UInt32) (n : Nat) (rules : List Rule) :
    recordsFrom defaults id (rules.take n) <+: recordsFrom defaults id rules := by
  obtain ⟨id', h⟩ := exists_recordsFrom_append defaults id (rules.take n) (rules.drop n)
  rw [List.take_append_drop] at h
  exact ⟨_, h.symm⟩

namespace Compilation

section

variable [Regex.Library] {s : Settings} {m : Nat} (h : s.maxRules = some m) (lists : List FilterList)

include h

theorem kept_of_limited : (run s lists).kept = capNetwork m (run s lists).reduction.rules := by
  have hlimit : limit s (run s lists).reduction.rules = capNetwork m (run s lists).reduction.rules := by rw [limit, h]
  exact hlimit

theorem filter_isNetwork_kept :
    (run s lists).kept.filter Rule.isNetwork = ((run s lists).reduction.rules.filter Rule.isNetwork).take m := by
  rw [kept_of_limited h, filter_isNetwork_capNetwork]

theorem countP_isNetwork_kept :
    (run s lists).kept.countP Rule.isNetwork = min m ((run s lists).reduction.rules.countP Rule.isNetwork) := by
  rw [List.countP_eq_length_filter, filter_isNetwork_kept h, List.length_take, List.countP_eq_length_filter]

/-- The network rules over the limit are cut off. -/
theorem truncated_eq :
    (run s lists).ruleset.stats.truncated =
      (run s lists).reduction.rules.countP Rule.isNetwork -
        min ((run s lists).reduction.rules.countP Rule.isNetwork) m := by
  have hseen (rules : List Rule) : (view .network rules).length = rules.countP Rule.isNetwork := by
    rw [view, List.length_map, List.countP_eq_length_filter]
    rfl
  rw [truncated_run, hseen, hseen, countP_isNetwork_kept h, Nat.min_comm]

/-- What is cut off ranks no higher than any network rule that is kept. -/
theorem priority_le_of_mem_drop {d k : Rule}
    (hd : d ∈ ((run s lists).reduction.rules.filter Rule.isNetwork).drop m) (hk : k ∈ (run s lists).kept)
    (hn : k.isNetwork = true) : d.priority ≤ k.priority := by
  have hranked : Reduction.Ranked ((run s lists).reduction.rules.filter Rule.isNetwork) :=
    List.Pairwise.filter _ (Reduction.rules_ranked _ _)
  have hfirst : k ∈ ((run s lists).reduction.rules.filter Rule.isNetwork).take m := by
    rw [← filter_isNetwork_kept h]
    exact List.mem_filter.mpr ⟨hk, hn⟩
  exact hranked.rel_of_mem_take_of_mem_drop hfirst hd

theorem records_eq_take :
    (run s lists).ruleset.records =
      Batch.recordsFrom s.defaultTypeSet 1 ((view .network (run s lists).reduction.rules).take m) := by
  have hkept : view .network (run s lists).kept = (view .network (run s lists).reduction.rules).take m := by
    rw [view, view, ← List.map_take]
    exact congrArg _ (filter_isNetwork_kept h lists)
  rw [records_run, ← Batch.recordsFrom_view, hkept]

end

theorem length_records_le [Regex.Library] {s : Settings} {m : Nat} (h : s.maxRules = some m) (lists : List FilterList) :
    (run s lists).ruleset.records.length ≤ m := by
  have hrecords := length_records_add s lists
  have hkept := countP_isNetwork_kept h lists
  omega

/-- A limit cuts off the end and nothing else: the records under it are the first ones without it, the element rules are
the same, and what is cut off, as many network rules as there are over the limit, ranks no higher than what is kept. -/
theorem limit_cuts_tail [Regex.Library] (s : Settings) (lists : List FilterList) (m : Nat) :
    let limited := run { s with maxRules := some m } lists
    let full := run { s with maxRules := none } lists
    let network := full.reduction.rules.filter Rule.isNetwork
    limited.ruleset.records.length ≤ m ∧ limited.ruleset.records <+: full.ruleset.records ∧
      limited.ruleset.cosmetic = full.ruleset.cosmetic ∧
      limited.ruleset.stats.truncated = network.length - min network.length m ∧
      ∃ dropped, network = limited.kept.filter Rule.isNetwork ++ dropped ∧
        dropped.length = limited.ruleset.stats.truncated ∧
        ∀ d ∈ dropped, ∀ k ∈ limited.kept, k.isNetwork = true → d.priority ≤ k.priority := by
  intro limited full network
  have hmax : ({ s with maxRules := some m } : Settings).maxRules = some m := rfl
  have htruncated : limited.ruleset.stats.truncated = network.length - min network.length m := by
    rw [← List.countP_eq_length_filter]
    exact truncated_eq hmax lists
  refine ⟨length_records_le hmax lists, ?_, ?_, htruncated, network.drop m, ?_, ?_, ?_⟩
  · have hfull : full.ruleset.records =
        Batch.recordsFrom s.defaultTypeSet 1 (view .network full.reduction.rules) := by
      rw [Batch.recordsFrom_view, records_run, kept_of_unlimited rfl]
      rfl
    rw [hfull, records_eq_take hmax lists]
    exact Batch.recordsFrom_take_prefix _ _ _ _
  · rw [cosmetic_run, cosmetic_run]
    rfl
  · rw [filter_isNetwork_kept hmax lists]
    exact (List.take_append_drop m network).symm
  · rw [htruncated, List.length_drop]
    omega
  · exact fun d hd k hk hn => priority_le_of_mem_drop hmax lists hd hk hn

def popupList : FilterList := ⟨[], "@@||mail.net^\n##.ad\n/popup".toList⟩

def popupSettings : Settings := { maxRules := some 1 }

theorem reduction_popupList : (run popupSettings [popupList]).reduction.rules = listRules [popupList] := by
  refine (Reduction.ofRules_of_ranked _ ?_).1.trans ?_ <;> decide

/-- The block is over the limit. -/
theorem kept_popupList : (run popupSettings [popupList]).kept = (listRules [popupList]).take 2 :=
  (congrArg (limit popupSettings) reduction_popupList).trans (by decide)

theorem limit_cuts_tail_popupList :
    (run popupSettings [popupList]).ruleset.stats.truncated = 1 ∧
    (run popupSettings [popupList]).ruleset.records <+: (run {} [popupList]).ruleset.records ∧
    ∀ d ∈ (listRules [popupList]).drop 2, ∀ k ∈ (run popupSettings [popupList]).kept, k.isNetwork = true →
      d.priority ≤ k.priority := by
  obtain ⟨-, hprefix, -, htruncated, dropped, hsplit, -, hranks⟩ := limit_cuts_tail {} [popupList] 1
  have hreduced : (run {} [popupList]).reduction.rules = listRules [popupList] := reduction_popupList
  have hkept : (run { maxRules := some 1 } [popupList]).kept = (listRules [popupList]).take 2 := kept_popupList
  have hdropped : dropped = (listRules [popupList]).drop 2 := by
    rw [hkept, hreduced] at hsplit
    exact List.append_cancel_left (hsplit.symm.trans (by decide))
  rw [hreduced] at htruncated
  refine ⟨htruncated.trans (by decide), hprefix, ?_⟩
  rw [← hdropped]
  exact hranks

/-- Once the limit is reached it is used up, by rules. A record comes from each of them that has a resource type, so
there are as many records as the limit says just when all of them have one. -/
theorem records_of_truncated [Regex.Library] {s : Settings} {m : Nat} (lists : List FilterList) (hmax : s.maxRules = some m)
    (hcut : 0 < (run s lists).ruleset.stats.truncated) :
    (run s lists).kept.countP Rule.isNetwork = m ∧
    (run s lists).ruleset.records.length + (run s lists).kept.countP (Rule.isTypeless s.defaultTypeSet) = m ∧
    ((run s lists).ruleset.records.length = m ↔
      ∀ r ∈ (run s lists).kept, r.isTypeless s.defaultTypeSet = false) := by
  have hkept : (run s lists).kept.countP Rule.isNetwork = m := by
    have htruncated := truncated_eq hmax lists
    have hcount := countP_isNetwork_kept hmax lists
    omega
  have hrecords := (length_records_add s lists).trans hkept
  refine ⟨hkept, hrecords, ?_⟩
  have hnone : (run s lists).kept.countP (Rule.isTypeless s.defaultTypeSet) = 0 ↔
      ∀ r ∈ (run s lists).kept, r.isTypeless s.defaultTypeSet = false := by
    simp only [List.countP_eq_zero, Bool.not_eq_true]
  rw [← hnone]
  omega

theorem records_of_truncated_popupList :
    0 < (run popupSettings [popupList]).ruleset.stats.truncated ∧
    (run popupSettings [popupList]).ruleset.records.length = 1 := by
  have hcut : 0 < (run popupSettings [popupList]).ruleset.stats.truncated := by
    rw [truncated_eq rfl, reduction_popupList]
    decide
  refine ⟨hcut, (records_of_truncated [popupList] rfl hcut).2.2.mpr ?_⟩
  rw [kept_popupList]
  decide

def excludedSettings : Settings := { maxRules := some 1 }

def excludedList : FilterList :=
  ⟨[], ("/pay$~document,~subdocument,~stylesheet,~script,~image,~font,~object,~xmlhttprequest,~ping,~media," ++
    "~websocket,~other\n||ads.com^\n/popup").toList⟩

def payBlock : Rule := ⟨.block, .network (.substring "/pay".toList) { excludedTypes := .full }, 1, [], 1⟩

def hostBlock : Rule := ⟨.block, .network (.hostAnchor "ads.com".toList) {}, 1, [], 2⟩

def popupBlock : Rule := ⟨.block, .network (.substring "/popup".toList) {}, 1, [], 3⟩

/-- The first rule takes the only place and has no record, so two rules are cut off and nothing is emitted. -/
theorem records_excludedList :
    excludedSettings.maxRules = some 1 ∧ (run excludedSettings [excludedList]).ruleset.stats.truncated = 2 ∧
    (run excludedSettings [excludedList]).kept = [payBlock] ∧
    (run excludedSettings [excludedList]).ruleset.records.length = 0 := by
  have hrules : (run excludedSettings [excludedList]).rules = [payBlock, hostBlock, popupBlock] := by decide +kernel
  have hreduced : (run excludedSettings [excludedList]).reduction.rules = [payBlock, hostBlock, popupBlock] := by
    have hof (s : Settings) (lists : List FilterList) :
        (run s lists).reduction = Reduction.ofRules s.defaultTypeSet (run s lists).rules := rfl
    rw [hof, hrules, (Reduction.ofRules_of_ranked _ (by decide)).1]
    decide
  have hkept : (run excludedSettings [excludedList]).kept = [payBlock] :=
    (congrArg (limit excludedSettings) hreduced).trans (by decide)
  refine ⟨rfl, ?_, hkept, ?_⟩
  · rw [truncated_eq rfl, hreduced]
    decide
  · rw [records_run, hkept]
    decide

end Compilation

end Blocklist
