import Blocklist.Proofs.Compilation.Ranks
import Blocklist.Proofs.Compilation.Views

/-! Exceptions and blocks do not disturb each other. The exceptions come first and are numbered first, so block lines
reach neither the records of exceptions nor their numbers, even under a limit; and the exceptions of the lists change
nothing in the records of blocks but the numbers. -/

namespace Blocklist

theorem filter_view_network (a : Action) (rules : List Rule) :
    (view .network rules).filter (fun r => r.action == a) = view (.withAction a) rules := by
  have hchoice : ((fun r : Rule => r.action == a) ∘ Rule.unplaced) = fun r => r.action == a := rfl
  rw [view, view, List.filter_map, hchoice, List.filter_filter]
  congr 2
  funext r
  exact Bool.and_comm _ _

/-- Where no element with a property stands behind one without it, those with it come first. -/
theorem eq_filter_append_filter {p : α → Bool} {l : List α} (h : l.Pairwise fun a b => p b = true → p a = true) :
    l = l.filter p ++ l.filter fun a => !p a := by
  induction l with
  | nil => rfl
  | cons a l ih =>
    obtain ⟨ha, hl⟩ := List.pairwise_cons.mp h
    cases hp : p a with
    | true =>
      rw [List.filter_cons_of_pos hp, List.filter_cons_of_neg (by simp [hp]), List.cons_append, ← ih hl]
    | false =>
      have hnone : l.filter p = [] := by
        rw [List.filter_eq_nil_iff]
        intro b hb hpb
        rw [ha b hb hpb] at hp
        cases hp
      have hrest := ih hl
      rw [hnone, List.nil_append] at hrest
      rw [List.filter_cons_of_neg (by simp [hp]), List.filter_cons_of_pos (by simp [hp]), hnone, ← hrest,
        List.nil_append]

theorem exists_capNetwork_append (n : Nat) (rules rules' : List Rule) :
    ∃ m, capNetwork n (rules ++ rules') = capNetwork n rules ++ capNetwork m rules' := by
  induction rules generalizing n with
  | nil => exact ⟨n, rfl⟩
  | cons r rules ih =>
    cases hr : r.isNetwork with
    | true =>
      cases n with
      | zero =>
        obtain ⟨m, hm⟩ := ih 0
        exact ⟨m, by rw [List.cons_append, capNetwork_zero_cons hr, capNetwork_zero_cons hr, hm]⟩
      | succ n =>
        obtain ⟨m, hm⟩ := ih n
        exact ⟨m, by rw [List.cons_append, capNetwork_succ_cons hr, capNetwork_succ_cons hr, hm, List.cons_append]⟩
    | false =>
      obtain ⟨m, hm⟩ := ih n
      exact ⟨m, by rw [List.cons_append, capNetwork_cons_element hr, capNetwork_cons_element hr, hm, List.cons_append]⟩

/-- A limit spares the rules in front, whatever stands behind them. -/
theorem Compilation.exists_limit_append (s : Settings) (rules rules' : List Rule) :
    ∃ rest, rest.Sublist rules' ∧ limit s (rules ++ rules') = limit s rules ++ rest := by
  unfold limit
  split
  · exact ⟨rules', .refl _, rfl⟩
  · rename_i n _
    obtain ⟨m, hm⟩ := exists_capNetwork_append n rules rules'
    exact ⟨capNetwork m rules', capNetwork_sublist m rules', hm⟩

namespace Batch

theorem exists_recordsFrom_append (defaults : TypeSet) (id : UInt32) (rules rules' : List Rule) :
    ∃ id', recordsFrom defaults id (rules ++ rules') =
      recordsFrom defaults id rules ++ recordsFrom defaults id' rules' := by
  induction rules generalizing id with
  | nil => exact ⟨id, rfl⟩
  | cons r rules ih =>
    rw [List.cons_append, recordsFrom, recordsFrom]
    cases Record.ofRule? defaults id r with
    | none => exact ih id
    | some x =>
      obtain ⟨id', h⟩ := ih (id + 1)
      exact ⟨id', congrArg (x :: ·) h⟩

theorem toRecord?_of_mem_recordsFrom {defaults : TypeSet} {id : UInt32} {rules : List Rule} {x : Record}
    (h : x ∈ recordsFrom defaults id rules) : ∃ r ∈ rules, r.action.toRecord? = some x.action := by
  obtain ⟨r, hr, ho⟩ := exists_rule_of_mem_recordsFrom h
  exact ⟨r, hr, Record.toRecord?_of_ofRule? ho⟩

end Batch

def Ruleset.recordsWith (r : Ruleset) (a : RecordAction) : List Record := r.records.filter fun x => x.action == a

theorem Rule.isIn_withAction {a : Action} {r : Rule} :
    r.isIn (.withAction a) = true ↔ r.isNetwork = true ∧ r.action = a := by
  simp [isIn, Choice.withAction]

/-- Of the records of some rules, those that block are the records of the block rules. -/
theorem Record.filter_block_ofRule? (defaults : TypeSet) (id : UInt32) (rules : List Rule) :
    (rules.filterMap (ofRule? defaults id)).filter (fun x => x.action == .block) =
      (view (.withAction .block) rules).filterMap (ofRule? defaults id) := by
  induction rules with
  | nil => rfl
  | cons r rules ih =>
    cases hr : r.isIn (.withAction .block) with
    | true =>
      rw [view_cons_of_isIn hr, List.filterMap_cons, List.filterMap_cons, ofRule?_unplaced]
      cases ho : ofRule? defaults id r with
      | none => exact ih
      | some x =>
        have hx := toRecord?_of_ofRule? ho
        rw [(Rule.isIn_withAction.mp hr).2] at hx
        rw [List.filter_cons_of_pos (by rw [← Option.some.inj hx]; rfl), ih]
    | false =>
      rw [view_cons_of_not_isIn hr, ← ih, List.filterMap_cons]
      cases ho : ofRule? defaults id r with
      | none => rfl
      | some x =>
        apply List.filter_cons_of_neg
        intro hx
        have hact : r.action = .block := by
          rw [← Action.toRecord?_eq_block, toRecord?_of_ofRule? ho, beq_iff_eq.mp hx]
        have hnet : r.isNetwork = true := by
          by_contra hnot
          rw [ofRule?_of_not_network (by simpa using hnot)] at ho
          cases ho
        rw [Rule.isIn_withAction.mpr ⟨hnet, hact⟩] at hr
        cases hr

namespace Compilation

section

variable [Regex.Library]

/-- The reduced network rules are the exceptions and, behind them, the others. -/
theorem view_network_reduction (s : Settings) (lists : List FilterList) :
    ∃ others, (∀ r ∈ others, r.action ≠ .allow) ∧
      view .network (run s lists).reduction.rules =
        view (.withAction .allow) (run s lists).reduction.rules ++ others := by
  have hfirst : (view .network (run s lists).reduction.rules).Pairwise
      fun a b => (b.action == .allow) = true → (a.action == .allow) = true := by
    rw [view, List.pairwise_map]
    refine List.Pairwise.filter _ ((Reduction.rules_ranked _ _).imp_of_mem ?_)
    intro a b ha hb hle hallow
    by_contra hne
    have hlow : a.priority ≤ 1111 := priority_le_of_not_allow ha (by simpa using hne)
    have hhigh : 10000 ≤ b.priority := (inBand_reduction hb).1 (by simpa using hallow)
    have : (10000 : UInt32) ≤ 1111 := UInt32.le_trans hhigh (UInt32.le_trans hle hlow)
    exact absurd this (by decide)
  refine ⟨_, ?_, (eq_filter_append_filter hfirst).trans (congrArg (· ++ _) (filter_view_network .allow _))⟩
  intro r hr
  simpa using (List.mem_filter.mp hr).2

/-- The records of the exceptions are numbered as if there were nothing else. -/
theorem recordsWith_allow (s : Settings) (lists : List FilterList) :
    (run s lists).ruleset.recordsWith .allow =
      Batch.recordsFrom s.defaultTypeSet 1 (limit s (view (.withAction .allow) (run s lists).reduction.rules)) := by
  obtain ⟨others, hothers, hnetwork⟩ := view_network_reduction s lists
  obtain ⟨rest, hrest, hlimit⟩ := exists_limit_append s (view (.withAction .allow) (run s lists).reduction.rules) others
  obtain ⟨id, hrec⟩ := Batch.exists_recordsFrom_append s.defaultTypeSet 1
    (limit s (view (.withAction .allow) (run s lists).reduction.rules)) rest
  rw [Ruleset.recordsWith, records_run, ← Batch.recordsFrom_view, view_network_kept, hnetwork, hlimit, hrec,
    List.filter_append]
  have hallow : ∀ x ∈ Batch.recordsFrom s.defaultTypeSet 1
      (limit s (view (.withAction .allow) (run s lists).reduction.rules)), (x.action == .allow) = true := by
    intro x hx
    obtain ⟨r, hr, ha⟩ := Batch.toRecord?_of_mem_recordsFrom hx
    obtain ⟨o, -, ho, rfl⟩ := mem_view.mp ((limit_sublist s _).subset hr)
    rw [Rule.unplaced_action, (Rule.isIn_withAction.mp ho).2] at ha
    rw [← Option.some.inj ha]
    rfl
  have hnone : ∀ x ∈ Batch.recordsFrom s.defaultTypeSet id rest, ¬ (x.action == .allow) = true := by
    intro x hx hxa
    obtain ⟨r, hr, ha⟩ := Batch.toRecord?_of_mem_recordsFrom hx
    rw [beq_iff_eq.mp hxa, Action.toRecord?_eq_allow] at ha
    exact hothers r (hrest.subset hr) ha
  rw [List.filter_eq_self.mpr hallow, List.filter_eq_nil_iff.mpr hnone, List.append_nil]

theorem map_unnumbered_recordsWith_block {s : Settings} (hmax : s.maxRules = none) (lists : List FilterList) :
    ((run s lists).ruleset.recordsWith .block).map Record.unnumbered =
      (view (.withAction .block) (run s lists).reduction.rules).filterMap (Record.ofRule? s.defaultTypeSet 0) := by
  have hnumber : ((fun x : Record => x.action == .block) ∘ Record.unnumbered) = fun x => x.action == .block := rfl
  rw [← Record.filter_block_ofRule?, ← kept_of_unlimited hmax, ← map_unnumbered_records, List.filter_map, hnumber]
  rfl

/-- Lists with the same exceptions give the same records of exceptions, numbers included. Lists with the same block
rules give the same records of blocks up to their numbers, if the rules are not limited. -/
theorem recordsWith_congr (s : Settings) (lists lists' : List FilterList) :
    (view (.withAction .allow) (listRules lists) = view (.withAction .allow) (listRules lists') →
      (run s lists).ruleset.recordsWith .allow = (run s lists').ruleset.recordsWith .allow) ∧
    (s.maxRules = none → view (.withAction .block) (listRules lists) = view (.withAction .block) (listRules lists') →
      ((run s lists).ruleset.recordsWith .block).map Record.unnumbered =
        ((run s lists').ruleset.recordsWith .block).map Record.unnumbered) := by
  constructor
  · intro h
    rw [recordsWith_allow, recordsWith_allow, view_reduction_congr h]
  · intro hmax h
    rw [map_unnumbered_recordsWith_block hmax, map_unnumbered_recordsWith_block hmax, view_reduction_congr h]

end

def mailSettings : Settings := { maxRules := some 2 }

def mailList : FilterList := ⟨"a".toList, "||ads.com^\n@@||mail.net^$script\n*track*".toList⟩

def mailExceptions : FilterList := ⟨"b".toList, "! Title\n\n@@||mail.net^$script\nmail.net##.ad".toList⟩

def mailBlocks : FilterList := ⟨"c".toList, "@@*track*\n||ads.com^\n*track*".toList⟩

theorem recordsWith_mailList :
    (run mailSettings [mailList]).ruleset.recordsWith .allow =
      [⟨1, 10011, .allow, { requestDomains := some ["mail.net".toList], resourceTypes := some [.script] }⟩] ∧
    ((run {} [mailList]).ruleset.recordsWith .block).map Record.unnumbered =
      ((run {} [mailBlocks]).ruleset.recordsWith .block).map Record.unnumbered := by
  have hallow : view (.withAction .allow) (listRules [mailList]) =
      view (.withAction .allow) (listRules [mailExceptions]) := by decide
  have hblock : view (.withAction .block) (listRules [mailList]) =
      view (.withAction .block) (listRules [mailBlocks]) := by decide
  refine ⟨?_, (recordsWith_congr {} [mailList] [mailBlocks]).2 rfl hblock⟩
  have hreduced : (run mailSettings [mailExceptions]).reduction.rules = listRules [mailExceptions] := by
    refine (Reduction.ofRules_of_ranked _ ?_).1.trans ?_ <;> decide
  have hkept : (run mailSettings [mailExceptions]).kept = listRules [mailExceptions] :=
    (congrArg (limit mailSettings) hreduced).trans (by decide)
  rw [(recordsWith_congr mailSettings [mailList] [mailExceptions]).1 hallow, Ruleset.recordsWith, records_run,
    hkept]
  decide

end Compilation

end Blocklist
