import Blocklist.Proofs.Command.Compile
import Blocklist.Proofs.Compilation.Balance
import Blocklist.Proofs.Sets

/-! The two commands that count agree. The stats command reads the lists and reduces their rules with the built-in
types; the compile command also puts in exceptions, drops rules against allowed sites, takes its types from settings,
limits and emits. Without settings and allowed sites each of these further steps changes nothing. -/

namespace Blocklist

theorem AllowList.strip_nil (rules : List Rule) : strip [] rules = rules := by
  have hnone (r : Rule) : contradicts (domains []) r = false := by
    cases hr : r.host? <;> simp [contradicts, hr, coversHost, domains]
  simp [strip, hnone]

namespace Compilation

section

variable [Regex.Library] {s : Settings} (hallowed : s.allowed = []) (lists : List FilterList)

include hallowed

theorem rules_of_no_allowed : (run s lists).rules = listRules lists := by
  have hrules : (run s lists).rules = AllowList.strip s.allowed (allRules s (lists.map FilterList.read)) := rfl
  rw [hrules, hallowed, AllowList.strip_nil, allRules, hallowed]
  rfl

/-- Nothing but the default types has a part in the reduction then. -/
theorem reduction_of_no_allowed :
    (run s lists).reduction = Reduction.ofRules s.defaultTypeSet (listRules lists) := by
  have hreduction : (run s lists).reduction = Reduction.ofRules s.defaultTypeSet (run s lists).rules := rfl
  rw [hreduction, rules_of_no_allowed hallowed]

end

/-- Without a limit, what is left after the reduction is emitted or has no type. -/
theorem finalCount_add_of_unlimited [Regex.Library] {s : Settings} (h : s.maxRules = none) (lists : List FilterList) :
    (run s lists).ruleset.stats.finalCount +
        (run s lists).reduction.rules.countP (Rule.isTypeless s.defaultTypeSet) = (run s lists).reduction.after := by
  have hfinal := finalCount_add s lists
  rwa [kept_of_unlimited h] at hfinal

end Compilation

namespace Command

/-- The default settings list the types that the stats command takes as they are. -/
theorem defaultTypeSet_adapt (a : CompileArguments) : (a.adapt {}).defaultTypeSet = Batch.defaultTypes :=
  TypeSet.foldl_insert_toList Batch.defaultTypes

section

variable [Regex.Library] {σ : Type} [FileState σ] {d : σ}

/-- The stats command reads the lists one by one and reduces all their rules in the end. -/
theorem runStatsFrom_apply {paths : List Text} {lists : List FilterList}
    (h : List.Forall₂ (IsListAt d) paths lists) (rules : List Rule) :
    (runStatsFrom rules paths : StateM σ Outcome) d =
      let r := Reduction.ofRules Batch.defaultTypes (rules ++ Compilation.listRules lists)
      (⟨0, lists.flatMap (fun l => readingLines l.text l.read) ++ reductionLines r,
        lists.flatMap (fun l => logLines false l.read.log) ++ logLines false r.log⟩, d) := by
  induction h generalizing rules with
  | nil =>
    rw [Compilation.listRules, List.map_nil, List.flatMap_nil, List.append_nil]
    rfl
  | @cons path l paths lists hl _ ih =>
    obtain ⟨hname, htext⟩ := hl
    have hrules : Compilation.listRules (l :: lists) = l.read.rules ++ Compilation.listRules lists := List.flatMap_cons
    have hread : FilterList.read ⟨listName path, l.text⟩ = l.read := by rw [← hname]
    have hrest := ih (rules ++ l.read.rules)
    rw [List.append_assoc] at hrest
    rw [runStatsFrom, read_bind, htext, hrules]
    simp only [hread, List.flatMap_cons, List.append_assoc]
    exact bind_apply _ _ hrest

variable [Json.Wording]

/-- Without a file of settings only the batch size can be wrong. -/
theorem runCompile_of_no_settings {a : CompileArguments} {lists : List FilterList}
    (hs : a.settings = none) (hlists : List.Forall₂ (IsListAt d) a.inputs lists) :
    (runCompile a : StateM σ Outcome) d =
      if a.batchSize = some 0 then (.failed Settings.Error.emptyBatches.message, d)
      else conclude d a lists (Compilation.run (a.adapt {}) lists) := by
  have hsettings := compileSettings_of_none d hs
  split_ifs with hsize
  · have hinvalid : (a.adapt {}).validate = .error .emptyBatches := by
      rw [Settings.validate, CompileArguments.adapt, hsize]
      rfl
    rw [hinvalid] at hsettings
    exact bind_apply _ _ hsettings
  · have hvalid : (a.adapt {}).validate = .ok () := by
      rw [Settings.validate, if_neg]
      show a.batchSize.getD Batch.defaultSize ≠ 0
      cases hb : a.batchSize with
      | none => decide
      | some n => simpa [hb] using hsize
    rw [hvalid] at hsettings
    exact runCompile_of_read d a hsettings hlists

/-- The stats command prints the counts of the compile command: the rules that were parsed, those that a step took away,
and those that are emitted or left without a type. -/
theorem stats_agree_with_compile {statsLine compileLine : List Text} {a : CompileArguments}
    {lists : List FilterList} (hstats : ofArguments statsLine = .ok (.stats a.inputs))
    (hcompile : ofArguments compileLine = .ok (.compile a)) (hsettings : a.settings = none) (hallowed : a.allowed = [])
    (hlists : List.Forall₂ (IsListAt d) a.inputs lists) :
    let c := Compilation.run (a.adapt {}) lists
    let s := c.ruleset.stats
    let typeless := c.reduction.rules.countP (Rule.isTypeless Batch.defaultTypes)
    execute compileLine d =
      .ok (if a.batchSize = some 0 then (.failed Settings.Error.emptyBatches.message, d) else conclude d a lists c) ∧
    ∃ log, execute statsLine d =
      .ok (⟨0, lists.flatMap (fun l => readingLines l.text l.read) ++ [
        .text "",
        .text "Optimization:",
        .text s!"  Rules:       {s.parsed} -> {s.finalCount + typeless}",
        .text s!"  Duplicates:  {s.deduplicated}",
        .text s!"  Merged:      {s.merged}",
        .text s!"  Redundant:   {s.redundant}"], log⟩, d) := by
  intro c s typeless
  have htypes := defaultTypeSet_adapt a
  have hreduction : c.reduction = Reduction.ofRules Batch.defaultTypes (Compilation.listRules lists) := by
    rw [← htypes]
    exact Compilation.reduction_of_no_allowed (by simp [CompileArguments.adapt, hallowed]) lists
  have hafter : c.reduction.after = s.finalCount + typeless := by
    rw [← Compilation.finalCount_add_of_unlimited rfl, htypes]
  have hbefore : c.reduction.before = s.parsed := by
    rw [hreduction]
    rfl
  constructor
  · rw [execute, hcompile]
    exact congrArg Except.ok (runCompile_of_no_settings hsettings hlists)
  · have hrun := runStatsFrom_apply hlists []
    rw [List.nil_append, ← hreduction] at hrun
    rw [execute, hstats, ← hafter, ← hbefore]
    exact ⟨_, congrArg Except.ok hrun⟩

end

def twoFiles : FileTree :=
  ⟨[(["ads.txt".toList], .text "*ads*\n||a.com^\n||b.com^\n/ads/x".toList),
    (["more.txt".toList], .text "||a.com^".toList)], []⟩

def twoLists : List FilterList :=
  [⟨"ads.txt".toList, "*ads*\n||a.com^\n||b.com^\n/ads/x".toList⟩, ⟨"more.txt".toList, "||a.com^".toList⟩]

def compileTwo : CompileArguments :=
  ⟨["ads.txt".toList, "more.txt".toList], [], none, none, defaultOutput, false⟩

theorem reduction_twoLists :
    let r := (Compilation.run (compileTwo.adapt {}) twoLists).reduction
    (r.before, r.after, r.deduplicated, r.merged, r.redundant) = (5, 2, 1, 1, 1) := by
  have hranked : Reduction.Ranked (Reduction.distinct (Compilation.listRules twoLists)) := by decide +kernel
  rw [Compilation.reduction_of_no_allowed rfl]
  simp only [Reduction.ofRules, Reduction.after, Reduction.redundant, Reduction.ranked_eq_self hranked]
  decide +kernel

def statsTwoLine : List Text := ["stats", "-i", "ads.txt", "-i", "more.txt"].map String.toList

def compileTwoLine : List Text := ["compile", "-i", "ads.txt", "--input=more.txt"].map String.toList

theorem stats_agree_with_compile_twoFiles :
    let c := Compilation.run (compileTwo.adapt {}) twoLists
    execute compileTwoLine twoFiles = .ok (conclude twoFiles compileTwo twoLists c) ∧
    (c.ruleset.stats.deduplicated, c.ruleset.stats.merged, c.ruleset.stats.redundant) = (1, 1, 1) ∧
    ∃ heading log, execute statsTwoLine twoFiles =
      .ok (⟨0, heading ++ [
        .text "",
        .text "Optimization:",
        .text "  Rules:       5 -> 2",
        .text "  Duplicates:  1",
        .text "  Merged:      1",
        .text "  Redundant:   1"], log⟩, twoFiles) := by
  intro c
  have hread : List.Forall₂ (IsListAt twoFiles) compileTwo.inputs twoLists :=
    .cons ⟨by decide, by decide⟩ (.cons ⟨by decide, by decide⟩ .nil)
  have hstats : ofArguments statsTwoLine = .ok (.stats compileTwo.inputs) := by decide
  have hcompile : ofArguments compileTwoLine = .ok (.compile compileTwo) := by decide
  obtain ⟨hrun, log, hprint⟩ := stats_agree_with_compile hstats hcompile rfl rfl hread
  have hcounts := reduction_twoLists
  have hafter := Compilation.finalCount_add_of_unlimited (s := compileTwo.adapt {}) rfl twoLists
  rw [defaultTypeSet_adapt] at hafter
  simp only [Prod.mk.injEq] at hcounts
  obtain ⟨hb, ha, hd, hm, hr⟩ := hcounts
  have hparsed : c.ruleset.stats.parsed = 5 := by decide
  have hd' : c.ruleset.stats.deduplicated = 1 := hd
  have hm' : c.ruleset.stats.merged = 1 := hm
  have hr' : c.ruleset.stats.redundant = 1 := hr
  rw [hafter, ha, hparsed, hd', hm', hr'] at hprint
  exact ⟨hrun, by rw [hd', hm', hr'], _, log, hprint⟩

end Command

end Blocklist
