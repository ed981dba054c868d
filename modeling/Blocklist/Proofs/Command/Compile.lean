import Blocklist.Command.Run
import Blocklist.Proofs.Command.FileTree
import Blocklist.Regex.Admissible
import Mathlib.Data.List.Forall2

/-! The compile command on any file system. Its steps may fail one after the other: the first that does is reported, and
the files stay as they are; only if none does, the document is written, from what the files held before. -/

namespace Blocklist.Command

theorem bind_apply {σ α β : Type} (x : StateM σ α) (f : α → StateM σ β) {d d' : σ} {a : α} (h : x d = (a, d')) :
    (x >>= f) d = f a d' := by
  show f (x d).1 (x d).2 = f a d'
  rw [h]

def failure? : Except ε α → Option ε
  | .error e => some e
  | .ok _ => none

variable {σ : Type} [FileState σ]

/-- Runs a command line on files: what comes of it, and the files after it. -/
def execute [Regex.Library] [Json.Wording] (arguments : List Text) (d : σ) : Except UsageError (Outcome × σ) :=
  (ofArguments arguments).map fun c => (c.run : StateM σ Outcome) d

def IsListAt (d : σ) (path : Text) (l : FilterList) : Prop :=
  l.name = listName path ∧ FileState.read d path = .ok l.text

theorem IsListAt.unique {d : σ} {path : Text} {l m : FilterList} (hl : IsListAt d path l) (hm : IsListAt d path m) :
    l = m := by
  obtain ⟨name, text⟩ := l
  obtain ⟨name', text'⟩ := m
  obtain ⟨rfl, ht⟩ : name = listName path ∧ FileState.read d path = .ok text := hl
  obtain ⟨rfl, ht'⟩ : name' = listName path ∧ FileState.read d path = .ok text' := hm
  rw [Except.ok.inj (ht.symm.trans ht')]

theorem read_bind {α : Type} (path : Text) (f : Except FileError Text → StateM σ α) (d : σ) :
    (Files.read path >>= f) d = f (FileState.read d path) d := rfl

theorem write_bind {α : Type} {path text : Text} {d d' : σ} {r : Except FileError Unit}
    (h : FileState.write d path text = (r, d')) (f : Except FileError Unit → StateM σ α) :
    (Files.write path text >>= f) d = f r d' :=
  bind_apply (Files.write path text) f h

def readFault? (d : σ) (path : Text) : Option String := (failure? (FileState.read d path)).map (readFailure path)

theorem readFault?_of_error {d : σ} {path : Text} {e : FileError} (h : FileState.read d path = .error e) :
    readFault? d path = some (readFailure path e) := by
  rw [readFault?, h]
  rfl

theorem readFault?_of_ok {d : σ} {path text : Text} (h : FileState.read d path = .ok text) :
    readFault? d path = none := by
  rw [readFault?, h]
  rfl

theorem readLists_of_isListAt {d : σ} {paths : List Text} {lists : List FilterList}
    (h : List.Forall₂ (IsListAt d) paths lists) :
    (readLists paths : StateM σ (Except String (List FilterList))) d = (.ok lists, d) := by
  induction h with
  | nil => rfl
  | @cons path l paths lists hl _ ih =>
    obtain ⟨hname, htext⟩ := hl
    rw [readLists, read_bind, htext]
    refine (bind_apply _ _ ih).trans ?_
    rw [← hname]
    rfl

theorem readLists_cases (d : σ) (paths : List Text) :
    (∃ e, paths.findSome? (readFault? d) = some e ∧
      (readLists paths : StateM σ (Except String (List FilterList))) d = (.error e, d)) ∨
    (paths.findSome? (readFault? d) = none ∧ ∃ lists, List.Forall₂ (IsListAt d) paths lists) := by
  induction paths with
  | nil => exact Or.inr ⟨rfl, [], .nil⟩
  | cons path paths ih =>
    rw [readLists, read_bind]
    cases ht : FileState.read d path with
    | error e => exact Or.inl ⟨readFailure path e, by simp [readFault?_of_error ht], rfl⟩
    | ok text =>
      simp only [List.findSome?_cons, readFault?_of_ok ht]
      rcases ih with ⟨e, he, hrun⟩ | ⟨he, lists, hlists⟩
      · exact Or.inl ⟨e, he, bind_apply _ _ hrun⟩
      · exact Or.inr ⟨he, ⟨listName path, text⟩ :: lists, .cons ⟨rfl, ht⟩ hlists⟩

def CompileArguments.adapt (a : CompileArguments) (s : Settings) : Settings :=
  { s with batchSize := a.batchSize.getD s.batchSize, allowed := s.allowed ++ a.allowed }

/-- The settings that a compile command starts from, before any check. -/
def given? (d : σ) (a : CompileArguments) : Option Settings :=
  match a.settings with
  | none => some {}
  | some path =>
    (FileState.read d path).toOption.bind fun text => (Settings.readGiven text).toOption.map Settings.Given.settings

def list? (d : σ) (path : Text) : Option FilterList := (FileState.read d path).toOption.map (⟨listName path, ·⟩)

theorem mapM_list? {d : σ} {paths : List Text} {lists : List FilterList} (h : List.Forall₂ (IsListAt d) paths lists) :
    paths.mapM (list? d) = some lists := by
  induction h with
  | nil => rfl
  | @cons path l paths lists hl _ ih =>
    obtain ⟨hname, htext⟩ := hl
    have hlist : list? d path = some l := by
      rw [list?, htext, ← hname]
      rfl
    simp [hlist, ih]

def document? [Regex.Library] (d : σ) (a : CompileArguments) : Option Text :=
  (given? d a).bind fun s =>
    (a.inputs.mapM (list? d)).map fun lists => (Compilation.run (a.adapt s) lists).ruleset.json.pretty

inductive Step where
  | readSettings (path : Text)
  | parseSettings (path : Text)
  /-- The settings of the file by themselves. -/
  | checkSettings
  /-- The settings with what the command line says in place. -/
  | checkAdapted
  | readInput (path : Text)
  | writeOutput (path : Text)

def settingsFault? (s : Settings) : Option String := (failure? s.validate).map Settings.Error.message

/-- Why a step fails, if it does. Where there is nothing to look at, an earlier step has failed. -/
def fault? [Regex.Library] [Json.Wording] (d : σ) (a : CompileArguments) : Step → Option String
  | .readSettings path => readFault? d path
  | .parseSettings path =>
    (FileState.read d path).toOption.bind fun text =>
      (failure? (Settings.readGiven text)).map fun f => (Settings.Error.json f (Json.Wording.reason text f)).message
  | .checkSettings => (given? d a).bind settingsFault?
  | .checkAdapted => (given? d a).bind fun s => settingsFault? (a.adapt s)
  | .readInput path => readFault? d path
  | .writeOutput path =>
    (document? d a).bind fun text => (failure? (FileState.write d path text).1).map (writeFailure path)

def CompileArguments.loadSteps (a : CompileArguments) : List Step :=
  a.settings.toList.flatMap fun path => [.readSettings path, .parseSettings path, .checkSettings]

def CompileArguments.settingsSteps (a : CompileArguments) : List Step := a.loadSteps ++ [.checkAdapted]

def CompileArguments.steps (a : CompileArguments) : List Step :=
  a.settingsSteps ++ a.inputs.map .readInput ++ [.writeOutput a.output]

def AreLoaded [Json.Wording] (d : σ) (a : CompileArguments) (s : Settings) : Prop :=
  match a.settings with
  | none => s = {}
  | some path => ∃ text, FileState.read d path = .ok text ∧ Settings.ofJson text = .ok s

theorem message_unreadable (path : Text) (e : FileError) :
    (Settings.Error.unreadable path e.message.toList).message = readFailure path e := by
  have hreason : Text.str e.message.toList = e.message := String.ofList_toList
  show s!"Failed to read '{path.str}': {Text.str e.message.toList}" = _
  rw [hreason]
  rfl

theorem validate_cases (s : Settings) :
    (∃ e : Settings.Error, settingsFault? s = some e.message ∧ (s.validate.map fun _ => s) = .error e) ∨
    (settingsFault? s = none ∧ (s.validate.map fun _ => s) = .ok s) := by
  unfold settingsFault?
  cases s.validate with
  | error e => exact Or.inl ⟨e, rfl, rfl⟩
  | ok _ => exact Or.inr ⟨rfl, rfl⟩

theorem compileSettings_of_none [Json.Wording] (d : σ) {a : CompileArguments} (hs : a.settings = none) :
    (compileSettings a : StateM σ (Except Settings.Error Settings)) d =
      ((a.adapt {}).validate.map fun _ => a.adapt {}, d) := by
  rw [compileSettings, hs]
  rfl

def conclude (d : σ) (a : CompileArguments) (lists : List FilterList) (c : Compilation) : Outcome × σ :=
  let heading := if a.verbose then listLines lists else []
  let log := logLines a.verbose c.log
  match FileState.write d a.output c.ruleset.json.pretty with
  | (.ok _, d') => (⟨0, heading ++ report a c.ruleset, log⟩, d')
  | (.error e, d') => (⟨1, heading, log ++ [errorLine (writeFailure a.output e)]⟩, d')

/-- The files after are those before with a text under a path, and nothing else is changed. -/
structure OnlyWrites (d : σ) (path text : Text) (d' : σ) : Prop where
  found : FileState.read d' path = .ok text
  others : ∃ p, FileState.place? d' path = some p ∧ FileState.entry? d' p = some (.text text) ∧
    ∀ q, q ≠ p → FileState.entry? d' q = FileState.entry? d q

theorem OnlyWrites.of_write [LawfulFileState σ] {d d' : σ} {path text : Text}
    (h : FileState.write d path text = (.ok (), d')) : OnlyWrites d path text d' := by
  have hread := LawfulFileState.read_write h
  obtain ⟨p, hp, he⟩ := LawfulFileState.read_place hread
  exact ⟨hread, p, hp, he, fun q hq => LawfulFileState.entry?_write h hp hq⟩

section

variable [Regex.Library] [Json.Wording] (d : σ) (a : CompileArguments)

theorem loadSettings_cases {path : Text} (hs : a.settings = some path) :
    (∃ e : Settings.Error, a.loadSteps.findSome? (fault? d a) = some e.message ∧
      (loadSettings path : StateM σ (Except Settings.Error Settings)) d = (.error e, d)) ∨
    (a.loadSteps.findSome? (fault? d a) = none ∧ ∃ s, AreLoaded d a s ∧ given? d a = some s ∧
      (loadSettings path : StateM σ (Except Settings.Error Settings)) d = (.ok s, d)) := by
  have hsteps : a.loadSteps = [.readSettings path, .parseSettings path, .checkSettings] := by
    rw [CompileArguments.loadSteps, hs]
    rfl
  rw [loadSettings, read_bind, hsteps]
  cases ht : FileState.read d path with
  | error e =>
    refine Or.inl ⟨.unreadable path e.message.toList, ?_, rfl⟩
    have hread : fault? d a (.readSettings path) = some (readFailure path e) := readFault?_of_error ht
    simp [hread, message_unreadable]
  | ok text =>
    have hread : fault? d a (.readSettings path) = none := readFault?_of_ok ht
    cases hg : Settings.readGiven text with
    | error f =>
      have hjson : Settings.ofJson text = .error (.json f (Json.Wording.reason text f)) := by rw [Settings.ofJson, hg]
      have hparse : fault? d a (.parseSettings path) =
          some (Settings.Error.json f (Json.Wording.reason text f)).message := by
        simp [fault?, failure?, ht, hg, Except.toOption]
      exact Or.inl ⟨_, by simp [hread, hparse], congrArg (·, d) hjson⟩
    | ok g =>
      have hgiven : given? d a = some g.settings := by simp [given?, hs, ht, hg, Except.toOption]
      have hparse : fault? d a (.parseSettings path) = none := by
        simp [fault?, failure?, ht, hg, Except.toOption]
      have hcheck : fault? d a .checkSettings = settingsFault? g.settings := by simp [fault?, hgiven]
      have hjson : Settings.ofJson text = g.settings.validate.map fun _ => g.settings := by rw [Settings.ofJson, hg]
      rcases validate_cases g.settings with ⟨e, he, hrun⟩ | ⟨he, hrun⟩
      · exact Or.inl ⟨e, by simp [hread, hparse, hcheck, he], congrArg (·, d) (hjson.trans hrun)⟩
      · refine Or.inr ⟨by simp [hread, hparse, hcheck, he], g.settings, ?_, hgiven, congrArg (·, d) (hjson.trans hrun)⟩
        rw [AreLoaded, hs]
        exact ⟨text, ht, hjson.trans hrun⟩

/-- Loading the settings fails, or all that is left is to check them with what the command line says in place. -/
theorem compileSettings_load_cases :
    (∃ e : Settings.Error, a.loadSteps.findSome? (fault? d a) = some e.message ∧
      (compileSettings a : StateM σ (Except Settings.Error Settings)) d = (.error e, d)) ∨
    (a.loadSteps.findSome? (fault? d a) = none ∧ ∃ s, AreLoaded d a s ∧ given? d a = some s ∧
      (compileSettings a : StateM σ (Except Settings.Error Settings)) d =
        ((a.adapt s).validate.map fun _ => a.adapt s, d)) := by
  cases hs : a.settings with
  | none =>
    refine Or.inr ⟨by simp [CompileArguments.loadSteps, hs], {}, ?_, ?_, compileSettings_of_none d hs⟩
    · rw [AreLoaded, hs]
    · rw [given?, hs]
  | some path =>
    rw [compileSettings, hs]
    rcases loadSettings_cases d a hs with ⟨e, he, hrun⟩ | ⟨he, s, hloaded, hgiven, hrun⟩
    · exact Or.inl ⟨e, he, bind_apply _ _ hrun⟩
    · exact Or.inr ⟨he, s, hloaded, hgiven, bind_apply _ _ hrun⟩

theorem compileSettings_cases :
    (∃ e : Settings.Error, a.settingsSteps.findSome? (fault? d a) = some e.message ∧
      (compileSettings a : StateM σ (Except Settings.Error Settings)) d = (.error e, d)) ∨
    (a.settingsSteps.findSome? (fault? d a) = none ∧ ∃ s, AreLoaded d a s ∧ given? d a = some s ∧
      (compileSettings a : StateM σ (Except Settings.Error Settings)) d = (.ok (a.adapt s), d)) := by
  rcases compileSettings_load_cases d a with ⟨e, he, hrun⟩ | ⟨he, s, hloaded, hgiven, hrun⟩
  · exact Or.inl ⟨e, by simp [CompileArguments.settingsSteps, List.findSome?_append, he], hrun⟩
  · have hcheck : fault? d a .checkAdapted = settingsFault? (a.adapt s) := by simp [fault?, hgiven]
    have hfault : a.settingsSteps.findSome? (fault? d a) = settingsFault? (a.adapt s) := by
      simp [CompileArguments.settingsSteps, List.findSome?_append, he, hcheck]
    rw [hrun, hfault]
    rcases validate_cases (a.adapt s) with ⟨e, hs, hv⟩ | ⟨hs, hv⟩
    · exact Or.inl ⟨e, hs, by rw [hv]⟩
    · exact Or.inr ⟨hs, s, hloaded, hgiven, by rw [hv]⟩

theorem findSome?_steps :
    a.steps.findSome? (fault? d a) =
      ((a.settingsSteps.findSome? (fault? d a)).or (a.inputs.findSome? (readFault? d))).or
        (fault? d a (.writeOutput a.output)) := by
  have hinputs : (a.inputs.map Step.readInput).findSome? (fault? d a) = a.inputs.findSome? (readFault? d) := by
    rw [List.findSome?_map]
    rfl
  rw [CompileArguments.steps, List.findSome?_append, List.findSome?_append, hinputs,
    List.findSome?_singleton]

theorem runCompile_of_read {s : Settings} {lists : List FilterList}
    (hsettings : (compileSettings a : StateM σ (Except Settings.Error Settings)) d = (.ok s, d))
    (hlists : List.Forall₂ (IsListAt d) a.inputs lists) :
    (runCompile a : StateM σ Outcome) d = conclude d a lists (Compilation.run s lists) := by
  refine (bind_apply _ _ hsettings).trans ((bind_apply _ _ (readLists_of_isListAt hlists)).trans ?_)
  unfold conclude
  rcases hw : FileState.write d a.output (Compilation.run s lists).ruleset.json.pretty with ⟨_ | _, d'⟩
  · exact write_bind hw _
  · exact write_bind hw _

/-- What a compile command does: it reports its first fault and leaves the files as they are, or it writes the
document. -/
theorem runCompile_cases [LawfulFileState σ] :
    (∃ e log heading, a.steps.findSome? (fault? d a) = some e ∧
      (runCompile a : StateM σ Outcome) d = (⟨1, heading, log ++ [errorLine e]⟩, d)) ∨
    (a.steps.findSome? (fault? d a) = none ∧ ∃ s lists log output d',
      AreLoaded d a s ∧ List.Forall₂ (IsListAt d) a.inputs lists ∧
      FileState.write d a.output (Compilation.run (a.adapt s) lists).ruleset.json.pretty = (.ok (), d') ∧
      (runCompile a : StateM σ Outcome) d = (⟨0, output, log⟩, d')) := by
  rw [findSome?_steps]
  rcases compileSettings_cases d a with ⟨e, he, hsettings⟩ | ⟨he, s, hs, hgiven, hsettings⟩
  · exact Or.inl ⟨e.message, [], [], by rw [he]; rfl, bind_apply _ _ hsettings⟩
  rcases readLists_cases d a.inputs with ⟨e, he', hread⟩ | ⟨he', lists, hlists⟩
  · exact Or.inl ⟨e, [], [], by rw [he, he']; rfl, (bind_apply _ _ hsettings).trans (bind_apply _ _ hread)⟩
  have hrun := runCompile_of_read d a hsettings hlists
  have hdocument : document? d a = some (Compilation.run (a.adapt s) lists).ruleset.json.pretty := by
    rw [document?, hgiven, Option.bind_some, mapM_list? hlists, Option.map_some]
  rw [he, he', fault?, hdocument]
  unfold conclude at hrun
  rcases hw : FileState.write d a.output (Compilation.run (a.adapt s) lists).ruleset.json.pretty with ⟨e | _, d'⟩
  · obtain rfl := LawfulFileState.write_error hw
    rw [hw] at hrun
    exact Or.inl ⟨writeFailure a.output e, _, _, by rw [Option.bind_some, hw]; rfl, hrun⟩
  · rw [hw] at hrun
    exact Or.inr ⟨by rw [Option.bind_some, hw]; rfl, s, lists, _, _, d', hs, hlists, hw, hrun⟩

/-- A compile command ends with status 1 or 0. With 1, the files are as they were, and the error is that of the first
step that fails. With 0, no step fails, and only the output is written, from settings and lists as they were before. -/
theorem compile_all_or_nothing [LawfulFileState σ] {arguments : List Text} {a : CompileArguments}
    (h : ofArguments arguments = .ok (.compile a)) (d : σ) :
    ∃ o d', execute arguments d = .ok (o, d') ∧ (o.status = 0 ∨ o.status = 1) ∧
      (o.status = 1 →
        d' = d ∧ ∃ e, a.steps.findSome? (fault? d a) = some e ∧ o.errors.getLast? = some (errorLine e)) ∧
      (o.status = 0 →
        a.steps.findSome? (fault? d a) = none ∧
        ∃ s lists, AreLoaded d a s ∧ List.Forall₂ (IsListAt d) a.inputs lists ∧
          OnlyWrites d a.output (Compilation.run (a.adapt s) lists).ruleset.json.pretty d') := by
  have hexecute {o : Outcome} {d' : σ} (hrun : (runCompile a : StateM σ Outcome) d = (o, d')) :
      execute arguments d = .ok (o, d') := by
    rw [execute, h]
    exact congrArg Except.ok hrun
  rcases runCompile_cases d a with ⟨e, log, heading, he, hrun⟩ | ⟨he, s, lists, log, output, d', hs, hlists, hw, hrun⟩
  · exact ⟨_, d, hexecute hrun, Or.inr rfl, fun _ => ⟨rfl, e, he, by simp⟩, by simp⟩
  · exact ⟨_, d', hexecute hrun, Or.inl rfl, by simp, fun _ => ⟨he, s, lists, hs, hlists, .of_write hw⟩⟩

end

def adsTree : FileTree :=
  ⟨[(["lists".toList, "ads.txt".toList], .text "||ads.com^".toList),
    (["lists".toList, "limits.json".toList], .text "\x7b\"batch_size\": 0\x7d".toList)], ["lists".toList]⟩

/-- The output takes the place of the input, by another path. -/
def renew : CompileArguments := ⟨["ads.txt".toList], [], none, none, "/lists/../lists/ads.txt".toList, false⟩

def renewLine : List Text := ["compile", "-i", "ads.txt", "--output=/lists/../lists/ads.txt"].map String.toList

/-- A batch size that would do, over settings that do not, and an input that is not there. -/
def limited : CompileArguments := ⟨["banner.txt".toList], [], some "limits.json".toList, some 5, defaultOutput, false⟩

def limitedLine : List Text := ["compile", "-ibanner.txt", "--config", "limits.json", "-b", "5"].map String.toList

theorem compile_all_or_nothing_ads :
    (ofArguments renewLine = .ok (.compile renew) ∧
      ∃ o d', execute renewLine adsTree = .ok (o, d') ∧ o.status = 0 ∧
        OnlyWrites adsTree "/lists/../lists/ads.txt".toList
          (Compilation.run {} [⟨"ads.txt".toList, "||ads.com^".toList⟩]).ruleset.json.pretty d') ∧
    (ofArguments limitedLine = .ok (.compile limited) ∧
      ∃ o, execute limitedLine adsTree = .ok (o, adsTree) ∧ o.status = 1 ∧
        o.errors.getLast? = some "Error: batch_size must be at least 1") := by
  have hrenew : ofArguments renewLine = .ok (.compile renew) := by decide
  have hlimited : ofArguments limitedLine = .ok (.compile limited) := by decide
  refine ⟨⟨hrenew, ?_⟩, hlimited, ?_⟩
  · obtain ⟨o, d', hrun, hstatus, hfail, hdone⟩ := compile_all_or_nothing hrenew adsTree
    have hnone : renew.steps.findSome? (fault? adsTree renew) = none := by decide
    have hzero : o.status = 0 := by
      refine hstatus.resolve_right fun hone => ?_
      obtain ⟨-, e, he, -⟩ := hfail hone
      rw [hnone] at he
      cases he
    obtain ⟨-, s, lists, hs, hlists, hwrites⟩ := hdone hzero
    obtain rfl : s = {} := hs
    obtain ⟨l, rest, hl, hrest, rfl⟩ := List.forall₂_cons_left_iff.mp hlists
    obtain rfl := List.forall₂_nil_left_iff.mp hrest
    obtain rfl : l = ⟨"ads.txt".toList, "||ads.com^".toList⟩ := hl.unique ⟨by decide, by decide⟩
    exact ⟨o, d', hrun, hzero, hwrites⟩
  · obtain ⟨o, d', hrun, hstatus, hfail, hdone⟩ := compile_all_or_nothing hlimited adsTree
    have hfault : limited.steps.findSome? (fault? adsTree limited) = some "batch_size must be at least 1" := by
      decide
    have hone : o.status = 1 := by
      refine hstatus.resolve_left fun hzero => ?_
      rw [hfault] at hdone
      cases (hdone hzero).1
    obtain ⟨rfl, e, he, herror⟩ := hfail hone
    obtain rfl := Option.some.inj (hfault.symm.trans he)
    exact ⟨o, hrun, hone, herror⟩

end Blocklist.Command
