import Blocklist.Command.Arguments
import Blocklist.Command.Files
import Blocklist.Compilation
import Blocklist.FilterList
import Blocklist.Settings

/-! The commands: compile lists into a document, count what lists hold, check a downloaded list. What they
print is their result; reading and writing files goes through `Files`, and what the libraries have to say about
regular expressions and JSON is theirs. -/

namespace Blocklist.Command

/-- A line to print. -/
inductive OutputLine where
  | text (s : String)
  /-- The time the command took, known only once it has run. -/
  | elapsed
deriving DecidableEq

/-- The text of a line, given the time. -/
def OutputLine.render (time : String) : OutputLine → String
  | .text s => s
  | .elapsed => s!"  Time:        {time}"

structure Outcome where
  status : Nat
  output : List OutputLine
  errors : List String
deriving DecidableEq

def logLines (verbose : Bool) (entries : List Log.Entry) : List String :=
  (Log.upTo (if verbose then .debug else .warn) entries).map Log.Entry.line

def errorLine (message : String) : String := s!"Error: {message}"

/-- A command that ends with this message before it has printed anything. -/
def Outcome.failed (message : String) : Outcome := ⟨1, [], [errorLine message]⟩

def readFailure (path : Text) (e : FileError) : String := s!"Failed to read '{path.str}': {e.message}"

def writeFailure (path : Text) (e : FileError) : String := s!"Failed to write '{path.str}': {e.message}"

/-- The name of a list is the last part of its path, if that is a name. -/
def listName (path : Text) : Text :=
  match ((Text.splitOn '/' path).filter fun p => p ≠ [] ∧ p ≠ ['.']).getLast? with
  | some name => if name = ['.', '.'] then path else name
  | none => path

variable [Regex.Library] [Json.Wording] {m : Type → Type} [Monad m] [Files m]

def readLists : List Text → m (Except String (List FilterList))
  | [] => pure (.ok [])
  | path :: paths => do
    match ← Files.read path with
    | .error e => pure (.error (readFailure path e))
    | .ok text => return (← readLists paths).map (⟨listName path, text⟩ :: ·)

def loadSettings (path : Text) : m (Except Settings.Error Settings) := do
  match ← Files.read path with
  | .error e => return .error (.unreadable path e.message.toList)
  | .ok text => return Settings.ofJson text

/-- The settings of a compile command: those of its file, with what the command line says in place. -/
def compileSettings (a : CompileArguments) : m (Except Settings.Error Settings) := do
  let loaded ← match a.settings with
    | some path => loadSettings path
    | none => pure (.ok {})
  match loaded with
  | .error e => return .error e
  | .ok s =>
    let s := { s with batchSize := a.batchSize.getD s.batchSize, allowed := s.allowed ++ a.allowed }
    return s.validate.map fun _ => s

def listLines (lists : List FilterList) : List OutputLine :=
  lists.mapIdx fun i l => .text s!"  [{i}] {l.name.str} - {(Text.lines l.text).length} lines"

def report (a : CompileArguments) (r : Ruleset) : List OutputLine :=
  let s := r.stats
  let c := r.cosmetic
  [.text s!"Compiled {a.inputs.length} filter lists to '{a.output.str}'",
   .text s!"  Parsed:      {s.parsed} ({s.invalid} invalid lines)",
   .text s!"  Removed:     {s.deduplicated} duplicate, {s.merged} merged, {s.redundant} redundant, {s.stripped} whitelisted, {s.truncated} over limit",
   .text s!"  Network:     {Batch.recordCount r.batches} rules in {r.batches.length} batches",
   .text s!"  Cosmetic:    {c.hide.length} hide, {c.unhide.length} unhide, {c.procedural.length} procedural",
   .text s!"  Fingerprint: {r.fingerprint.str}",
   .elapsed]

def runCompile (a : CompileArguments) : m Outcome := do
  match ← compileSettings a with
  | .error e => return .failed e.message
  | .ok settings =>
    match ← readLists a.inputs with
    | .error e => return .failed e
    | .ok lists =>
      let c := Compilation.run settings lists
      let heading := if a.verbose then listLines lists else []
      let log := logLines a.verbose c.log
      match ← Files.write a.output c.ruleset.json.pretty with
      | .error e => return ⟨1, heading, log ++ [errorLine (writeFailure a.output e)]⟩
      | .ok _ => return ⟨0, heading ++ report a c.ruleset, log⟩

def countBodies (p : Body → Bool) (rules : List Rule) : Nat := rules.countP fun r => p r.body

def readingLines (text : Text) (r : ListReading) : List OutputLine :=
  let network := countBodies (fun | .network .. => true | _ => false) r.rules
  let cosmetic := countBodies (fun | .cosmetic _ => true | _ => false) r.rules
  let procedural := countBodies (fun | .procedural _ => true | _ => false) r.rules
  [.text r.source.str,
   .text s!"  Lines:       {(Text.lines text).length}",
   .text s!"  Network:     {network}",
   .text s!"  Cosmetic:    {cosmetic}",
   .text s!"  Procedural:  {procedural}",
   .text s!"  Invalid:     {r.invalid}"]

def reductionLines (r : Reduction) : List OutputLine :=
  [.text "",
   .text "Optimization:",
   .text s!"  Rules:       {r.before} -> {r.after}",
   .text s!"  Duplicates:  {r.deduplicated}",
   .text s!"  Merged:      {r.merged}",
   .text s!"  Redundant:   {r.redundant}"]

/-- Counts list after list; `rules` are those of the lists before. What was counted is printed even if a
later list cannot be read. -/
def runStatsFrom (rules : List Rule) : List Text → m Outcome
  | [] => do
    let r := Reduction.ofRules Batch.defaultTypes rules
    return ⟨0, reductionLines r, logLines false r.log⟩
  | path :: paths => do
    match ← Files.read path with
    | .error e => return .failed (readFailure path e)
    | .ok text =>
      let reading := FilterList.read ⟨listName path, text⟩
      let rest ← runStatsFrom (rules ++ reading.rules) paths
      return { rest with
        output := readingLines text reading ++ rest.output
        errors := logLines false reading.log ++ rest.errors }

def runStats (inputs : List Text) : m Outcome := runStatsFrom [] inputs

def runCheck (input : Text) : m Outcome := do
  match ← Files.read input with
  | .error e => return .failed (readFailure input e)
  | .ok text =>
    let log := logLines false (FilterList.plausibleLog text)
    if FilterList.isPlausible text then
      return ⟨0, [.text s!"'{input.str}' looks like a filter list ({text.byteLength} bytes)"], log⟩
    else
      return ⟨1, [], log ++ [errorLine s!"'{input.str}' does not look like a filter list"]⟩

def run : Command → m Outcome
  | .compile a => runCompile a
  | .stats inputs => runStats inputs
  | .check input => runCheck input

end Blocklist.Command
