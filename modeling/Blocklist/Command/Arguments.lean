import Blocklist.Text.Basic

/-! Command lines. A command has options with a letter and a name; a value may be attached to its option or
come as the next argument, and letters without values may be written together. -/

namespace Blocklist

namespace Command

/-- How often an option may be given, and whether it has a value. -/
inductive Arity where
  | flag
  | once
  | many
deriving DecidableEq

structure Spec where
  letter : Char
  name : Text
  arity : Arity
deriving DecidableEq

inductive UsageError where
  | noCommand
  | unknownCommand (name : Text)
  | unexpected (argument : Text)
  | valueMissing (option : Text)
  | valueUnwanted (option : Text)
  | repeated (option : Text)
  | required (option : Text)
  | invalidValue (option value : Text)
deriving DecidableEq

def UsageError.message : UsageError → String
  | .noCommand => "a command is required: compile, stats or check"
  | .unknownCommand name => s!"unknown command '{name.str}'"
  | .unexpected argument => s!"unexpected argument '{argument.str}'"
  | .valueMissing option => s!"a value is required for '--{option.str}'"
  | .valueUnwanted option => s!"'--{option.str}' takes no value"
  | .repeated option => s!"'--{option.str}' cannot be used multiple times"
  | .required option => s!"'--{option.str}' is required"
  | .invalidValue option value => s!"invalid value '{value.str}' for '--{option.str}'"

/-- An option as it was given; a flag has an empty value. -/
structure Given where
  spec : Spec
  value : Text

/-- Options found in one argument, and the last of them if its value is still to come. -/
structure Found where
  given : List Given
  pending : Option Spec := none

def Found.cons (g : Given) (f : Found) : Found := { f with given := g :: f.given }

/-- Reads letters behind a hyphen. What follows a letter with a value is that value. -/
def readLetters (specs : List Spec) (argument : Text) : Text → Except UsageError Found
  | [] => .ok ⟨[], none⟩
  | c :: r =>
    match specs.find? fun s => s.letter == c with
    | none => .error (.unexpected argument)
    | some s =>
      if s.arity = .flag then (readLetters specs argument r).map (·.cons ⟨s, []⟩)
      else
        match r with
        | [] => .ok ⟨[], some s⟩
        | '=' :: v => .ok ⟨[⟨s, v⟩], none⟩
        | v => .ok ⟨[⟨s, v⟩], none⟩

/-- Reads a name behind two hyphens. -/
def readName (specs : List Spec) (argument t : Text) : Except UsageError Found :=
  let (name, value) := match Text.cut ['='] t with
    | some (name, value) => (name, some value)
    | none => (t, none)
  match specs.find? fun s => s.name == name, value with
  | none, _ => .error (.unexpected argument)
  | some s, none => if s.arity = .flag then .ok ⟨[⟨s, []⟩], none⟩ else .ok ⟨[], some s⟩
  | some s, some v => if s.arity = .flag then .error (.valueUnwanted s.name) else .ok ⟨[⟨s, v⟩], none⟩

/-- A lone hyphen is a value like any other. -/
def isValue (t : Text) : Bool := t == ['-'] || t.head? != some '-'

/-- Reads the arguments behind the command; `pending` waits for its value. -/
def readOptions (specs : List Spec) : (pending : Option Spec) → List Text → Except UsageError (List Given)
  | none, [] => .ok []
  | some s, [] => .error (.valueMissing s.name)
  | some s, v :: rest =>
    if isValue v then (readOptions specs none rest).map (⟨s, v⟩ :: ·) else .error (.valueMissing s.name)
  | none, a :: rest =>
    if isValue a then .error (.unexpected a)
    else
      match a with
      | ['-', '-'] =>
        match rest with
        | [] => .ok []
        | b :: _ => .error (.unexpected b)
      | '-' :: '-' :: t =>
        match readName specs a t with
        | .error e => .error e
        | .ok f => (readOptions specs f.pending rest).map (f.given ++ ·)
      | t =>
        match readLetters specs a t.tail with
        | .error e => .error e
        | .ok f => (readOptions specs f.pending rest).map (f.given ++ ·)

/-- The values an option was given, in order. -/
def valuesOf (given : List Given) (s : Spec) : List Text :=
  given.filterMap fun g => if g.spec = s then some g.value else none

/-- Only some options may be given more than once. -/
def checkRepeats (specs : List Spec) (given : List Given) : Except UsageError Unit :=
  match specs.find? fun s => s.arity != .many && 1 < (valuesOf given s).length with
  | some s => .error (.repeated s.name)
  | none => .ok ()

/-- A number of 64 bits, perhaps with a plus sign. -/
def readNumber? (t : Text) : Option Nat :=
  let digits := (['+'].isPrefixOf? t).getD t
  let n := digits.foldl (fun n d => 10 * n + (d.toNat - '0'.toNat)) 0
  if digits ≠ [] ∧ digits.all Char.isDigit ∧ n ≤ 0xFFFFFFFFFFFFFFFF then some n else none

structure CompileArguments where
  inputs : List Text
  allowed : List Text
  settings : Option Text
  batchSize : Option Nat
  output : Text
  verbose : Bool
deriving DecidableEq

end Command

inductive Command where
  | compile (arguments : Command.CompileArguments)
  | stats (inputs : List Text)
  | check (input : Text)
deriving DecidableEq

namespace Command

def inputs : Spec := ⟨'i', "input".toList, .many⟩

def singleInput : Spec := ⟨'i', "input".toList, .once⟩

def allowed : Spec := ⟨'w', "whitelist".toList, .many⟩

def settings : Spec := ⟨'c', "config".toList, .once⟩

def batchSize : Spec := ⟨'b', "batch-size".toList, .once⟩

def output : Spec := ⟨'o', "output".toList, .once⟩

def verbose : Spec := ⟨'v', "verbose".toList, .flag⟩

def defaultOutput : Text := "rules.json".toList

/-- The options of a command, none of them given too often. -/
def readGiven (specs : List Spec) (arguments : List Text) : Except UsageError (List Given) := do
  let given ← readOptions specs none arguments
  checkRepeats specs given
  .ok given

/-- An option that has to be given. -/
def require (s : Spec) : List Text → Except UsageError (List Text)
  | [] => .error (.required s.name)
  | vs => .ok vs

def readCompile (arguments : List Text) : Except UsageError CompileArguments := do
  let given ← readGiven [inputs, allowed, settings, batchSize, output, verbose] arguments
  let size ←
    match valuesOf given batchSize with
    | [] => .ok none
    | v :: _ =>
      match readNumber? v with
      | some n => .ok (some n)
      | none => .error (.invalidValue batchSize.name v)
  let path ←
    match valuesOf given settings with
    | [] => .ok none
    | [] :: _ => .error (.invalidValue settings.name [])
    | p :: _ => .ok (some p)
  .ok {
    inputs := ← require inputs (valuesOf given inputs)
    allowed := valuesOf given allowed
    settings := path
    batchSize := size
    output := (valuesOf given output).headD defaultOutput
    verbose := !(valuesOf given verbose).isEmpty }

def readStats (arguments : List Text) : Except UsageError (List Text) := do
  require inputs (valuesOf (← readGiven [inputs] arguments) inputs)

def readCheck (arguments : List Text) : Except UsageError Text := do
  match valuesOf (← readGiven [singleInput] arguments) singleInput with
  | [] => .error (.required singleInput.name)
  | v :: _ => .ok v

/-- Reads a command line, without the name of the program. -/
def ofArguments : List Text → Except UsageError Command
  | [] => .error .noCommand
  | name :: arguments =>
    match Text.str name with
    | "compile" => (readCompile arguments).map .compile
    | "stats" => (readStats arguments).map .stats
    | "check" => (readCheck arguments).map .check
    | _ => .error (.unknownCommand name)

end Command

end Blocklist
