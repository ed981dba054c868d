import Blocklist.Json.Skip
import Blocklist.Record

/-! Settings of a compilation, and how they are read from JSON text. They are an object whose known members may
come in any order, once each, or a list of their values in a fixed order; what is not given keeps its
default. -/

namespace Blocklist

structure Settings where
  /-- Records in a batch. -/
  batchSize : Nat := Batch.defaultSize
  /-- Types of rules that say nothing about types. -/
  defaultTypes : List ResourceType := Batch.defaultTypes.toList
  /-- Sites that get an exception. -/
  allowed : List Text := []
  /-- Types these exceptions are for. -/
  allowedTypes : List ResourceType := [.mainFrame, .subFrame]
  /-- The most network rules there may be. -/
  maxRules : Option Nat := none
deriving DecidableEq

namespace Settings

def defaultTypeSet (s : Settings) : TypeSet := .ofList s.defaultTypes

def allowedTypeSet (s : Settings) : TypeSet := .ofList s.allowedTypes

/-- Why there are no settings to work with. -/
inductive Error where
  | unreadable (path reason : Text)
  | json (fault : Json.Fault) (reason : Text)
  | emptyBatches
deriving DecidableEq

def Error.message : Error → String
  | .unreadable path reason => s!"Failed to read '{path.str}': {reason.str}"
  | .json _ reason => s!"Invalid config JSON: {reason.str}"
  | .emptyBatches => "batch_size must be at least 1"

def validate (s : Settings) : Except Error Unit :=
  if s.batchSize = 0 then .error .emptyBatches else .ok ()

open Json

/-- A number of 64 bits without sign, fraction and exponent. -/
def readNatural (t : Text) : Except Fault (Nat × Text) :=
  let t := skipSpace t
  let natural (p : Except Fault (Number × Text)) : Except Fault (Nat × Text) :=
    match p with
    | .error f => .error f
    | .ok (.natural n, rest) => .ok (n, rest)
    | .ok (.other, _) => .error .unsuitable
  match t with
  | [] => .error .ended
  | '-' :: r => natural (readNumber true r)
  | c :: r => if c.isDigit then natural (readNumber false (c :: r)) else .error (mismatch t)

/-- The same, or null. -/
def readLimit (t : Text) : Except Fault (Option Nat × Text) :=
  match skipSpace t with
  | 'n' :: r => (word "ull".toList r).map fun rest => (none, rest)
  | t => (readNatural t).map fun (n, rest) => (some n, rest)

def readString (t : Text) : Except Fault (Text × Text) :=
  match skipSpace t with
  | '"' :: r => stringRest r
  | t => .error (mismatch t)

/-- The type with this name. -/
def typeNamed (name : Text) : Except Fault ResourceType :=
  match ResourceType.ofName? name with
  | some r => .ok r
  | none => .error .unsuitable

/-- A type by name: a string, or an object with the name as its one key and null behind it. -/
def readType (t : Text) : Except Fault (ResourceType × Text) :=
  match skipSpace t with
  | [] => .error .ended
  | '"' :: r => do
    let (name, rest) ← stringRest r
    .ok (← typeNamed name, rest)
  | '\x7b' :: r => do
    let (name, rest) ← readString r
    let type ← typeNamed name
    let rest ←
      match skipSpace (← colon rest) with
      | 'n' :: r => word "ull".toList r
      | t => .error (mismatch t)
    match skipSpace rest with
    | '\x7d' :: rest => .ok (type, rest)
    | [] => .error .ended
    | _ => .error .malformed
  | _ => .error .malformed

def readList (item : Text → Except Fault (α × Text)) (t : Text) : Except Fault (List α × Text) :=
  match skipSpace t with
  | '[' :: r => items item (r.length + 1) true r
  | t => .error (mismatch t)

/-- The settings that have been given so far. -/
structure Given where
  batchSize : Option Nat := none
  defaultTypes : Option (List ResourceType) := none
  allowed : Option (List Text) := none
  allowedTypes : Option (List ResourceType) := none
  maxRules : Option (Option Nat) := none

def Given.settings (g : Given) : Settings :=
  let d : Settings := {}
  { batchSize := g.batchSize.getD d.batchSize
    defaultTypes := g.defaultTypes.getD d.defaultTypes
    allowed := g.allowed.getD d.allowed
    allowedTypes := g.allowedTypes.getD d.allowedTypes
    maxRules := g.maxRules.getD d.maxRules }

/-- Reads the next value of the list form, if there is one; `first` says that none was read yet. -/
def readNext (read : Text → Except Fault (α × Text)) (first : Bool) (t : Text) :
    Except Fault (Option α × Text) := do
  match ← nextItem first t with
  | (true, r) =>
    let (a, rest) ← read r
    .ok (some a, rest)
  | (false, r) => .ok (none, r)

/-- The list form, behind its opening bracket. -/
def readPositional (t : Text) : Except Fault (Given × Text) := do
  let (batchSize, t) ← readNext readNatural true t
  let (defaultTypes, t) ← readNext (readList readType) false t
  let (allowed, t) ← readNext (readList readString) false t
  let (allowedTypes, t) ← readNext (readList readType) false t
  let (maxRules, t) ← readNext readLimit false t
  let rest ← closeList t
  .ok ({ batchSize, defaultTypes, allowed, allowedTypes, maxRules }, rest)

/-- Reads the value of a member that must not have been given before. -/
def readOnce (before : Option α) (read : Text → Except Fault (α × Text)) (t : Text) :
    Except Fault (Option α × Text) := do
  if before.isSome then throw .unsuitable
  let (a, rest) ← read (← colon t)
  .ok (some a, rest)

/-- Reads the value of the member with this key; one that is not known is passed over. -/
def readMember (g : Given) (key t : Text) : Except Fault (Given × Text) := do
  match key.str with
  | "batch_size" =>
    let (v, rest) ← readOnce g.batchSize readNatural t
    .ok ({ g with batchSize := v }, rest)
  | "default_resource_types" =>
    let (v, rest) ← readOnce g.defaultTypes (readList readType) t
    .ok ({ g with defaultTypes := v }, rest)
  | "whitelist" =>
    let (v, rest) ← readOnce g.allowed (readList readString) t
    .ok ({ g with allowed := v }, rest)
  | "whitelist_resource_types" =>
    let (v, rest) ← readOnce g.allowedTypes (readList readType) t
    .ok ({ g with allowedTypes := v }, rest)
  | "max_rules" =>
    let (v, rest) ← readOnce g.maxRules readLimit t
    .ok ({ g with maxRules := v }, rest)
  | _ => .ok (g, ← skipValue (← colon t))

/-- The object form, behind its opening brace. Each member takes at least one character. -/
def readMembers : (rounds : Nat) → (first : Bool) → Given → Text → Except Fault (Given × Text)
  | 0, _, _, _ => .error .ended
  | n + 1, first, g, t => do
    match ← nextKey first t with
    | (false, rest) => .ok (g, rest)
    | (true, r) =>
      let (key, r) ← stringRest r
      let (g, rest) ← readMember g key r
      readMembers n false g rest

def readGiven (t : Text) : Except Fault Given := do
  let (g, rest) ←
    match skipSpace t with
    | '[' :: r => readPositional r
    | '\x7b' :: r => readMembers (r.length + 1) true {} r
    | t => .error (mismatch t)
  if skipSpace rest = [] then .ok g else .error .malformed

/-- Reads settings and checks them. -/
def ofJson [Wording] (t : Text) : Except Error Settings :=
  match readGiven t with
  | .error f => .error (.json f (Wording.reason t f))
  | .ok g => g.settings.validate.map fun _ => g.settings

end Settings

end Blocklist
