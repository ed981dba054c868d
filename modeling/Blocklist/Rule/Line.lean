import Blocklist.Options
import Blocklist.Rule.Basic

/-! Reading one line of a filter list. Element rules are told by the mark between pages and selector; every
other line that is neither blank nor a comment is a network rule. -/

namespace Blocklist

/-- Why a line is no rule. -/
inductive LineError where
  | emptyPattern
  | unterminatedOptions
  | emptySelector (mark : Text)
  | invalidRegex (pattern reason : Text)
deriving DecidableEq

def LineError.message : LineError → String
  | .emptyPattern => "empty network pattern"
  | .unterminatedOptions => "'$' is not followed by any options"
  | .emptySelector mark => s!"empty selector after '{mark.str}'"
  | .invalidRegex pattern reason => s!"invalid regex '{pattern.str}': {reason.str}"

namespace Target

def isSeparator (c : Char) : Bool := c == '|' || c == ','

/-- Reads the two sides of a mark. -/
def read (mark pages selector : Text) : Except LineError Target :=
  if selector.trim = [] then .error (.emptySelector mark)
  else .ok ⟨selector.trim, Scope.addAll {} isSeparator pages⟩

end Target

/-- A network line in its parts, before any of them is read. -/
structure NetworkLine where
  action : Action
  pattern : Text
  options : Option Text

variable [Regex.Library]

namespace NetworkLine

/-- The part behind the first dollar sign is the options. -/
def splitOptions (t : Text) : Text × Option Text :=
  match Text.cut ['$'] t with
  | some (pattern, options) => (pattern, some options)
  | none => (t, none)

def ofText (t : Text) : NetworkLine :=
  match ['@', '@'].isPrefixOf? t with
  | some rest => ⟨.allow, (splitOptions rest).1, (splitOptions rest).2⟩
  | none => ⟨.block, (splitOptions t).1, (splitOptions t).2⟩

def readOptions (l : NetworkLine) : Except LineError Options :=
  match l.options with
  | none => .ok {}
  | some t => if Text.trim t = [] then .error .unterminatedOptions else .ok (Options.read t)

/-- A pattern has to say something, and the library has to take a regular expression. -/
def checkPattern : Pattern → Except LineError Unit
  | .hostAnchor [] | .hostStart [] | .startAnchor [] | .endAnchor [] => .error .emptyPattern
  | .regex t => (Regex.Library.compile t).mapError (.invalidRegex t)
  | _ => .ok ()

def readPattern (l : NetworkLine) : Except LineError Pattern :=
  let t := l.pattern.trim
  if t = [] then .error .emptyPattern
  else (checkPattern (Pattern.ofText t)).map fun _ => Pattern.ofText t

/-- The options are read first, so their error wins. -/
def read (l : NetworkLine) : Except LineError (Pattern × Options) :=
  match l.readOptions with
  | .error e => .error e
  | .ok o => l.readPattern.map (·, o)

/-- What reading the options has to say. -/
def log (l : NetworkLine) : List Log.Entry :=
  match l.options with
  | some t => Options.log t
  | none => []

end NetworkLine

/-- A line by the kind of rule it is written as. -/
inductive Line where
  /-- Blank, a comment, or a header. -/
  | silent
  /-- A mark between pages and selector. -/
  | element (mark pages selector : Text)
  | network (l : NetworkLine)

namespace Line

def hideMark : Text := ['#', '#']

def unhideMark : Text := ['#', '@', '#']

def proceduralMark : Text := ['#', '?', '#']

def isComment (t : Text) : Bool := t.head? == some '!' || t.head? == some '['

/-- The first of the three marks that occurs, in this order, makes an element rule. -/
def ofText (line : Text) : Line :=
  let t := line.trim
  if t = [] ∨ isComment t then .silent
  else
    match Text.cut hideMark t with
    | some (pages, selector) => .element hideMark pages selector
    | none =>
      match Text.cut unhideMark t with
      | some (pages, selector) => .element unhideMark pages selector
      | none =>
        match Text.cut proceduralMark t with
        | some (pages, selector) => .element proceduralMark pages selector
        | none => .network (.ofText t)

def elementAction (mark : Text) : Action := if mark = unhideMark then .unhide else .hide

def elementBody (mark : Text) (t : Target) : Body :=
  if mark = proceduralMark then .procedural t else .cosmetic t

/-- The rule on a line; none if the line holds none. -/
def rule? (source : Text) (number : Nat) : Line → Except LineError (Option Rule)
  | .silent => .ok none
  | .element mark pages selector =>
    (Target.read mark pages selector).map fun t =>
      some ⟨elementAction mark, elementBody mark t, Priority.base, source, number⟩
  | .network l =>
    l.read.map fun (p, o) => some ⟨l.action, .network p o, Priority.ofNetwork l.action o, source, number⟩

def log : Line → List Log.Entry
  | .network l => l.log
  | _ => []

end Line

namespace Rule

/-- Reads a line of the list `source`. -/
def ofLine? (source : Text) (number : Nat) (line : Text) : Except LineError (Option Rule) :=
  (Line.ofText line).rule? source number

end Rule

end Blocklist
