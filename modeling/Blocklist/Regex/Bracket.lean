import Blocklist.Regex.Escape

/-! Bracketed classes of regular expressions: ranges, nested classes, POSIX names and set operators. -/

namespace Blocklist.Regex

/-- A class that is still open: its items so far, the last first, and the left side of an operator. -/
structure OpenClass where
  negated : Bool
  items : List ClassTree
  left : Option ClassTree := none

namespace OpenClass

def push (o : OpenClass) (t : ClassTree) : OpenClass := { o with items := t :: o.items }

/-- All that was read so far, as one tree. -/
def inner (o : OpenClass) : ClassTree :=
  let items := ClassTree.ofItems o.items.reverse
  match o.left with
  | none => items
  | some l => .operation l items

/-- An operator makes what was read so far its left side. -/
def operator (o : OpenClass) : OpenClass := { o with items := [], left := some o.inner }

/-- Reads the start of a class, behind its bracket: a caret, then hyphens, or one closing bracket, that stand
for themselves. -/
def start (verbose : Bool) (t : Text) : Except Fault (OpenClass × Text) :=
  let t := skip verbose t
  let (negated, t) :=
    match t with
    | '^' :: r => (true, skip verbose r)
    | _ => (false, t)
  let (hyphens, rest) := run (· == '-') verbose false t
  let (items, rest) :=
    match hyphens, rest with
    | [], ']' :: r => ([.literal ']'], skip verbose r)
    | _, _ => (hyphens.map .literal, rest)
  if rest = [] then .error .unclosedClass else .ok (⟨negated, items, none⟩, rest)

end OpenClass

def posixNames : List String :=
  ["alnum", "alpha", "ascii", "blank", "cntrl", "digit", "graph", "lower", "print", "punct", "space", "upper",
   "word", "xdigit"]

/-- A POSIX class behind its first bracket; none if the text only looks like one. -/
def posixClass? (t : Text) : Option (ClassTree × Text) :=
  match t with
  | ':' :: r =>
    let (negated, r) := match r with
      | '^' :: r => (true, r)
      | _ => (false, r)
    match r.dropWhile (· != ':') with
    | ':' :: ']' :: rest =>
      if posixNames.contains (Text.str (r.takeWhile (· != ':'))) then some (.posix negated, rest) else none
    | _ => none
  | _ => none

/-- One member: an escape, or any character. -/
def classMember (verbose : Bool) : Text → Except Fault (Tree × Text)
  | [] => .error .unclosedClass
  | '\\' :: r => escape verbose r
  | c :: r => .ok (.literal c, r)

def classItem : Tree → Except Fault ClassTree
  | .literal c | .byte c => .ok (.literal c)
  | .shorthand n => .ok (.shorthand n)
  | .property p => .ok (.property p)
  | _ => .error .badClassMember

def rangeEnd : Tree → Except Fault Char
  | .literal c | .byte c => .ok c
  | _ => .error .badRange

/-- A member, or a range of two with a hyphen between. A hyphen before the closing bracket or before another
hyphen begins no range. -/
def classRange (verbose : Bool) (t : Text) : Except Fault (ClassTree × Text) := do
  let (first, rest) ← classMember verbose t
  match skip verbose rest with
  | [] => .error .unclosedClass
  | '-' :: r =>
    if peek verbose r == some ']' || peek verbose r == some '-' then
      .ok (← classItem first, '-' :: r)
    else
      let (last, rest) ← classMember verbose (skip verbose r)
      let low ← rangeEnd first
      let high ← rangeEnd last
      if low.toNat ≤ high.toNat then .ok (.range low high, rest) else .error .badRange
  | r => .ok (← classItem first, r)

/-- Reads up to the bracket that closes the outermost class. Each round takes at least one character, so
`rounds` of them suffice for a text of that length. -/
def classBody (verbose : Bool) : (rounds : Nat) → OpenClass → List OpenClass → Text → Except Fault (Tree × Text)
  | 0, _, _, _ => .error .unclosedClass
  | n + 1, o, outer, t =>
    match skip verbose t with
    | [] => .error .unclosedClass
    | '[' :: r =>
      match posixClass? r with
      | some (c, rest) => classBody verbose n (o.push c) outer rest
      | none => do
        let (inner, rest) ← OpenClass.start verbose r
        classBody verbose n inner (o :: outer) rest
    | ']' :: r =>
      match outer with
      | [] => .ok (.bracket o.negated o.inner, r)
      | p :: outer => classBody verbose n (p.push (.bracket o.negated o.inner)) outer r
    | '&' :: '&' :: r | '-' :: '-' :: r | '~' :: '~' :: r => classBody verbose n o.operator outer r
    | r => do
      let (c, rest) ← classRange verbose r
      classBody verbose n (o.push c) outer rest

/-- A bracketed class, behind its bracket. -/
def bracket (verbose : Bool) (t : Text) : Except Fault (Tree × Text) := do
  let (o, rest) ← OpenClass.start verbose t
  classBody verbose (rest.length + 1) o [] rest

end Blocklist.Regex
