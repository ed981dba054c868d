import Blocklist.Regex.Bracket
import Blocklist.Text.Alphabetic

/-! Reading a regular expression into its tree. Groups that are still open wait on a stack, so the reader is
one loop over the text. -/

namespace Blocklist.Regex

/-- The flags of a group and the character that ends them, a colon or a closing bracket. -/
structure FlagGroup where
  flags : Flags
  /-- No flag was named. -/
  none : Bool
  colon : Bool

/-- Reads flags: letters, each at most once, those behind a hyphen switched off. -/
def readFlags (seen : List Char) (off dangling : Bool) (f : Flags) : Text → Except Fault (FlagGroup × Text)
  | [] => .error .unfinishedFlags
  | c :: r =>
    if c == ':' || c == ')' then
      if dangling then .error .danglingNegation else .ok (⟨f, seen.isEmpty, c == ':'⟩, r)
    else if c == '-' then
      if off then .error .repeatedFlag else readFlags seen true true f r
    else if !"imsUuRx".toList.contains c then .error .unknownFlag
    else if seen.contains c then .error .repeatedFlag
    else
      let f := if c == 'u' then { f with unicode := some !off } else f
      let f := if c == 'x' then { f with verbose := some !off } else f
      readFlags (c :: seen) off false f r

def isGroupName : Text → Bool
  | [] => false
  | c :: r =>
    (c == '_' || isAlphabetic c) && r.all fun c => "_.[]".toList.contains c || isAlphabetic c || isNumeric c

/-- Reads the name of a group up to the angle bracket that ends it. -/
def readGroupName (names : List Text) (t : Text) : Except Fault (Text × Text) :=
  let name := t.takeWhile (· != '>')
  match t.dropWhile (· != '>') with
  | '>' :: rest =>
    if name = [] then .error .emptyGroupName
    else if !isGroupName name then .error .badGroupName
    else if names.contains name then .error .repeatedGroupName
    else .ok (name, rest)
  | _ => .error .badGroupName

/-- A repetition count: the least number of times and, if there is one, the greatest. -/
def readCount (verbose : Bool) (t : Text) : Except Fault Text :=
  let number (t : Text) : Option Nat × Text :=
    let (digits, rest) := run Char.isDigit verbose false ((skip verbose t).dropWhile isBlank)
    let n := digits.foldl (fun n d => 10 * n + (d.toNat - '0'.toNat)) 0
    (if digits ≠ [] ∧ n ≤ 0xFFFFFFFF then some n else none, rest.dropWhile isBlank)
  match number t with
  | (some _, '\x7d' :: rest) => .ok rest
  | (some low, ',' :: r) =>
    match skip verbose r with
    | '\x7d' :: rest => .ok rest
    | r =>
      match number r with
      | (some high, '\x7d' :: rest) => if low ≤ high then .ok rest else .error .badRepetition
      | _ => .error .badRepetition
  | _ => .error .badRepetition

/-- A group that is still open: its flags, and what goes on when it closes. -/
structure OpenGroup where
  flags : Flags
  verbose : Bool
  items : List Tree
  branches : List Tree

/-- The reader in the middle of a text. Items and branches are kept with the last first. -/
structure Progress where
  verbose : Bool := false
  names : List Text := []
  items : List Tree := []
  branches : List Tree := []
  groups : List OpenGroup := []

namespace Progress

def push (p : Progress) (t : Tree) : Progress := { p with items := t :: p.items }

/-- The branches of the innermost group, as one tree. -/
def inner (p : Progress) : Tree :=
  let last := Tree.ofItems p.items.reverse
  if p.branches.isEmpty then last else .alternation (last :: p.branches).reverse

def branch (p : Progress) : Progress :=
  { p with items := [], branches := Tree.ofItems p.items.reverse :: p.branches }

def enter (p : Progress) (f : Flags) : Progress :=
  { p with
    verbose := f.verbose.getD p.verbose
    items := []
    branches := []
    groups := ⟨f, p.verbose, p.items, p.branches⟩ :: p.groups }

def leave (p : Progress) : Except Fault Progress :=
  match p.groups with
  | [] => .error .unopenedGroup
  | g :: gs =>
    .ok { p with
      verbose := g.verbose
      items := .group g.flags p.inner :: g.items
      branches := g.branches
      groups := gs }

/-- Repeats the last item. A flag group cannot be repeated. -/
def repeatLast (p : Progress) : Except Fault Progress :=
  match p.items with
  | [] | .flags _ :: _ => .error .nothingToRepeat
  | t :: ts => .ok { p with items := .repetition t :: ts }

/-- Reads what follows an opening round bracket. -/
def readGroup (p : Progress) (t : Text) : Except Fault (Progress × Text) :=
  let named (t : Text) : Except Fault (Progress × Text) := do
    let (name, rest) ← readGroupName p.names t
    .ok ({ p with names := name :: p.names }.enter {}, rest)
  match skip p.verbose t with
  | '?' :: '=' :: _ | '?' :: '!' :: _ | '?' :: '<' :: '=' :: _ | '?' :: '<' :: '!' :: _ => .error .lookAround
  | '?' :: 'P' :: '<' :: r => named r
  | '?' :: '<' :: r => named r
  | '?' :: r => do
    let (g, rest) ← readFlags [] false false {} r
    if g.colon then .ok (p.enter g.flags, rest)
    else if g.none then .error .nothingToRepeat
    else .ok ({ p with verbose := g.flags.verbose.getD p.verbose }.push (.flags g.flags), rest)
  | r => .ok (p.enter {}, r)

/-- A question mark right behind a repetition only changes which match is preferred. -/
def skipLazy : Text → Text
  | '?' :: r => r
  | r => r

/-- Reads one construct. -/
def step (p : Progress) (c : Char) (r : Text) : Except Fault (Progress × Text) :=
  match c with
  | '(' => p.readGroup r
  | ')' => p.leave.map (·, r)
  | '|' => .ok (p.branch, r)
  | '[' => (bracket p.verbose r).map fun b => (p.push b.1, b.2)
  | '?' | '*' | '+' => p.repeatLast.map (·, skipLazy r)
  | '\x7b' => do
    let p ← p.repeatLast
    let rest ← readCount p.verbose r
    .ok (p, skipLazy (skip p.verbose rest))
  | '\\' => (escape p.verbose r).map fun e => (p.push e.1, e.2)
  | '.' => .ok (p.push .dot, r)
  | '^' | '$' => .ok (p.push .assertion, r)
  | c => .ok (p.push (.literal c), r)

/-- Reads to the end. Each round takes at least one character. -/
def finish : (rounds : Nat) → Progress → Text → Except Fault Tree
  | 0, _, _ => .error .unclosedGroup
  | n + 1, p, t =>
    match skip p.verbose t with
    | [] => if p.groups.isEmpty then .ok p.inner else .error .unclosedGroup
    | c :: r => do
      let (p, rest) ← p.step c r
      finish n p rest

end Progress

def read (t : Text) : Except Fault Tree := Progress.finish (t.length + 1) {} t

end Blocklist.Regex
