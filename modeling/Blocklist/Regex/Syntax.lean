import Blocklist.Text.Basic

/-! Syntax trees of regular expressions, as far as it takes to tell whether an expression is admissible: how
deep constructs nest, and what depends on Unicode mode. -/

namespace Blocklist.Regex

/-- Why a text is no regular expression. -/
inductive Fault where
  | unclosedGroup
  | unopenedGroup
  | emptyGroupName
  | badGroupName
  | repeatedGroupName
  | lookAround
  | unfinishedFlags
  | unknownFlag
  | repeatedFlag
  | danglingNegation
  | nothingToRepeat
  | badRepetition
  | unfinishedEscape
  | unknownEscape
  | backreference
  | badCodePoint
  | badBoundary
  | unclosedClass
  | badClassMember
  | badRange
  | unknownProperty
  | needsUnicode
  | brokenEncoding
  | tooDeep
deriving DecidableEq

/-- What a flag group says about two of the flags; the others never matter here. -/
structure Flags where
  unicode : Option Bool := none
  /-- Blanks and comments are skipped. -/
  verbose : Option Bool := none

/-- The inside of a bracketed class. -/
inductive ClassTree where
  | literal (c : Char)
  | range (low high : Char)
  | posix (negated : Bool)
  | shorthand (negated : Bool)
  | property (name : Text)
  | bracket (negated : Bool) (inner : ClassTree)
  | union (items : List ClassTree)
  /-- Intersection, difference or symmetric difference. -/
  | operation (left right : ClassTree)

/-- One item stands for itself. -/
def ClassTree.ofItems : List ClassTree → ClassTree
  | [t] => t
  | ts => .union ts

inductive Tree where
  | flags (f : Flags)
  | literal (c : Char)
  /-- A code point written as two hexadecimal digits. -/
  | byte (c : Char)
  | dot
  /-- A condition on a position. -/
  | assertion
  | shorthand (negated : Bool)
  | property (name : Text)
  | bracket (negated : Bool) (inner : ClassTree)
  | repetition (inner : Tree)
  | group (f : Flags) (inner : Tree)
  | alternation (branches : List Tree)
  | sequence (items : List Tree)

def Tree.ofItems : List Tree → Tree
  | [t] => t
  | ts => .sequence ts

mutual

/-- How many constructs lie around the innermost class item. -/
def ClassTree.depth : ClassTree → Nat
  | .bracket _ t => t.depth + 1
  | .union [] => 0
  | .union ts => ClassTree.depths ts + 1
  | .operation l r => max l.depth r.depth + 1
  | _ => 0

def ClassTree.depths : List ClassTree → Nat
  | [] => 0
  | t :: ts => max t.depth (ClassTree.depths ts)

end

mutual

/-- How many constructs lie around the innermost character. -/
def Tree.depth : Tree → Nat
  | .bracket _ t => t.depth + 1
  | .repetition t => t.depth + 1
  | .group _ t => t.depth + 1
  | .alternation ts => Tree.depths ts + 1
  | .sequence [] => 0
  | .sequence ts => Tree.depths ts + 1
  | _ => 0

def Tree.depths : List Tree → Nat
  | [] => 0
  | t :: ts => max t.depth (Tree.depths ts)

end

end Blocklist.Regex
