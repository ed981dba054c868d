import Blocklist.Pattern
import Blocklist.Regex.Property
import Blocklist.Regex.Reader

/-! Admissible regular expressions: those that can be read, do not nest too deeply, name known properties, and
cannot match text that is not UTF-8. The last is only at stake where Unicode mode has been switched off. With
these the program runs where no library is given. -/

namespace Blocklist.Regex

/-- Constructs may lie this deep inside each other. -/
def maxDepth : Nat := 250

def refuse (bad : Bool) (f : Fault) : Except Fault Unit := if bad then .error f else .ok ()

def checkProperty (unicode : Bool) (name : Text) : Except Fault Unit := do
  refuse (!unicode) .needsUnicode
  refuse (!Property.admits name) .unknownProperty

mutual

/-- Without Unicode mode a class is a set of ASCII characters. -/
def ClassTree.check (unicode : Bool) : ClassTree → Except Fault Unit
  | .literal c => refuse (!unicode && c.toNat ≥ 128) .needsUnicode
  | .range l h => refuse (!unicode && (l.toNat ≥ 128 || h.toNat ≥ 128)) .needsUnicode
  | .posix negated | .shorthand negated => refuse (!unicode && negated) .brokenEncoding
  | .property name => checkProperty unicode name
  | .bracket negated t => do
    t.check unicode
    refuse (!unicode && negated) .brokenEncoding
  | .union ts => ClassTree.checkAll unicode ts
  | .operation l r => do
    l.check unicode
    r.check unicode

def ClassTree.checkAll (unicode : Bool) : List ClassTree → Except Fault Unit
  | [] => .ok ()
  | t :: ts => do
    t.check unicode
    ClassTree.checkAll unicode ts

end

mutual

/-- Checks a tree in the given mode; the result is the mode for what follows it in its group. -/
def Tree.check (unicode : Bool) : Tree → Except Fault Bool
  | .flags f => .ok (f.unicode.getD unicode)
  | .literal _ | .assertion => .ok unicode
  | .byte c => (refuse (!unicode && c.toNat ≥ 128) .brokenEncoding).map fun _ => unicode
  | .dot => (refuse (!unicode) .brokenEncoding).map fun _ => unicode
  | .shorthand negated => (refuse (!unicode && negated) .brokenEncoding).map fun _ => unicode
  | .property name => (checkProperty unicode name).map fun _ => unicode
  | .bracket negated t => do
    t.check unicode
    refuse (!unicode && negated) .brokenEncoding
    .ok unicode
  | .repetition t => t.check unicode
  | .group f t => do
    discard (t.check (f.unicode.getD unicode))
    .ok unicode
  | .alternation ts | .sequence ts => Tree.checkAll unicode ts

def Tree.checkAll (unicode : Bool) : List Tree → Except Fault Bool
  | [] => .ok unicode
  | t :: ts => do
    let unicode ← t.check unicode
    Tree.checkAll unicode ts

end

def accept (t : Text) : Except Fault Unit := do
  let tree ← read t
  refuse (tree.depth > maxDepth) .tooDeep
  discard (tree.check true)

/-- Words for a fault where no library gives its own. -/
def Fault.message : Fault → String
  | .unclosedGroup => "unclosed group"
  | .unopenedGroup => "unopened group"
  | .emptyGroupName => "empty capture group name"
  | .badGroupName => "invalid capture group name"
  | .repeatedGroupName => "duplicate capture group name"
  | .lookAround => "look-around is not supported"
  | .unfinishedFlags => "flags end too early"
  | .unknownFlag => "unrecognized flag"
  | .repeatedFlag => "duplicate flag"
  | .danglingNegation => "dangling flag negation operator"
  | .nothingToRepeat => "repetition operator missing expression"
  | .badRepetition => "invalid repetition count"
  | .unfinishedEscape => "incomplete escape sequence"
  | .unknownEscape => "unrecognized escape sequence"
  | .backreference => "backreferences are not supported"
  | .badCodePoint => "invalid hexadecimal code point"
  | .badBoundary => "invalid special word boundary assertion"
  | .unclosedClass => "unclosed character class"
  | .badClassMember => "invalid escape sequence in character class"
  | .badRange => "invalid character class range"
  | .unknownProperty => "Unicode property not found"
  | .needsUnicode => "Unicode not allowed here"
  | .brokenEncoding => "pattern can match invalid UTF-8"
  | .tooDeep => "nesting is too deep"

/-- The grammar in place of a library, which may have limits and words of its own. -/
instance grammar : Library where
  compile t := (accept t).mapError fun f => f.message.toList

end Blocklist.Regex
