import Blocklist.Text.Basic

/-! Patterns: what a network filter says about the address of a request. The written form decides the kind of
pattern by its first and last characters, then by the characters in it. A host name is labels of ASCII
letters, digits and hyphens, joined by single dots. In a wildcard pattern a star stands for any characters of one
line; the pieces between the stars have to occur in order, anywhere in the text. The same condition is also
written as a regular expression. -/

namespace Blocklist

def isHostChar (c : Char) : Bool := c.isAlphanum || c == '.' || c == '-'

/-- No dot at either end, no two dots in a row, and only host characters. -/
def isHostname (t : Text) : Bool :=
  !t.isEmpty && t.head? != some '.' && t.getLast? != some '.' && !Text.occurs ['.', '.'] t && t.all isHostChar

/-- What follows each dot of the host: the domains above it. -/
def parentDomains : Text → List Text
  | [] => []
  | c :: r => if c = '.' then r :: parentDomains r else parentDomains r

inductive Pattern where
  /-- `||host^`: the host or one below it, up to a separator. -/
  | hostAnchor (host : Text)
  /-- `||host`: an address whose host starts a label with this. -/
  | hostStart (host : Text)
  /-- `|text`: the address starts with the text. -/
  | startAnchor (text : Text)
  /-- `text|`: the address ends with the text. -/
  | endAnchor (text : Text)
  /-- A text with stars. -/
  | wildcard (text : Text)
  /-- A regular expression. -/
  | regex (text : Text)
  /-- The text occurs in the address. -/
  | substring (text : Text)
  /-- Any of several hosts or one below them. -/
  | hostGroup (hosts : List Text)
deriving DecidableEq

/-- The library that compiles regular expressions. One that it refuses comes back with its reason, in its own
words. -/
class Regex.Library where
  compile (expression : Text) : Except Text Unit

/-- What the request engine is given for a pattern. -/
inductive MatchCondition where
  | urlFilter (filter : Text)
  | regexFilter (filter : Text)
  | requestDomains (hosts : List Text)
deriving DecidableEq

namespace Pattern

/-- Characters that make a text a regular expression. -/
def metacharacters : List Char :=
  ['[', ']', '\x7b', '\x7d', '(', ')', '.', '*', '+', '?', '^', '$', '|']

/-- A text with a metacharacter and no star is taken for a regular expression. -/
def looksLikeRegex (t : Text) : Bool := t.any metacharacters.contains && !t.contains '*'

/-- The written form of a pattern without anchors. -/
def ofUnanchored (t : Text) : Pattern :=
  if t.contains '*' then .wildcard t else if looksLikeRegex t then .regex t else .substring t

/-- Reads the written form. Hosts are put in small letters; every text is some pattern. -/
def ofText (t : Text) : Pattern :=
  match ['|', '|'].isPrefixOf? t with
  | some rest =>
    match ['^'].isSuffixOf? rest with
    | some host => .hostAnchor (Text.lower host)
    | none => .hostStart (Text.lower rest)
  | none =>
    match ['|'].isPrefixOf? t with
    | some rest => .startAnchor rest
    | none =>
      match ['|'].isSuffixOf? t with
      | some rest => .endAnchor rest
      | none => ofUnanchored t

def anchorText (host : Text) : Text := ['|', '|'] ++ host ++ ['^']

/-- The written forms: one, or one for each host of a group. -/
def texts : Pattern → List Text
  | .hostAnchor h => [anchorText h]
  | .hostStart h => [['|', '|'] ++ h]
  | .startAnchor t => ['|' :: t]
  | .endAnchor t => [t ++ ['|']]
  | .wildcard t | .regex t | .substring t => [t]
  | .hostGroup hs => hs.map anchorText

def isWildcard : Pattern → Bool
  | .wildcard _ => true
  | _ => false

/-- The host named after `||`, if that text is a host name. -/
def host? : Pattern → Option Text
  | .hostAnchor h | .hostStart h => if isHostname h then some h else none
  | _ => none

/-- A named host becomes a request domain; any other anchor keeps its written form. -/
def condition : Pattern → MatchCondition
  | .hostAnchor h => if isHostname h then .requestDomains [h] else .urlFilter (anchorText h)
  | .hostStart h => if isHostname h then .requestDomains [h] else .urlFilter (['|', '|'] ++ h)
  | .hostGroup hs => .requestDomains hs
  | .startAnchor t => .urlFilter ('|' :: t)
  | .endAnchor t => .urlFilter (t ++ ['|'])
  | .wildcard t => .urlFilter t
  | .substring t => .urlFilter ('*' :: t ++ ['*'])
  | .regex t => .regexFilter t

end Pattern

namespace Wildcard

/-- The characters with a meaning of their own in a regular expression. -/
def specials : List Char :=
  ['.', '*', '+', '?', '^', '$', '\x7b', '\x7d', '(', ')', '|', '[', ']', '\\']

def escapeChar (c : Char) : Text := if specials.contains c then ['\\', c] else [c]

/-- The regular expression that matches exactly this text. -/
def escape (t : Text) : Text := t.flatMap escapeChar

/-- The pieces between the stars. -/
def pieces (w : Text) : List Text := Text.splitOn '*' w

/-- The regular expression for a wildcard pattern: its pieces, with `.*` for each star. -/
def regex (w : Text) : Text := ['.', '*'].intercalate ((pieces w).map escape)

/-- What follows the first occurrence of `piece` that starts on the current line. -/
def afterFirst (piece : Text) : Text → Option Text
  | [] => if piece = [] then some [] else none
  | c :: r =>
    match piece.isPrefixOf? (c :: r) with
    | some rest => some rest
    | none => if c = '\n' then none else afterFirst piece r

/-- The pieces occur in order, with no line feed between them. Taking the first occurrence is enough: a later
one leaves less text, and a piece with a line feed in it has no later one that starts on the same line. -/
def follow : List Text → Text → Bool
  | [], _ => true
  | p :: ps, t =>
    match afterFirst p t with
    | some rest => follow ps rest
    | none => false

/-- The first piece stands at the start and the others follow. -/
def matchesHere (ps : List Text) (t : Text) : Bool :=
  match ps with
  | [] => true
  | p :: ps =>
    match p.isPrefixOf? t with
    | some rest => follow ps rest
    | none => false

/-- The pieces occur in order from some place on. -/
def matchesFrom (ps : List Text) : Text → Bool
  | [] => matchesHere ps []
  | c :: r => matchesHere ps (c :: r) || matchesFrom ps r

/-- The pattern `w` occurs in `t`. -/
def occursIn (w t : Text) : Bool := matchesFrom (pieces w) t

end Wildcard

end Blocklist
