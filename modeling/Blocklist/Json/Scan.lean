import Blocklist.Text.Basic

/-! Reading JSON text from the left. Every reader takes the text from where it starts and gives back what is
left; the first fault met ends the reading. -/

namespace Blocklist.Json

/-- What was wrong with the text. -/
inductive Fault where
  /-- The text ends too early. -/
  | ended
  /-- The text is not JSON. -/
  | malformed
  /-- A value is not of the kind or in the range that is asked for. -/
  | unsuitable
deriving DecidableEq

/-- What the library has to say about a fault in a text, in its own words. -/
class Wording where
  reason (t : Text) (f : Fault) : Text

/-- The words where no library is given. -/
instance plainWording : Wording where
  reason
    | _, .ended => "unexpected end of text".toList
    | _, .malformed => "malformed text".toList
    | _, .unsuitable => "unsuitable value".toList

def isSpace (c : Char) : Bool := c == ' ' || c == '\t' || c == '\n' || c == '\r'

def skipSpace (t : Text) : Text := t.dropWhile isSpace

/-- Reads exactly these characters. -/
def word : Text → Text → Except Fault Text
  | [], t => .ok t
  | _ :: _, [] => .error .ended
  | c :: w, d :: t => if c = d then word w t else .error .malformed

/-- The UTF-16 unit with these four hexadecimal digits. -/
def unit? (a b c d : Char) : Option Nat := do
  some ((← hexValue? a) * 4096 + (← hexValue? b) * 256 + (← hexValue? c) * 16 + (← hexValue? d))

/-- The fault of an escape that is not followed by four characters: four bytes would be enough to see that
they are no digits. -/
def shortEscape (t : Text) : Fault := if t.byteLength < 4 then .ended else .malformed

def isHighSurrogate (n : Nat) : Bool := 0xD800 ≤ n && n ≤ 0xDBFF

def isLowSurrogate (n : Nat) : Bool := 0xDC00 ≤ n && n ≤ 0xDFFF

def surrogatePair (high low : Nat) : Char := Char.ofNat ((high - 0xD800) * 0x400 + (low - 0xDC00) + 0x10000)

/-- The character for a letter behind a backslash. -/
def simpleEscape? : Char → Option Char
  | '"' => some '"'
  | '\\' => some '\\'
  | '/' => some '/'
  | 'b' => some (Char.ofNat 8)
  | 'f' => some (Char.ofNat 12)
  | 'n' => some '\n'
  | 'r' => some '\r'
  | 't' => some '\t'
  | _ => none

def consTo (c : Char) (p : Except Fault (Text × Text)) : Except Fault (Text × Text) :=
  p.map fun (t, rest) => (c :: t, rest)

/-- Reads a string behind its opening quote. Surrogates have to come in pairs. -/
def stringRest : Text → Except Fault (Text × Text)
  | [] => .error .ended
  | '"' :: r => .ok ([], r)
  | '\\' :: 'u' :: a :: b :: c :: d :: r =>
    match unit? a b c d with
    | none => .error .malformed
    | some n =>
      if isLowSurrogate n then .error .malformed
      else if isHighSurrogate n then
        match r with
        | '\\' :: 'u' :: a :: b :: c :: d :: r =>
          match unit? a b c d with
          | none => .error .malformed
          | some m => if isLowSurrogate m then consTo (surrogatePair n m) (stringRest r) else .error .malformed
        | '\\' :: 'u' :: r => .error (shortEscape r)
        | [] | ['\\'] => .error .ended
        | _ => .error .malformed
      else consTo (Char.ofNat n) (stringRest r)
  | '\\' :: 'u' :: r => .error (shortEscape r)
  | ['\\'] => .error .ended
  | '\\' :: c :: r =>
    match simpleEscape? c with
    | some e => consTo e (stringRest r)
    | none => .error .malformed
  | c :: r => if c.toNat < 32 then .error .malformed else consTo c (stringRest r)

/-- Skips a string behind its opening quote. What its escapes stand for does not matter. -/
def skipStringRest : Text → Except Fault Text
  | [] => .error .ended
  | '"' :: r => .ok r
  | '\\' :: 'u' :: a :: b :: c :: d :: r =>
    match unit? a b c d with
    | none => .error .malformed
    | some _ => skipStringRest r
  | '\\' :: 'u' :: r => .error (shortEscape r)
  | ['\\'] => .error .ended
  | '\\' :: c :: r =>
    match simpleEscape? c with
    | some _ => skipStringRest r
    | none => .error .malformed
  | c :: r => if c.toNat < 32 then .error .malformed else skipStringRest r

/-- The colon behind a key. -/
def colon (t : Text) : Except Fault Text :=
  match skipSpace t with
  | ':' :: r => .ok r
  | [] => .error .ended
  | _ => .error .malformed

/-- Goes to the next item of a list: true and the text from the item on, or false and the text from the
closing bracket on. -/
def nextItem (first : Bool) (t : Text) : Except Fault (Bool × Text) :=
  match skipSpace t with
  | [] => .error .ended
  | ']' :: r => .ok (false, ']' :: r)
  | c :: r =>
    if first then .ok (true, c :: r)
    else if c = ',' then
      match skipSpace r with
      | [] => .error .ended
      | ']' :: _ => .error .malformed
      | r => .ok (true, r)
    else .error .malformed

/-- Goes to the next key of an object: true and the text behind its opening quote, or false and the text behind the
closing brace. -/
def nextKey (first : Bool) (t : Text) : Except Fault (Bool × Text) :=
  match skipSpace t with
  | [] => .error .ended
  | '\x7d' :: r => .ok (false, r)
  | c :: r =>
    if first then if c = '"' then .ok (true, r) else .error .malformed
    else if c = ',' then
      match skipSpace r with
      | [] => .error .ended
      | '"' :: r => .ok (true, r)
      | _ => .error .malformed
    else .error .malformed

/-- The closing bracket of a list. -/
def closeList (t : Text) : Except Fault Text :=
  match skipSpace t with
  | [] => .error .ended
  | ']' :: r => .ok r
  | _ => .error .malformed

/-- Reads the items of a list behind its opening bracket. Each item takes at least one character, so `rounds`
of them suffice for a text of that length. -/
def items (item : Text → Except Fault (α × Text)) :
    (rounds : Nat) → (first : Bool) → Text → Except Fault (List α × Text)
  | 0, _, _ => .error .ended
  | n + 1, first, t =>
    match nextItem first t with
    | .error f => .error f
    | .ok (false, r) => (closeList r).map fun rest => ([], rest)
    | .ok (true, r) =>
      match item r with
      | .error f => .error f
      | .ok (a, rest) => (items item n false rest).map fun (as, rest) => (a :: as, rest)

end Blocklist.Json
