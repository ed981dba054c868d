/-! Text as the list of its code points, and the cuts that the grammars of filter lists are made of. Each
cut is a recursion on the text, so what it does to a longer text follows by induction.

Blank characters are the code points with the Unicode property White_Space: trimming a line, an option or a
selector, and the verbose mode of regular expressions, all mean these. A line feed ends a line, together with
one carriage return right before it; a carriage return elsewhere is an ordinary character, and nothing after
the last line feed is no line. -/

namespace Blocklist

/-- The ranges of White_Space, in increasing order. -/
def blankRanges : List (Nat × Nat) :=
  [(0x09, 0x0D), (0x20, 0x20), (0x85, 0x85), (0xA0, 0xA0), (0x1680, 0x1680), (0x2000, 0x200A),
   (0x2028, 0x2029), (0x202F, 0x202F), (0x205F, 0x205F), (0x3000, 0x3000)]

def isBlank (c : Char) : Bool :=
  blankRanges.any fun r => r.1 ≤ c.toNat && c.toNat ≤ r.2

/-- The value of a hexadecimal digit. -/
def hexValue? (c : Char) : Option Nat :=
  let n := c.toNat
  if 48 ≤ n ∧ n ≤ 57 then some (n - 48)
  else if 97 ≤ n ∧ n ≤ 102 then some (n - 87)
  else if 65 ≤ n ∧ n ≤ 70 then some (n - 55)
  else none

/-- Text is the list of its code points. -/
abbrev Text := List Char

namespace Text

/-- The same text as a `String`, for messages and files. -/
def str (t : Text) : String := String.ofList t

/-- The pieces between the characters that satisfy `p`. There is always at least one. -/
def splitWhen (p : Char → Bool) : Text → List Text
  | [] => [[]]
  | c :: r =>
    if p c then [] :: splitWhen p r
    else
      match splitWhen p r with
      | [] => [[c]]
      | w :: ws => (c :: w) :: ws

def splitOn (sep : Char) (t : Text) : List Text := splitWhen (· == sep) t

/-- What stands before and after the first occurrence of `mark`. -/
def cut (mark : Text) : Text → Option (Text × Text)
  | [] => if mark = [] then some ([], []) else none
  | c :: r =>
    match mark.isPrefixOf? (c :: r) with
    | some rest => some ([], rest)
    | none => (cut mark r).map fun p => (c :: p.1, p.2)

def occurs (mark t : Text) : Bool := (cut mark t).isSome

/-- Drops the characters that satisfy `p` at both ends. -/
def trimWhen (p : Char → Bool) (t : Text) : Text :=
  ((t.dropWhile p).reverse.dropWhile p).reverse

def trim (t : Text) : Text := trimWhen isBlank t

/-- ASCII capitals become small letters, all else stays. -/
def lower (t : Text) : Text := t.map Char.toLower

/-- Drops one final carriage return. -/
def dropReturn (t : Text) : Text := (['\r'].isSuffixOf? t).getD t

/-- The lines, given the pieces between line feeds: each piece but the last was ended by a line feed. -/
def linesOfPieces : List Text → List Text
  | [] => []
  | [last] => if last = [] then [] else [last]
  | t :: rest => dropReturn t :: linesOfPieces rest

def lines (t : Text) : List Text := linesOfPieces (splitOn '\n' t)

/-- The UTF-8 encoding. -/
def utf8 (t : Text) : List UInt8 := t.flatMap String.utf8EncodeChar

/-- Length in UTF-8 bytes. -/
def byteLength (t : Text) : Nat := t.utf8.length

end Text

end Blocklist
