import Blocklist.Regex.Syntax

/-! Escapes of regular expressions: what may follow a backslash. The readers take the text behind the part
already read and give back what is left. In verbose mode blanks and comments are skipped between any two parts,
even between the digits of a number; otherwise they are characters like any other. -/

namespace Blocklist.Regex

/-- Skips blanks, and comments from a hash to the end of its line; `comment` says that one has begun. -/
def skipVerbose (comment : Bool) : Text → Text
  | [] => []
  | c :: r =>
    if comment then skipVerbose (c != '\n') r
    else if isBlank c then skipVerbose false r
    else if c == '#' then skipVerbose true r
    else c :: r

def skip (verbose : Bool) (t : Text) : Text := if verbose then skipVerbose false t else t

/-- The longest run of characters that satisfy `p`, what is skipped between them apart, and the rest. -/
def run (p : Char → Bool) (verbose comment : Bool) : Text → Text × Text
  | [] => ([], [])
  | c :: r =>
    if comment then run p verbose (c != '\n') r
    else if verbose && isBlank c then run p verbose false r
    else if verbose && c == '#' then run p verbose true r
    else if p c then
      let (cs, rest) := run p verbose false r
      (c :: cs, rest)
    else ([], c :: r)

/-- The next character in a class once blanks are skipped. The look ahead passes a hash, but not the comment
it begins. -/
def peek (verbose : Bool) (t : Text) : Option Char :=
  if verbose then
    match t.dropWhile isBlank with
    | '#' :: r => (r.dropWhile isBlank).head?
    | r => r.head?
  else t.head?

/-- The code point with these hexadecimal digits; surrogates are none. -/
def codePoint? (digits : Text) : Option Char := do
  let values ← digits.mapM hexValue?
  let n := values.foldl (fun n d => 16 * n + d) 0
  if digits ≠ [] ∧ n.isValidChar then some (Char.ofNat n) else none

/-- Reads up to a closing brace. -/
def braced (verbose : Bool) (t : Text) : Except Fault (Text × Text) :=
  match run (· != '\x7d') verbose false t with
  | (inner, '\x7d' :: rest) => .ok (inner, rest)
  | _ => .error .unfinishedEscape

/-- Reads `n` hexadecimal digits. -/
def hexDigits (verbose : Bool) : Nat → Text → Except Fault (Text × Text)
  | 0, t => .ok ([], t)
  | n + 1, t =>
    match skip verbose t with
    | [] => .error .unfinishedEscape
    | c :: r => do
      let (ds, rest) ← hexDigits verbose n r
      .ok (c :: ds, rest)

/-- A code point by number: `n` digits, or any number of them in braces. -/
def hexEscape (verbose : Bool) (n : Nat) (t : Text) : Except Fault (Char × Text) := do
  let (digits, rest) ←
    match skip verbose t with
    | [] => .error .unfinishedEscape
    | '\x7b' :: r => braced verbose r
    | r => hexDigits verbose n r
  match codePoint? digits with
  | some c => .ok (c, rest)
  | none => .error .badCodePoint

/-- A Unicode property: one letter, or a name in braces. -/
def propertyEscape (verbose : Bool) (t : Text) : Except Fault (Tree × Text) :=
  match skip verbose t with
  | [] => .error .unfinishedEscape
  | '\x7b' :: r => do
    let (name, rest) ← braced verbose r
    .ok (.property name, rest)
  | '\\' :: _ => .error .unknownProperty
  | c :: r => .ok (.property [c], r)

def boundaryNames : List String := ["start", "end", "start-half", "end-half"]

/-- A word boundary may have its kind in braces. Braces that hold no word are left to be a repetition. -/
def boundaryEscape (verbose : Bool) (t : Text) : Except Fault (Tree × Text) :=
  match t with
  | '\x7b' :: r =>
    match skip verbose r with
    | [] => .error .badBoundary
    | c :: r' =>
      if c.isAlpha || c == '-' then
        match run (fun c => c.isAlpha || c == '-') verbose false (c :: r') with
        | (name, '\x7d' :: rest) =>
          if boundaryNames.contains (Text.str name) then .ok (.assertion, rest) else .error .badBoundary
        | _ => .error .badBoundary
      else .ok (.assertion, t)
  | _ => .ok (.assertion, t)

/-- Reads what follows a backslash. ASCII characters that are neither letters nor digits may always be
escaped, the two angle brackets being word boundaries. -/
def escape (verbose : Bool) : Text → Except Fault (Tree × Text)
  | [] => .error .unfinishedEscape
  | c :: r =>
    if c.isDigit then .error .backreference
    else
      match c with
      | 'x' => do
        let (c, rest) ← hexEscape verbose 2 r
        match skip verbose r with
        | '\x7b' :: _ => .ok (.literal c, rest)
        | _ => .ok (.byte c, rest)
      | 'u' => (hexEscape verbose 4 r).map fun p => (.literal p.1, p.2)
      | 'U' => (hexEscape verbose 8 r).map fun p => (.literal p.1, p.2)
      | 'p' | 'P' => propertyEscape verbose r
      | 'd' | 's' | 'w' => .ok (.shorthand false, r)
      | 'D' | 'S' | 'W' => .ok (.shorthand true, r)
      | 'a' => .ok (.literal (Char.ofNat 0x07), r)
      | 'f' => .ok (.literal (Char.ofNat 0x0C), r)
      | 't' => .ok (.literal '\t', r)
      | 'n' => .ok (.literal '\n', r)
      | 'r' => .ok (.literal '\r', r)
      | 'v' => .ok (.literal (Char.ofNat 0x0B), r)
      | 'A' | 'z' | 'B' | '<' | '>' => .ok (.assertion, r)
      | 'b' => boundaryEscape verbose r
      | c => if c.toNat < 128 && !c.isAlpha then .ok (.literal c, r) else .error .unknownEscape

end Blocklist.Regex
