import Blocklist.Json.Scan

/-! Numbers in JSON text. A natural number below 2^64 is read exactly. Of any other number it only matters
whether a double can hold it, since a number that is too large for one is malformed. -/

namespace Blocklist.Json

inductive Number where
  | natural (n : Nat)
  /-- Negative, too large, or written with a fraction or an exponent. -/
  | other
deriving DecidableEq

def digitValue (c : Char) : Nat := c.toNat - '0'.toNat

def digits (t : Text) : Text × Text := (t.takeWhile Char.isDigit, t.dropWhile Char.isDigit)

/-- The largest number of 64 bits. -/
def maxWord : Nat := 0xFFFFFFFFFFFFFFFF

/-- Appends the digits to a number as long as 64 bits can hold it, with the number of digits that were
dropped. -/
def appendDigits (n : Nat) : Text → Nat × Nat
  | [] => (n, 0)
  | d :: ds => if maxWord < 10 * n + digitValue d then (n, ds.length + 1) else appendDigits (10 * n + digitValue d) ds

/-- The nearest number of 53 significant bits, the even one of two. -/
def roundDouble (n : Nat) : Nat :=
  let extra := n.log2 + 1 - 53
  if extra = 0 then n
  else
    let q := n >>> extra
    let r := n - q <<< extra
    let half := 1 <<< (extra - 1)
    if half < r ∨ (r = half ∧ q % 2 = 1) then (q + 1) <<< extra else q <<< extra

/-- Half a unit above the largest double: from here on doubles are infinite. -/
def infinityBound : Nat := (1 <<< 54 - 1) <<< 970

/-- The double nearest to `significand * 10 ^ exponent` is infinite, the two factors being rounded first. -/
def isTooLarge (significand : Nat) (exponent : Int) : Bool :=
  match exponent with
  | .ofNat e =>
    if e ≤ 308 then infinityBound ≤ roundDouble significand * roundDouble (Nat.pow 10 e) else significand != 0
  | .negSucc _ => false

/-- The digits of a fraction, behind its point. -/
def fraction (t : Text) : Except Fault (Text × Text) :=
  match digits t with
  | ([], []) => .error .ended
  | ([], _) => .error .malformed
  | p => .ok p

/-- The value of an exponent, behind its letter. -/
def exponent (t : Text) : Except Fault (Int × Text) :=
  let (negative, t) := match t with
    | '+' :: r => (false, r)
    | '-' :: r => (true, r)
    | r => (false, r)
  match digits t with
  | ([], []) => .error .ended
  | ([], _) => .error .malformed
  | (ds, rest) =>
    let e : Int := ds.foldl (fun n d => 10 * n + digitValue d) 0
    .ok (if negative then -e else e, rest)

def isExponentMark (c : Char) : Bool := c == 'e' || c == 'E'

/-- The digits before the point. A zero stands alone. -/
def wholeDigits (t : Text) : Except Fault (Text × Text) :=
  match t with
  | [] => .error .ended
  | '0' :: c :: r => if c.isDigit then .error .malformed else .ok (['0'], c :: r)
  | _ =>
    match digits t with
    | ([], _) => .error .malformed
    | p => .ok p

/-- Reads a number, behind its sign if it has one. -/
def readNumber (negative : Bool) (t : Text) : Except Fault (Number × Text) := do
  let (whole, rest) ← wholeDigits t
  let (n, dropped) := appendDigits 0 whole
  let (n, scale, rest, plain) ←
    match rest with
    | '.' :: r => do
      let (ds, rest) ← fraction r
      let (n, ignored) := appendDigits n ds
      .ok (n, (dropped : Int) - (ds.length - ignored : Nat), rest, false)
    | r => .ok (n, (dropped : Int), r, dropped == 0)
  let (scale, rest, plain) ←
    match rest with
    | c :: r =>
      if isExponentMark c then do
        let (e, rest) ← exponent r
        .ok (scale + e, rest, false)
      else .ok (scale, c :: r, plain)
    | [] => .ok (scale, [], plain)
  if plain then .ok (if negative then .other else .natural n, rest)
  else if isTooLarge n scale then .error .malformed
  else .ok (.other, rest)

/-- Skips a number, behind its sign if it has one. However large it is, and even if the text ends in it, only
its form is looked at. -/
def skipNumber (t : Text) : Except Fault Text := do
  let form {α : Type} (p : Except Fault (α × Text)) : Except Fault Text :=
    match p with
    | .ok (_, rest) => .ok rest
    | .error _ => .error .malformed
  let rest ← form (wholeDigits t)
  let rest ←
    match rest with
    | '.' :: r => form (fraction r)
    | r => .ok r
  match rest with
  | c :: r => if isExponentMark c then form (exponent r) else .ok (c :: r)
  | [] => .ok []

end Blocklist.Json
