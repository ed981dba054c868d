import Blocklist.Json.Number

/-! Values that are read only to be passed over, or to see that they are of the wrong kind. -/

namespace Blocklist.Json

/-- The fault of a value of the wrong kind. A word, number or string that cannot even be read has its own. -/
def mismatch (t : Text) : Fault :=
  let of {α : Type} (p : Except Fault α) : Fault :=
    match p with
    | .ok _ => .unsuitable
    | .error f => f
  match t with
  | [] => .ended
  | 'n' :: r => of (word "ull".toList r)
  | 't' :: r => of (word "rue".toList r)
  | 'f' :: r => of (word "alse".toList r)
  | '-' :: r => of (readNumber true r)
  | '"' :: r => of (stringRest r)
  | '[' :: _ | '\x7b' :: _ => .unsuitable
  | c :: r => if c.isDigit then of (readNumber false (c :: r)) else .malformed

inductive Enclosure where
  | list
  | object
deriving DecidableEq

/-- Where a skipped value stands. -/
inductive SkipState where
  /-- A value comes next. -/
  | value
  /-- A value or the end of the enclosing one comes next. -/
  | opened
  /-- A comma or the end of the enclosing value comes next. -/
  | after

/-- The key of an object member and its colon. -/
def skipKey (t : Text) : Except Fault Text :=
  match skipSpace t with
  | '"' :: r => do colon (← skipStringRest r)
  | [] => .error .ended
  | _ => .error .malformed

def isClosing (e : Enclosure) (c : Char) : Bool :=
  match e with
  | .list => c == ']'
  | .object => c == '\x7d'

/-- What stands before a member of the enclosing value. -/
def skipMemberStart (e : Enclosure) (t : Text) : Except Fault Text :=
  match e with
  | .list => .ok t
  | .object => skipKey t

/-- Skips a value with all it holds; `outer` are the values it lies in, the innermost first. Every second
round takes at least one character. -/
def skipFrom : (rounds : Nat) → SkipState → List Enclosure → Text → Except Fault Text
  | 0, _, _, _ => .error .ended
  | n + 1, .value, outer, t =>
    match skipSpace t with
    | [] => .error .ended
    | 'n' :: r => do skipFrom n .after outer (← word "ull".toList r)
    | 't' :: r => do skipFrom n .after outer (← word "rue".toList r)
    | 'f' :: r => do skipFrom n .after outer (← word "alse".toList r)
    | '-' :: r => do skipFrom n .after outer (← skipNumber r)
    | '"' :: r => do skipFrom n .after outer (← skipStringRest r)
    | '[' :: r => skipFrom n .opened (.list :: outer) r
    | '\x7b' :: r => skipFrom n .opened (.object :: outer) r
    | c :: r => if c.isDigit then do skipFrom n .after outer (← skipNumber (c :: r)) else .error .malformed
  | _ + 1, _, [], t => .ok t
  | n + 1, s, e :: outer, t =>
    match skipSpace t with
    | [] => .error .ended
    | c :: r =>
      if isClosing e c then skipFrom n .after outer r
      else
        match s with
        | .after =>
          if c = ',' then do skipFrom n .value (e :: outer) (← skipMemberStart e r) else .error .malformed
        | _ => do skipFrom n .value (e :: outer) (← skipMemberStart e (c :: r))

def skipValue (t : Text) : Except Fault Text := skipFrom (2 * t.length + 2) .value [] t

end Blocklist.Json
