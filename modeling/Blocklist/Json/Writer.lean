import Blocklist.Text.Basic

/-! JSON values and their indented text: two blanks a level, one member a line. -/

namespace Blocklist

inductive Json where
  | null
  | number (n : Nat)
  | string (t : Text)
  | array (items : List Json)
  | object (members : List (String × Json))

namespace Json

def hex (n : Nat) : Char := Nat.digitChar n

/-- Quotes, backslashes and control characters are escaped, all else is written as it is. -/
def escapeChar (c : Char) : Text :=
  match c with
  | '"' => ['\\', '"']
  | '\\' => ['\\', '\\']
  | '\n' => ['\\', 'n']
  | '\r' => ['\\', 'r']
  | '\t' => ['\\', 't']
  | c =>
    if c.toNat = 8 then ['\\', 'b']
    else if c.toNat = 12 then ['\\', 'f']
    else if c.toNat < 32 then ['\\', 'u', '0', '0', hex (c.toNat / 16), hex (c.toNat % 16)]
    else [c]

def quote (t : Text) : Text := '"' :: t.flatMap escapeChar ++ ['"']

def indent (level : Nat) : Text := '\n' :: List.replicate (2 * level) ' '

/-- Members between their brackets, each on a line of its own. -/
def enclose (level : Nat) (before after : Char) (members : List Text) : Text :=
  if members = [] then [before, after]
  else before :: [','].intercalate (members.map (indent (level + 1) ++ ·)) ++ indent level ++ [after]

mutual

/-- The text of a value that starts at this level. -/
def render (level : Nat) : Json → Text
  | .null => "null".toList
  | .number n => (Nat.repr n).toList
  | .string t => quote t
  | .array vs => enclose level '[' ']' (renderItems (level + 1) vs)
  | .object ms => enclose level '\x7b' '\x7d' (renderMembers (level + 1) ms)

def renderItems (level : Nat) : List Json → List Text
  | [] => []
  | v :: vs => render level v :: renderItems level vs

def renderMembers (level : Nat) : List (String × Json) → List Text
  | [] => []
  | (name, v) :: ms => (quote name.toList ++ ':' :: ' ' :: render level v) :: renderMembers level ms

end

def pretty (v : Json) : Text := render 0 v

/-- A member that is left out if there is nothing to say. -/
def member? (name : String) (v : Option Json) : List (String × Json) := (v.map fun v => (name, v)).toList

def texts (ts : List Text) : Json := .array (ts.map .string)

end Json

end Blocklist
