import Blocklist.Options
import Blocklist.Pattern

/-! Rules. What a rule does is its action and its body; where it was read and how it ranks do not make it
another rule. -/

namespace Blocklist

inductive Action where
  | block
  | allow
  | hide
  | unhide
deriving DecidableEq

/-- Elements of a page: a selector and the pages it applies to. -/
structure Target where
  selector : Text
  pages : Scope := {}
deriving DecidableEq

inductive Body where
  /-- A request to an address that matches the pattern, under the options. -/
  | network (pattern : Pattern) (options : Options)
  /-- Elements a style sheet can name. -/
  | cosmetic (target : Target)
  /-- Elements only a program can find. -/
  | procedural (target : Target)
deriving DecidableEq

/-- What a rule does. -/
structure Rule.Key where
  action : Action
  body : Body
deriving DecidableEq

structure Rule where
  action : Action
  body : Body
  /-- Of two rules about the same request the one with the higher priority decides. -/
  priority : UInt32 := 1
  /-- The list the rule was read from. -/
  source : Text
  /-- The line in that list, counted from 1. -/
  line : Nat
deriving DecidableEq

namespace Rule

def key (r : Rule) : Key := ⟨r.action, r.body⟩

/-- Two rules do the same. -/
def same (r s : Rule) : Bool := r.key == s.key

def isNetwork (r : Rule) : Bool :=
  match r.body with
  | .network .. => true
  | _ => false

/-- The host a network rule names, if its pattern names one. -/
def host? (r : Rule) : Option Text :=
  match r.body with
  | .network p _ => p.host?
  | _ => none

/-- Where the rule was read, as log lines show it. -/
def place (r : Rule) : String := s!"{r.source.str}:{r.line}"

end Rule

namespace Priority

def base : UInt32 := 1

/-- The rank of the exceptions made for allowed sites. -/
def allowedSite : UInt32 := 10000

/-- The rank of a network rule: exceptions above blocks, then important rules, then those limited to some
pages, then those limited to one resource type. -/
def ofNetwork (a : Action) (o : Options) : UInt32 :=
  base + (if a = .allow then 10000 else 0) + (if o.important then 1000 else 0) +
    (if o.initiators.included.isEmpty then 0 else 100) + (if o.types.size = 1 then 10 else 0)

end Priority

end Blocklist
