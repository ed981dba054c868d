import Blocklist.Log
import Blocklist.Pattern
import Blocklist.Rule.Basic

/-! Reduction of a rule list: equal rules once, in order of priority, hosts grouped, covered rules left out.
Each step counts what it took away.

Of equal rules the first stays, at the highest of their priorities. Rules that differ only in the host they
name become one rule about all those hosts, at the place of the first of them. A rule is covered if a wildcard
rule before it, with the same action and at least its scope, matches all the rule can match. -/

namespace Blocklist

structure Reduction where
  before : Nat
  rules : List Rule
  deduplicated : Nat
  /-- A group of `n` hosts counts `n - 1`. -/
  merged : Nat
  /-- The covered rules. -/
  covered : List Rule

namespace Reduction

/-- The higher of two priorities. -/
def higher (a b : UInt32) : UInt32 := if a.toNat < b.toNat then b else a

/-- Adds a rule, or lends its priority to the equal rule that is there already. -/
def absorb : List Rule → Rule → List Rule
  | [], r => [r]
  | k :: ks, r =>
    if k.key = r.key then { k with priority := higher k.priority r.priority } :: ks
    else k :: absorb ks r

def distinct (rules : List Rule) : List Rule := rules.foldl absorb []

/-- Higher priorities first; rules of equal priority stay in order. -/
def ranked (rules : List Rule) : List Rule :=
  rules.mergeSort fun a b => Nat.ble b.priority.toNat a.priority.toNat

/-- What rules about single hosts have to share to be one. -/
structure GroupKey where
  action : Action
  options : Options
  priority : UInt32
deriving DecidableEq

/-- The host and the group of a rule that may be grouped: its pattern is a host anchor. -/
def member? (r : Rule) : Option (Text × GroupKey) :=
  match r.body with
  | .network (.hostAnchor h) o => if isHostname h then some (h, ⟨r.action, o, r.priority⟩) else none
  | _ => none

def groupKey? (r : Rule) : Option GroupKey := (member? r).map Prod.snd

/-- The hosts of a group, in order. -/
def groupHosts (rules : List Rule) (k : GroupKey) : List Text :=
  rules.filterMap fun r =>
    match member? r with
    | some (h, k') => if k' = k then some h else none
    | none => none

/-- The rule for the whole group of `first`. A group of one stays as it is. -/
def groupRule (rules : List Rule) (k : GroupKey) (first : Rule) : Rule :=
  match groupHosts rules k with
  | h :: h' :: hs => { first with body := .network (.hostGroup (h :: h' :: hs)) k.options }
  | _ => first

/-- Goes through the rules; the groups in `done` have their rule already. -/
def groupFrom (all : List Rule) (done : List GroupKey) : List Rule → List Rule
  | [] => []
  | r :: rs =>
    match groupKey? r with
    | none => r :: groupFrom all done rs
    | some k =>
      if done.contains k then groupFrom all done rs
      else groupRule all k r :: groupFrom all (k :: done) rs

def grouped (rules : List Rule) : List Rule := groupFrom rules [] rules

/-- Characters that make a regular expression more than a text with dots. -/
def operators : List Char :=
  ['[', ']', '\x7b', '\x7d', '(', ')', '*', '+', '?', '^', '$', '|', '\\']

/-- Stands for the character a dot may match: no filter text holds it, so what matches it matches any. -/
def anyChar : Char := Char.ofNat 1

/-- The texts a cover has to match, or none if no cover can be shown. -/
def coverTexts? : Pattern → Option (List Text)
  | .wildcard _ => none
  | .regex t =>
    if t.any operators.contains then none else some [t.map fun c => if c = '.' then anyChar else c]
  | p => some p.texts

/-- The rules that stay and the rules that a rule before them covers. -/
structure Cleared where
  kept : List Rule
  covered : List Rule

variable [Regex.Library]

/-- The wildcard rule `w` covers `r`. It can only if the library takes its expression. -/
def covers (defaults : TypeSet) (w r : Rule) : Bool :=
  match w.body, r.body with
  | .network (.wildcard text) o, .network p q =>
    w.action == r.action && o.subsumes q defaults &&
      (coverTexts? p).any (·.all fun t => !t.contains '*' && Wildcard.occursIn text t) &&
      (Regex.Library.compile (Wildcard.regex text)).isOk
  | _, _ => false

/-- Goes through the rules; `kept` are those that stay so far, the last first. -/
def clearFrom (defaults : TypeSet) (kept : List Rule) : List Rule → Cleared
  | [] => ⟨kept.reverse, []⟩
  | r :: rs =>
    if kept.any fun w => covers defaults w r then
      let rest := clearFrom defaults kept rs
      { rest with covered := r :: rest.covered }
    else clearFrom defaults (r :: kept) rs

def clear (defaults : TypeSet) (rules : List Rule) : Cleared := clearFrom defaults [] rules

def ofRules (defaults : TypeSet) (rules : List Rule) : Reduction :=
  let unique := distinct rules
  let groups := grouped (ranked unique)
  let cleared := clear defaults groups
  { before := rules.length
    rules := cleared.kept
    deduplicated := rules.length - unique.length
    merged := unique.length - groups.length
    covered := cleared.covered }

def after (r : Reduction) : Nat := r.rules.length

def redundant (r : Reduction) : Nat := r.covered.length

def log (r : Reduction) : List Log.Entry :=
  r.covered.map (fun c => Log.trace s!"{c.place}: rule is covered by a broader wildcard") ++
    [Log.info s!"optimized {r.before} -> {r.after} rules (deduplicated {r.deduplicated}, merged {r.merged}, redundant {r.redundant})"]

end Reduction

end Blocklist
