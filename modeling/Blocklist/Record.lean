import Blocklist.Log
import Blocklist.Rule.Basic

/-! Records: network rules in the form the request engine takes. A field that says nothing is absent. The records
of a rule list are numbered from 1 on and cut into batches, pieces the engine takes at once. -/

namespace Blocklist

inductive RecordAction where
  | block
  | allow
deriving DecidableEq

/-- Whether a request goes to the site of the page or to another. -/
inductive Party where
  | first
  | third
deriving DecidableEq

structure Condition where
  urlFilter : Option Text := none
  regexFilter : Option Text := none
  requestDomains : Option (List Text) := none
  initiatorDomains : Option (List Text) := none
  excludedInitiatorDomains : Option (List Text) := none
  resourceTypes : Option (List ResourceType) := none
  party : Option Party := none
deriving DecidableEq

structure Record where
  id : UInt32
  priority : UInt32
  action : RecordAction
  condition : Condition
deriving DecidableEq

def Action.toRecord? : Action → Option RecordAction
  | .block => some .block
  | .allow => some .allow
  | .hide | .unhide => none

namespace Condition

def ofMatch : MatchCondition → Condition
  | .urlFilter t => { urlFilter := some t }
  | .regexFilter t => { regexFilter := some t }
  | .requestDomains hs => { requestDomains := some hs }

/-- The names of a set, unless it is empty. -/
def namesIn (s : NameSet) : Option (List Text) := if s.isEmpty then none else some s.names

def ofNetwork (p : Pattern) (o : Options) (types : TypeSet) : Condition :=
  { ofMatch p.condition with
    initiatorDomains := namesIn o.initiators.included
    excludedInitiatorDomains := namesIn o.initiators.excluded
    resourceTypes := some types.toList
    party := o.thirdParty.map fun third => if third then .third else .first }

end Condition

namespace Record

/-- The record of a rule. Only network rules that block or allow have one, and only if some resource type is
left for them. -/
def ofRule? (defaults : TypeSet) (id : UInt32) (r : Rule) : Option Record :=
  match r.body, r.action.toRecord? with
  | .network p o, some action =>
    let types := o.effectiveTypes defaults
    if types.isEmpty then none else some ⟨id, r.priority, action, Condition.ofNetwork p o types⟩
  | _, _ => none

/-- The rule would have a record if it did not exclude every resource type. -/
def excludesAll (defaults : TypeSet) (r : Rule) : Bool :=
  match r.body, r.action.toRecord? with
  | .network _ o, some _ => (o.effectiveTypes defaults).isEmpty
  | _, _ => false

def ruleLog (defaults : TypeSet) (r : Rule) : List Log.Entry :=
  if excludesAll defaults r then [Log.debug s!"{r.place}: rule excludes every resource type"] else []

end Record

structure Batch where
  index : Nat
  records : List Record
deriving DecidableEq

namespace Batch

/-- As many records as the engine takes at once. -/
def defaultSize : Nat := 5000

/-- The types of rules that say nothing about types. -/
def defaultTypes : TypeSet :=
  .ofList [.subFrame, .stylesheet, .script, .image, .xmlHttpRequest, .media]

/-- The records of the rules, numbered from `id` on. -/
def recordsFrom (defaults : TypeSet) (id : UInt32) : List Rule → List Record
  | [] => []
  | r :: rs =>
    match Record.ofRule? defaults id r with
    | some rec => rec :: recordsFrom defaults (id + 1) rs
    | none => recordsFrom defaults id rs

/-- Pieces of `size + 1` elements, the last of them perhaps shorter. -/
def pieces (size : Nat) (xs : List α) : List (List α) :=
  if h : xs = [] then [] else xs.take (size + 1) :: pieces size (xs.drop (size + 1))
termination_by xs.length
decreasing_by
  have := List.length_pos_iff.mpr h
  simp only [List.length_drop]
  omega

def numberFrom (n : Nat) : List (List Record) → List Batch
  | [] => []
  | p :: ps => ⟨n, p⟩ :: numberFrom (n + 1) ps

/-- The batches of a rule list. A size of zero counts as one. -/
def ofRules (defaults : TypeSet) (size : Nat) (rules : List Rule) : List Batch :=
  numberFrom 0 (pieces (size - 1) (recordsFrom defaults 1 rules))

def recordCount (bs : List Batch) : Nat := (bs.flatMap records).length

def log (defaults : TypeSet) (rules : List Rule) (bs : List Batch) : List Log.Entry :=
  rules.flatMap (Record.ruleLog defaults) ++
    [Log.info s!"emitted {recordCount bs} rules in {bs.length} batches"]

end Batch

end Blocklist
