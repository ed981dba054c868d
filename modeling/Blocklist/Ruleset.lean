import Blocklist.Json.Writer
import Blocklist.Record

/-! The result of a compilation, and the JSON document that holds it. Beside the batches of records it has the
element rules, collected for the program that runs in the page. -/

namespace Blocklist

structure ElementEntry where
  selector : Text
  pages : List Text
  excludedPages : List Text
deriving DecidableEq

def Target.entry (t : Target) : ElementEntry :=
  ⟨t.selector, t.pages.included.names, t.pages.excluded.names⟩

/-- Element rules by what they do, each kind in the order of the rules. -/
structure CosmeticBundle where
  hide : List ElementEntry
  unhide : List ElementEntry
  procedural : List ElementEntry
deriving DecidableEq

namespace CosmeticBundle

def hidden? (r : Rule) : Option ElementEntry :=
  match r.body, r.action with
  | .cosmetic _, .unhide => none
  | .cosmetic t, _ => some t.entry
  | _, _ => none

def unhidden? (r : Rule) : Option ElementEntry :=
  match r.body, r.action with
  | .cosmetic t, .unhide => some t.entry
  | _, _ => none

def procedural? (r : Rule) : Option ElementEntry :=
  match r.body with
  | .procedural t => some t.entry
  | _ => none

def ofRules (rules : List Rule) : CosmeticBundle :=
  ⟨rules.filterMap hidden?, rules.filterMap unhidden?, rules.filterMap procedural?⟩

def size (b : CosmeticBundle) : Nat := b.hide.length + b.unhide.length + b.procedural.length

end CosmeticBundle

/-- How many rules each step took in or took away. -/
structure Stats where
  parsed : Nat
  invalid : Nat
  /-- Block rules against allowed sites. -/
  stripped : Nat
  deduplicated : Nat
  merged : Nat
  redundant : Nat
  /-- Network rules over the limit. -/
  truncated : Nat
  /-- Records and element entries. -/
  finalCount : Nat
deriving DecidableEq

structure Ruleset where
  batches : List Batch
  cosmetic : CosmeticBundle
  stats : Stats
  fingerprint : Text
deriving DecidableEq

def ResourceType.json (r : ResourceType) : Json := .string r.name.toList

def Condition.json (c : Condition) : Json :=
  .object
    (Json.member? "urlFilter" (c.urlFilter.map .string) ++
      Json.member? "regexFilter" (c.regexFilter.map .string) ++
      Json.member? "requestDomains" (c.requestDomains.map Json.texts) ++
      Json.member? "initiatorDomains" (c.initiatorDomains.map Json.texts) ++
      Json.member? "excludedInitiatorDomains" (c.excludedInitiatorDomains.map Json.texts) ++
      Json.member? "resourceTypes" (c.resourceTypes.map fun rs => .array (rs.map ResourceType.json)) ++
      Json.member? "domainType" (c.party.map fun
        | .first => .string "firstParty".toList
        | .third => .string "thirdParty".toList))

def RecordAction.json : RecordAction → Json
  | .block => .string "block".toList
  | .allow => .string "allow".toList

def Record.json (r : Record) : Json :=
  .object [("id", .number r.id.toNat), ("priority", .number r.priority.toNat), ("action", r.action.json),
    ("condition", r.condition.json)]

def Batch.json (b : Batch) : Json :=
  .object [("index", .number b.index), ("rules", .array (b.records.map Record.json))]

/-- A list that is left out if it is empty. -/
def ElementEntry.pagesJson (pages : List Text) : Option Json :=
  if pages.isEmpty then none else some (Json.texts pages)

def ElementEntry.json (e : ElementEntry) : Json :=
  .object (("selector", .string e.selector) :: Json.member? "domains" (pagesJson e.pages) ++
    Json.member? "excluded_domains" (pagesJson e.excludedPages))

def CosmeticBundle.json (b : CosmeticBundle) : Json :=
  .object [("hide", .array (b.hide.map ElementEntry.json)), ("unhide", .array (b.unhide.map ElementEntry.json)),
    ("procedural", .array (b.procedural.map ElementEntry.json))]

def Stats.json (s : Stats) : Json :=
  .object [("parsed", .number s.parsed), ("invalid", .number s.invalid), ("whitelisted", .number s.stripped),
    ("deduplicated", .number s.deduplicated), ("merged", .number s.merged), ("redundant", .number s.redundant),
    ("truncated", .number s.truncated), ("final_count", .number s.finalCount)]

def Ruleset.json (r : Ruleset) : Json :=
  .object [("batches", .array (r.batches.map Batch.json)), ("cosmetic", r.cosmetic.json), ("stats", r.stats.json),
    ("fingerprint", .string r.fingerprint)]

end Blocklist
