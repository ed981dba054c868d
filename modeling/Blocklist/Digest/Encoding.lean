import Blocklist.Digest.XXH64
import Blocklist.Ruleset

/-! The byte encodings of rules and of compiled output, and their fingerprints. No encoding is the beginning of
another of its kind: numbers have a fixed width, a text ends with a byte that UTF-8 never uses, a list starts
with its length, and a choice starts with its number. -/

namespace Blocklist.Digest

/-- The lowest `width` bytes of a number, the lowest first. -/
def littleEndian : (width : Nat) → Nat → Bytes
  | 0, _ => []
  | w + 1, n => UInt8.ofNat n :: littleEndian w (n / 256)

def word16 (n : Nat) : Bytes := littleEndian 2 n

def word32 (n : Nat) : Bytes := littleEndian 4 n

def word64 (n : Nat) : Bytes := littleEndian 8 n

def bool (b : Bool) : Bytes := [if b then 1 else 0]

def text (t : Text) : Bytes := t.utf8 ++ [0xff]

def list (enc : α → Bytes) (xs : List α) : Bytes := word64 xs.length ++ xs.flatMap enc

/-- The alternative with this number. -/
def choice (n : Nat) (payload : Bytes) : Bytes := word64 n ++ payload

def option (enc : α → Bytes) : Option α → Bytes
  | none => choice 0 []
  | some a => choice 1 (enc a)

def action : Action → Bytes
  | .block => choice 0 []
  | .allow => choice 1 []
  | .hide => choice 2 []
  | .unhide => choice 3 []

def names (s : NameSet) : Bytes := list text s.names

def typeSet (s : TypeSet) : Bytes := word16 s.bits.toNat

def pattern : Pattern → Bytes
  | .hostAnchor t => choice 0 (text t)
  | .hostStart t => choice 1 (text t)
  | .startAnchor t => choice 2 (text t)
  | .endAnchor t => choice 3 (text t)
  | .wildcard t => choice 4 (text t)
  | .regex t => choice 5 (text t)
  | .substring t => choice 6 (text t)
  | .hostGroup hs => choice 7 (list text hs)

def options (o : Options) : Bytes :=
  names o.initiators.included ++ names o.initiators.excluded ++ option bool o.thirdParty ++
    typeSet o.types ++ typeSet o.excludedTypes ++ bool o.important

def target (t : Target) : Bytes := text t.selector ++ names t.pages.included ++ names t.pages.excluded

def body : Body → Bytes
  | .network p o => choice 0 (pattern p ++ options o)
  | .cosmetic t => choice 1 (target t)
  | .procedural t => choice 2 (target t)

def ruleKey (k : Rule.Key) : Bytes := action k.action ++ body k.body

/-- Source, line and priority of a rule do not count. -/
def rule (r : Rule) : Bytes := action r.action ++ body r.body

def resourceType (r : ResourceType) : Bytes := choice r.index []

def recordAction : RecordAction → Bytes
  | .block => choice 0 []
  | .allow => choice 1 []

def party : Party → Bytes
  | .first => choice 0 []
  | .third => choice 1 []

def condition (c : Condition) : Bytes :=
  option text c.urlFilter ++ option text c.regexFilter ++ option (list text) c.requestDomains ++
    option (list text) c.initiatorDomains ++ option (list text) c.excludedInitiatorDomains ++
    option (list resourceType) c.resourceTypes ++ option party c.party

def record (r : Record) : Bytes :=
  word32 r.id.toNat ++ word32 r.priority.toNat ++ recordAction r.action ++ condition r.condition

def batch (b : Batch) : Bytes := word64 b.index ++ list record b.records

def elementEntry (e : ElementEntry) : Bytes := text e.selector ++ list text e.pages ++ list text e.excludedPages

def bundle (b : CosmeticBundle) : Bytes :=
  list elementEntry b.hide ++ list elementEntry b.unhide ++ list elementEntry b.procedural

/-- All that the engine and the page are given. -/
def output (bs : List Batch) (b : CosmeticBundle) : Bytes := list batch bs ++ bundle b

def seed : UInt64 := 0x9e3779b97f4a7c15

/-- The hash of an encoding, as sixteen hexadecimal digits. -/
def fingerprint (bytes : Bytes) : Text :=
  let h := (XXH64.hash seed bytes).toNat
  (List.range 16).map fun i => Nat.digitChar ((h >>> (4 * (15 - i))) % 16)

end Blocklist.Digest
