import Blocklist.Log
import Blocklist.NameSet
import Blocklist.Resource

/-! Options of a network filter: whose requests it is about, and which kinds of request. They are written as
modifiers between commas, of which the last mention of a thing wins; a modifier nobody knows has no effect. The
domains a rule is limited to and those it leaves out are its scope, written as entries between separators, with
a tilde before those left out. -/

namespace Blocklist

structure Scope where
  included : NameSet := .empty
  excluded : NameSet := .empty
deriving DecidableEq

namespace Scope

def isEmpty (s : Scope) : Bool := s.included.isEmpty && s.excluded.isEmpty

/-- Adds one written entry. A tilde with nothing behind it says nothing. -/
def add (s : Scope) : Text → Scope
  | ['~'] => s
  | '~' :: d => { s with excluded := s.excluded.insert d }
  | d => { s with included := s.included.insert d }

/-- The entries between the separators, without the blanks around them; empty ones are dropped. -/
def entries (isSeparator : Char → Bool) (t : Text) : List Text :=
  ((Text.splitWhen isSeparator t).map Text.trim).filter (· ≠ [])

/-- Adds all entries of a written list, in small letters. -/
def addAll (s : Scope) (isSeparator : Char → Bool) (t : Text) : Scope :=
  (entries isSeparator t.lower).foldl add s

end Scope

structure Options where
  /-- Domains of the pages that send the request; empty means all. -/
  initiators : Scope := {}
  /-- Only requests to other sites (true), only to the same site (false), or both. -/
  thirdParty : Option Bool := none
  types : TypeSet := .empty
  excludedTypes : TypeSet := .empty
  important : Bool := false
deriving DecidableEq

namespace Options

/-- Nothing is said about who sends the request. -/
def anyInitiator (o : Options) : Bool := o.initiators.isEmpty && o.thirdParty.isNone

/-- The types the filter applies to: those named less those excluded; all but those excluded if none is
named; `defaults` if neither is said. -/
def effectiveTypes (o : Options) (defaults : TypeSet) : TypeSet :=
  if !o.types.isEmpty then o.types.diff o.excludedTypes
  else if !o.excludedTypes.isEmpty then TypeSet.full.diff o.excludedTypes
  else defaults

/-- Every request admitted by `p` is admitted by `o`: `o` takes any initiator or the same ones, and at least
the same types. -/
def subsumes (o p : Options) (defaults : TypeSet) : Bool :=
  (o.anyInitiator || (o.initiators == p.initiators && o.thirdParty == p.thirdParty)) &&
    (o.effectiveTypes defaults).includes (p.effectiveTypes defaults)

end Options

/-- What one modifier asks for. -/
inductive Modifier where
  /-- Further initiator domains, as written after `domain=`. -/
  | domains (list : Text)
  | party (third : Bool)
  | important
  | type (r : ResourceType) (wanted : Bool)
deriving DecidableEq

namespace Modifier

/-- The type a word names, with a tilde before it if it is unwanted. -/
def ofTypeWord? : Text → Option Modifier
  | '~' :: w => (ResourceType.ofKeyword? w).map (.type · false)
  | w => (ResourceType.ofKeyword? w).map (.type · true)

/-- Reads a modifier written in small letters. -/
def ofText? (t : Text) : Option Modifier :=
  match "domain=".toList.isPrefixOf? t with
  | some list => some (.domains list)
  | none =>
    if t = "third-party".toList ∨ t = "3p".toList then some (.party true)
    else if t = "~third-party".toList ∨ t = "~3p".toList then some (.party false)
    else if t = "important".toList then some .important
    else ofTypeWord? t

end Modifier

namespace Options

def apply (o : Options) : Modifier → Options
  | .domains list => { o with initiators := o.initiators.addAll (· == '|') list }
  | .party third => { o with thirdParty := some third }
  | .important => { o with important := true }
  | .type r true => { o with types := o.types.insert r, excludedTypes := o.excludedTypes.erase r }
  | .type r false => { o with types := o.types.erase r, excludedTypes := o.excludedTypes.insert r }

/-- The written modifiers, without the blanks around them; empty ones are dropped. -/
def words (t : Text) : List Text := ((Text.splitOn ',' t).map Text.trim).filter (· ≠ [])

/-- Applies a written modifier, or nothing if it is unknown. -/
def applyWord (o : Options) (word : Text) : Options :=
  match Modifier.ofText? word.lower with
  | some m => o.apply m
  | none => o

def read (t : Text) : Options := (words t).foldl applyWord {}

/-- The modifiers that have no effect, as written. -/
def unknownWords (t : Text) : List Text :=
  (words t).filter fun w => (Modifier.ofText? w.lower).isNone

def log (t : Text) : List Log.Entry :=
  (unknownWords t).map fun w => Log.trace s!"ignoring unknown filter option '{w.str}'"

end Options

end Blocklist
