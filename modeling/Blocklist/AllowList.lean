import Blocklist.Log
import Blocklist.Rule.Basic

/-! Sites the user allows. Each gets an exception of its own, and block rules that name such a site or one
below it are dropped. -/

namespace Blocklist

/-- A user's spelling of a domain in its stored form: without blanks and dots around it, in small letters.
None if that is no host name. -/
def normalizeDomain? (t : Text) : Option Text :=
  let d := Text.lower (Text.trimWhen (· == '.') t.trim)
  if isHostname d then some d else none

namespace AllowList

def source : Text := "whitelist".toList

/-- The exception for a domain, given the place of its entry. -/
def exception (types : TypeSet) (domain : Text) (place : Nat) : Rule :=
  ⟨.allow, .network (.hostAnchor domain) { types }, Priority.allowedSite, source, place⟩

/-- The exceptions for the entries from place `n` on; a domain in `seen` has its exception already. -/
def exceptionsFrom (types : TypeSet) (seen : List Text) (n : Nat) : List Text → List Rule
  | [] => []
  | t :: ts =>
    match normalizeDomain? t with
    | none => exceptionsFrom types seen (n + 1) ts
    | some d =>
      if seen.contains d then exceptionsFrom types seen (n + 1) ts
      else exception types d n :: exceptionsFrom types (d :: seen) (n + 1) ts

/-- One exception for each allowed domain. -/
def exceptions (types : TypeSet) (entries : List Text) : List Rule := exceptionsFrom types [] 1 entries

def log (entries : List Text) : List Log.Entry :=
  (entries.filter fun t => (normalizeDomain? t).isNone).map fun t =>
    Log.warn s!"ignoring invalid whitelist entry '{t.str}'"

/-- The allowed domains. -/
def domains (entries : List Text) : List Text := entries.filterMap normalizeDomain?

/-- The host is one of the domains or lies below one. -/
def coversHost (domains : List Text) (host : Text) : Bool :=
  (host :: parentDomains host).any domains.contains

/-- A block rule that names an allowed site. -/
def contradicts (domains : List Text) (r : Rule) : Bool :=
  r.action == .block && r.host?.any (coversHost domains)

/-- The rules that no allowed site contradicts. -/
def strip (entries : List Text) (rules : List Rule) : List Rule :=
  rules.filter fun r => !contradicts (domains entries) r

/-- How many rules are dropped. -/
def stripCount (entries : List Text) (rules : List Rule) : Nat := rules.length - (strip entries rules).length

def stripLog (dropped : Nat) : List Log.Entry :=
  if dropped = 0 then [] else [Log.info s!"dropped {dropped} block rules targeting whitelisted domains"]

end AllowList

end Blocklist
