import Blocklist.AllowList
import Blocklist.Digest.Encoding
import Blocklist.FilterList
import Blocklist.Reduction
import Blocklist.Ruleset
import Blocklist.Settings

/-! Compilation: filter lists and settings in, batches of records and a bundle of element rules out. Exceptions
for allowed sites come before the rules of the lists; then block rules against those sites are dropped, the
rules are reduced, cut to the largest number allowed, and emitted. -/

namespace Blocklist

/-- The first `n` network rules, and all other rules. -/
def capNetwork : Nat → List Rule → List Rule
  | _, [] => []
  | n, r :: rs =>
    if r.isNetwork then
      match n with
      | 0 => capNetwork 0 rs
      | n + 1 => r :: capNetwork n rs
    else r :: capNetwork n rs

/-- A compilation with its intermediate results. -/
structure Compilation where
  settings : Settings
  readings : List ListReading
  /-- What is left once block rules against allowed sites are dropped. -/
  rules : List Rule
  stripped : Nat
  reduction : Reduction
  /-- What is left of the reduced rules under the limit. -/
  kept : List Rule
  ruleset : Ruleset

namespace Compilation

def limit (s : Settings) (rules : List Rule) : List Rule :=
  match s.maxRules with
  | none => rules
  | some n => capNetwork n rules

/-- The rules of the settings and the lists, before anything is dropped. -/
def allRules (s : Settings) (readings : List ListReading) : List Rule :=
  AllowList.exceptions s.allowedTypeSet s.allowed ++ readings.flatMap ListReading.rules

def run [Regex.Library] (s : Settings) (lists : List FilterList) : Compilation :=
  let readings := lists.map FilterList.read
  let all := allRules s readings
  let rules := AllowList.strip s.allowed all
  let reduction := Reduction.ofRules s.defaultTypeSet rules
  let kept := limit s reduction.rules
  let batches := Batch.ofRules s.defaultTypeSet s.batchSize kept
  let cosmetic := CosmeticBundle.ofRules kept
  let stats : Stats :=
    { parsed := (readings.flatMap ListReading.rules).length
      invalid := (readings.flatMap ListReading.lines).countP LineReading.isInvalid
      stripped := AllowList.stripCount s.allowed all
      deduplicated := reduction.deduplicated
      merged := reduction.merged
      redundant := reduction.redundant
      truncated := reduction.rules.length - kept.length
      finalCount := Batch.recordCount batches + cosmetic.size }
  let fingerprint := Digest.fingerprint (Digest.output batches cosmetic)
  { settings := s, readings, rules, stripped := stats.stripped, reduction, kept
    ruleset := ⟨batches, cosmetic, stats, fingerprint⟩ }

def limitLog (c : Compilation) : List Log.Entry :=
  match c.settings.maxRules with
  | none => []
  | some max =>
    let dropped := c.ruleset.stats.truncated
    if dropped = 0 then []
    else [Log.warn s!"rule ceiling {max} reached, dropped {dropped} lowest-priority network rules"]

def summaryLog (c : Compilation) : Log.Entry :=
  let r := c.ruleset
  let network := Batch.recordCount r.batches
  Log.info s!"compiled {c.readings.length} lists: {network} network rules, {r.cosmetic.size} cosmetic entries, fingerprint {r.fingerprint.str}"

def log (c : Compilation) : List Log.Entry :=
  AllowList.log c.settings.allowed ++ c.readings.flatMap ListReading.log ++ AllowList.stripLog c.stripped ++
    c.reduction.log ++ c.limitLog ++ Batch.log c.settings.defaultTypeSet c.kept c.ruleset.batches ++
    [c.summaryLog]

end Compilation

end Blocklist
