import Blocklist.Rule.Line

/-! Filter lists. Every line is read on its own: a line that cannot be read is counted and left out, and the
others are not affected. A downloaded text is plausible as a filter list if it has some length, and among its
first lines there are enough that look like filters. -/

namespace Blocklist

/-- A filter list under the name its rules will carry. -/
structure FilterList where
  name : Text
  text : Text

/-- What one line of a list gave. -/
structure LineReading where
  number : Nat
  line : Text
  result : Except LineError (Option Rule)

namespace LineReading

def rule? (l : LineReading) : Option Rule :=
  match l.result with
  | .ok r => r
  | .error _ => none

def isInvalid (l : LineReading) : Bool := !l.result.isOk

def log (source : Text) (l : LineReading) : List Log.Entry :=
  (Line.ofText l.line).log ++
    match l.result with
    | .ok _ => []
    | .error e =>
      [Log.debug s!"{source.str}:{l.number}: skipping '{l.line.trim.str}': {e.message}"]

end LineReading

/-- What a list gave, line by line. -/
structure ListReading where
  source : Text
  lines : List LineReading

variable [Regex.Library]

namespace FilterList

/-- Reads lines that are numbered from `n` on. -/
def readFrom (source : Text) (n : Nat) : List Text → List LineReading
  | [] => []
  | t :: ts => ⟨n, t, Rule.ofLine? source n t⟩ :: readFrom source (n + 1) ts

def read (l : FilterList) : ListReading := ⟨l.name, readFrom l.name 1 (Text.lines l.text)⟩

end FilterList

namespace ListReading

def rules (r : ListReading) : List Rule := r.lines.filterMap LineReading.rule?

/-- How many lines held a rule. -/
def parsed (r : ListReading) : Nat := r.rules.length

/-- How many lines could not be read. -/
def invalid (r : ListReading) : Nat := r.lines.countP LineReading.isInvalid

def log (r : ListReading) : List Log.Entry :=
  r.lines.flatMap (LineReading.log r.source) ++
    [Log.info s!"compiled list '{r.source.str}': {r.parsed} rules, {r.invalid} invalid lines"]

end ListReading

namespace FilterList

def minBytes : Nat := 100

def sampleSize : Nat := 100

/-- A sample needs more than this many filters. -/
def fewFilters : Nat := 5

def looksLikeFilter (line : Text) : Bool :=
  let t := line.trim
  !t.isEmpty && t.head? != some '!' && t.head? != some '[' &&
    (t.contains '.' || Text.occurs ['#', '#'] t || Text.occurs ['|', '|'] t)

/-- How many of the first lines look like filters. -/
def filterLines (t : Text) : Nat := ((Text.lines t).take sampleSize).countP looksLikeFilter

def isPlausible (t : Text) : Bool := minBytes ≤ t.byteLength && fewFilters < filterLines t

def plausibleLog (t : Text) : List Log.Entry :=
  if t.byteLength < minBytes then [Log.warn s!"filter list too short ({t.byteLength} bytes)"]
  else [Log.debug s!"filter list sample has {filterLines t} filter-like lines"]

end FilterList

end Blocklist
