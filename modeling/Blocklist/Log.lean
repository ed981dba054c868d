import Blocklist.Text.Basic

/-! Log lines. The library never prints: what there is to say about a step is computed from the step's
result, and the outer layer chooses which levels to show. -/

namespace Blocklist.Log

inductive Level where
  | error
  | warn
  | info
  | debug
  | trace
deriving DecidableEq

/-- The more detailed the level, the larger. -/
def Level.detail : Level → Nat
  | .error => 0
  | .warn => 1
  | .info => 2
  | .debug => 3
  | .trace => 4

def Level.label : Level → String
  | .error => "ERROR"
  | .warn => "WARN"
  | .info => "INFO"
  | .debug => "DEBUG"
  | .trace => "TRACE"

structure Entry where
  level : Level
  text : String
deriving DecidableEq

def warn (text : String) : Entry := ⟨.warn, text⟩

def info (text : String) : Entry := ⟨.info, text⟩

def debug (text : String) : Entry := ⟨.debug, text⟩

def trace (text : String) : Entry := ⟨.trace, text⟩

/-- The line shown for an entry. -/
def Entry.line (e : Entry) : String := s!"[{e.level.label}] {e.text}"

/-- The entries no more detailed than `limit`. -/
def upTo (limit : Level) (entries : List Entry) : List Entry :=
  entries.filter fun e => e.level.detail ≤ limit.detail

end Blocklist.Log
