import Blocklist.Command.Run
import Blocklist.Regex.Admissible

/-! The program: runs a command on the files of the system. -/

namespace Blocklist

/-- The system's error, with its text and number where it gives them. -/
def FileError.ofSystem : IO.Error → FileError
  | .noFileOrDirectory _ number text
  | .permissionDenied _ number text
  | .inappropriateType _ number text => .refused text.toList number.toNat
  | e => .refused (toString e).toList 0

def readSystemFile (path : Text) : IO (Except FileError Text) := do
  try
    let bytes ← IO.FS.readBinFile path.str
    match String.fromUTF8? bytes with
    | some s => return .ok s.toList
    | none => return .error .notText
  catch e => return .error (.ofSystem e)

def writeSystemFile (path text : Text) : IO (Except FileError Unit) := do
  try
    IO.FS.writeFile path.str text.str
    return .ok ()
  catch e => return .error (.ofSystem e)

instance : Files IO := ⟨readSystemFile, writeSystemFile⟩

/-- Milliseconds with one decimal. -/
def showMilliseconds (nanoseconds : Nat) : String :=
  let tenths := (nanoseconds + 50000) / 100000
  s!"{tenths / 10}.{tenths % 10}ms"

end Blocklist

open Blocklist

def main (arguments : List String) : IO UInt32 := do
  match Command.ofArguments (arguments.map String.toList) with
  | .error e =>
    IO.eprintln s!"error: {e.message}"
    return 2
  | .ok command =>
    let start ← IO.monoNanosNow
    let outcome ← command.run
    let time := showMilliseconds ((← IO.monoNanosNow) - start)
    for line in outcome.errors do
      IO.eprintln line
    for line in outcome.output do
      IO.println (line.render time)
    return UInt32.ofNat outcome.status
