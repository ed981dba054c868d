import Blocklist.Text.Basic

/-! What commands need of a file system: reading and writing whole texts. Where the file system is a value, the
laws say what a write may change. -/

namespace Blocklist

/-- Why a file could not be read or written. -/
inductive FileError where
  /-- The system refused, with this text and number. -/
  | refused (text : Text) (number : Nat)
  /-- The file is not UTF-8. -/
  | notText
deriving DecidableEq

namespace FileError

def missing : FileError := .refused "No such file or directory".toList 2

def notFolder : FileError := .refused "Not a directory".toList 20

def isFolder : FileError := .refused "Is a directory".toList 21

def message : FileError → String
  | .refused text number => s!"{text.str} (os error {number})"
  | .notText => "stream did not contain valid UTF-8"

end FileError

/-- Access to files by path. -/
class Files (m : Type → Type) where
  read (path : Text) : m (Except FileError Text)
  write (path text : Text) : m (Except FileError Unit)

/-- What stands at a place of a file system. -/
inductive FileEntry where
  | text (t : Text)
  /-- A file that is not UTF-8. -/
  | binary (bytes : List UInt8)
  | folder
deriving DecidableEq

/-- A file system as a value. Any path may be refused, for reading or for writing. -/
class FileState (σ : Type) where
  Place : Type
  entry? (s : σ) (p : Place) : Option FileEntry
  /-- Where a path leads to. Many paths may lead to one place. -/
  place? (s : σ) (path : Text) : Option Place
  read (s : σ) (path : Text) : Except FileError Text
  write (s : σ) (path text : Text) : Except FileError Unit × σ

/-- A text that is read stands where the path leads to. A write that fails changes nothing; one that succeeds
changes what one place holds, and the text is read again under its path. -/
class LawfulFileState (σ : Type) [FileState σ] : Prop where
  read_place {s : σ} {path text : Text} :
    FileState.read s path = .ok text →
      ∃ p, FileState.place? s path = some p ∧ FileState.entry? s p = some (.text text)
  write_error {s s' : σ} {path text : Text} {e : FileError} : FileState.write s path text = (.error e, s') → s' = s
  read_write {s s' : σ} {path text : Text} :
    FileState.write s path text = (.ok (), s') → FileState.read s' path = .ok text
  entry?_write {s s' : σ} {path text : Text} {p q : FileState.Place σ} :
    FileState.write s path text = (.ok (), s') → FileState.place? s' path = some p → q ≠ p →
      FileState.entry? s' q = FileState.entry? s q

/-- Commands run on a file system change it. -/
instance [FileState σ] : Files (StateM σ) where
  read path := fun s => (FileState.read s path, s)
  write path text := fun s => FileState.write s path text

end Blocklist
