import Blocklist.Command.Files

/-! A tree of files as a value: what stands in it by the names on the way there from the root, and the folder
that relative paths start from. -/

namespace Blocklist

/-- A folder that holds an entry need not be an entry itself. -/
structure FileTree where
  entries : List (List Text × FileEntry)
  /-- The folder that commands run in. -/
  here : List Text := []

namespace FileTree

def entry? (d : FileTree) (place : List Text) : Option FileEntry :=
  match d.entries.lookup place with
  | some e => some e
  | none => if place.isPrefixOf d.here || d.entries.any fun e => place.isPrefixOf e.1 then some .folder else none

def isFolder (d : FileTree) (place : List Text) : Bool := d.entry? place == some .folder

/-- Follows the parts of a written path from a place on. There is nothing above the root but the root. -/
def walk (d : FileTree) (place : List Text) : List Text → Except FileError (List Text)
  | [] => .ok place
  | part :: rest =>
    if !d.isFolder place then .error .notFolder
    else if part = [] ∨ part = ['.'] then walk d place rest
    else if part = ['.', '.'] then walk d place.dropLast rest
    else
      match d.entry? (place ++ [part]) with
      | some _ => walk d (place ++ [part]) rest
      | none => .error .missing

/-- Where a path starts from. -/
def start (d : FileTree) (path : Text) : List Text := if path.head? = some '/' then [] else d.here

/-- Where a path leads to. The empty path leads nowhere. -/
def find (d : FileTree) (path : Text) : Except FileError (List Text) :=
  if path = [] then .error .missing else d.walk (d.start path) (Text.splitOn '/' path)

def readText (d : FileTree) (path : Text) : Except FileError Text := do
  match d.entry? (← d.find path) with
  | some (.text t) => .ok t
  | some (.binary _) => .error .notText
  | some .folder => .error .isFolder
  | none => .error .missing

/-- Where a file written under this path would be. -/
def target (d : FileTree) (path : Text) : Except FileError (List Text) := do
  let parts := (Text.splitOn '/' path).reverse
  let slashes := parts.takeWhile (· = [])
  match parts.drop slashes.length with
  | [] => .error (if path = [] then .missing else .isFolder)
  | name :: before =>
    let place ← d.walk (d.start path) before.reverse
    if !d.isFolder place then .error .notFolder
    else if name = ['.'] ∨ name = ['.', '.'] then .error .isFolder
    else
      match d.entry? (place ++ [name]) with
      | some .folder => .error .isFolder
      | some _ => if slashes = [] then .ok (place ++ [name]) else .error .notFolder
      | none => if slashes = [] then .ok (place ++ [name]) else .error .isFolder

/-- Replaces the entry of a place, or adds one. -/
def put (place : List Text) (e : FileEntry) : List (List Text × FileEntry) → List (List Text × FileEntry)
  | [] => [(place, e)]
  | x :: xs => if x.1 = place then (place, e) :: xs else x :: put place e xs

def withText (d : FileTree) (place : List Text) (text : Text) : FileTree :=
  { d with entries := put place (.text text) d.entries }

/-- A write that fails leaves the tree as it is. -/
def writeText (d : FileTree) (path text : Text) : Except FileError Unit × FileTree :=
  match d.target path with
  | .ok place => (.ok (), d.withText place text)
  | .error e => (.error e, d)

instance : FileState FileTree where
  Place := List Text
  entry? := entry?
  place? d path := (d.find path).toOption
  read := readText
  write := writeText

end FileTree

end Blocklist
