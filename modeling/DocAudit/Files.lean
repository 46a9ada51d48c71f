import DocAudit.Path.Basic
/-!
# Files

A `Disk` is a tree of directories and files, with a current directory. Paths are followed piece by
piece, so a `..` behind a name needs that name to be a directory.

* `Disk.locate`: where a path leads.
* `Disk.exists`, `Disk.isDirectory`, `Disk.children`, `Disk.read`: what is there.
* `Disk.write`, `Disk.remove`: a disk after a change.
-/

namespace DocAudit

/-- What a file holds. -/
inductive Content where
  | text (s : String)
  /-- Bytes that are not a text in UTF-8. -/
  | binary

/-- The content with the given bytes. -/
def Content.ofBytes (bytes : List UInt8) : Content :=
  match String.fromUTF8? ⟨bytes.toArray⟩ with
  | some s => .text s
  | none => .binary

/-- A file, or a directory with its entries under their names. -/
inductive Entry where
  | file (content : Content)
  | directory (entries : List (String × Entry))

/-- Why a file cannot be read as a text. -/
inductive ReadError where
  /-- The path holds a NUL. -/
  | nulInPath
  /-- The path or a name in it is longer than paths and names may be. -/
  | tooLong
  | missing
  /-- Something that is not a directory stands in the middle of the path. -/
  | notDirectory
  | isDirectory
  | notText
deriving DecidableEq, Repr

def ReadError.message : ReadError → String
  | nulInPath => "file name contained an unexpected NUL byte"
  | tooLong => "File name too long (os error 36)"
  | missing => "No such file or directory (os error 2)"
  | notDirectory => "Not a directory (os error 20)"
  | isDirectory => "Is a directory (os error 21)"
  | notText => "stream did not contain valid UTF-8"

namespace Entry

instance : Inhabited Entry := ⟨directory []⟩

/-- The entry of a directory with the given name. -/
def child? (name : String) : Entry → Option Entry
  | directory entries => (entries.find? (·.1 = name)).map (·.2)
  | file _ => none

/-- What is at a place below an entry. -/
def at? (e : Entry) (place : List String) : Option Entry :=
  place.foldl (fun e name => e.bind (child? name)) (some e)

/-- The entries of a directory with one of them replaced or added. -/
def replaceChild (name : String) (e : Entry) : List (String × Entry) → List (String × Entry)
  | [] => [(name, e)]
  | (n, old) :: rest => if n = name then (n, e) :: rest else (n, old) :: replaceChild name e rest

/-- Puts an entry at a place; directories on the way are made. -/
def put (new : Entry) : List String → Entry → Entry
  | [], _ => new
  | name :: place, e =>
    let entries := match e with
      | directory entries => entries
      | file _ => []
    directory (replaceChild name (put new place ((child? name e).getD default)) entries)

/-- Takes away the entry at a place. -/
def erase : List String → Entry → Entry
  | [], e => e
  | [name], directory entries => directory (entries.filter (·.1 ≠ name))
  | name :: place, directory entries =>
    match child? name (directory entries) with
    | some e => directory (replaceChild name (erase place e) entries)
    | none => directory entries
  | _, file content => file content

end Entry

/-- A tree of files, and the place of the current directory in it. -/
structure Disk where
  root : Entry
  current : List String

namespace Disk

/-- The most bytes of a name in a directory. -/
def maxNameSize : Nat := 255

/-- The most bytes of a path. -/
def maxPathSize : Nat := 4095

/-- Follows pieces of a path from a place. -/
def walk (root : Entry) (place : List String) : List String → Except ReadError (List String)
  | [] => .ok place
  | piece :: pieces =>
    match root.at? place with
    | some (.directory entries) =>
      if Path.isIdle piece then walk root place pieces
      else if piece = ".." then walk root place.dropLast pieces
      else if maxNameSize < piece.utf8ByteSize then .error .tooLong
      else if entries.any (·.1 = piece) then walk root (place ++ [piece]) pieces
      else .error .missing
    | some (.file _) => .error .notDirectory
    | none => .error .missing

/-- The place to which a path leads; an empty path leads nowhere. -/
def locate (disk : Disk) (p : Path) : Except ReadError (List String) :=
  if p.text.toList.contains '\x00' then .error .nulInPath
  else if p.text = "" then .error .missing
  else if maxPathSize < p.text.utf8ByteSize then .error .tooLong
  else walk disk.root (if p.isAbsolute then [] else disk.current) p.pieces

/-- What is at a path. -/
def entry? (disk : Disk) (p : Path) : Option Entry :=
  match disk.locate p with
  | .ok place => disk.root.at? place
  | .error _ => none

def «exists» (disk : Disk) (p : Path) : Bool := (disk.entry? p).isSome

def isDirectory (disk : Disk) (p : Path) : Bool :=
  match disk.entry? p with
  | some (.directory _) => true
  | _ => false

/-- The names in a directory. -/
def children (disk : Disk) (p : Path) : List String :=
  match disk.entry? p with
  | some (.directory entries) => entries.map (·.1)
  | _ => []

/-- The text of a file. -/
def read (disk : Disk) (p : Path) : Except ReadError String :=
  match disk.locate p with
  | .error e => .error e
  | .ok place =>
    match disk.root.at? place with
    | some (.file (.text s)) => .ok s
    | some (.file .binary) => .error .notText
    | some (.directory _) => .error .isDirectory
    | none => .error .missing

/-- The place that a path spells, whether or not something is there. -/
def spelledPlace (disk : Disk) (p : Path) : List String :=
  p.pieces.foldl (fun place piece =>
    if Path.isIdle piece then place
    else if piece = ".." then place.dropLast
    else place ++ [piece]) (if p.isAbsolute then [] else disk.current)

/-- The disk with an entry put at a path. -/
def write (disk : Disk) (p : Path) (e : Entry) : Disk :=
  { disk with root := Entry.put e (disk.spelledPlace p) disk.root }

/-- The disk without what was at a path. -/
def remove (disk : Disk) (p : Path) : Disk :=
  { disk with root := Entry.erase (disk.spelledPlace p) disk.root }

end Disk

end DocAudit
