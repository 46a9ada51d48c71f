import DocAudit.Files
import DocAudit.Glob.Pattern
/-!
# Searching for files

A glob is a path in which names may be patterns. It is searched name by name, from the current
directory or the root.

* `Glob.ofText?`: the glob in a text, if all its patterns are valid.
* `Glob.search`: the paths that it stands for, in the order of a walk through the directories.
-/

namespace DocAudit

/-- A path of patterns. -/
structure Glob where
  isAbsolute : Bool
  patterns : List Glob.Pattern
  /-- Only directories are meant. -/
  onlyDirectories : Bool
deriving DecidableEq, Repr

namespace Glob

/-- The pieces of a text between slashes; a slash at the end opens no piece. -/
def piecesOf (text : List Char) : List String :=
  let pieces := Path.piecesOf text
  if pieces.getLast? = some "" then pieces.dropLast else pieces

/-- Leaves only the last of neighbouring `**`. -/
def collapse : List Pattern → List Pattern
  | p :: q :: ps => if p.isRecursive && q.isRecursive then collapse (q :: ps)
    else p :: collapse (q :: ps)
  | ps => ps

/-- The glob in a text. -/
def ofText? (text : String) : Option Glob :=
  let cs := text.toList
  if isValid text then
    ((piecesOf (cs.dropWhile (· = '/'))).mapM Pattern.ofText?).map fun patterns =>
      { isAbsolute := cs.head? = some '/'
        patterns := collapse patterns
        onlyDirectories := cs.getLast? = some '/' }
  else none

/-- A name inside of a directory; the current directory is not spelled out. -/
def within (directory : Path) (name : String) : Path :=
  if directory.same ⟨"."⟩ then ⟨name⟩ else directory.join ⟨name⟩

/-- The names in a directory, in order. -/
def sortedChildren (disk : Disk) (directory : Path) : List String :=
  (disk.children directory).mergeSort

mutual

/-- Everything below an entry, each directory before what is in it, in the order of the names. -/
def descendants (path : Path) : Entry → List Path
  | .file _ => []
  | .directory entries =>
    ((descendantsOfAll path entries).mergeSort fun a b => a.1 ≤ b.1).flatMap (·.2)

/-- The entries of a directory, each with itself and everything below it. -/
def descendantsOfAll (path : Path) : List (String × Entry) → List (String × List Path)
  | [] => []
  | (name, e) :: entries =>
    (name, within path name :: descendants (within path name) e) :: descendantsOfAll path entries

end

/-- The paths below a directory. -/
def below (disk : Disk) (directory : Path) : List Path :=
  match disk.entry? directory with
  | some e => descendants directory e
  | none => []

/-- The paths to which the patterns lead from a path. -/
def searchFrom (disk : Disk) (onlyDirectories : Bool) : List Pattern → Path → List Path
  | [], path => if onlyDirectories && !disk.isDirectory path then [] else [path]
  | p :: ps, path =>
    if p.isRecursive then
      match ps with
      | [] => (below disk path).filter disk.isDirectory
      | q :: qs =>
        (below disk path).flatMap fun d =>
          match d.fileName? with
          | some name => if q.matches name then searchFrom disk onlyDirectories qs d else []
          | none => []
    else
      match p.literal? with
      | some name =>
        let next := within path name
        if (if name = "." ∨ name = ".." then disk.isDirectory path else disk.exists next) then
          searchFrom disk onlyDirectories ps next
        else []
      | none =>
        let special := if p.opensWithDot && disk.isDirectory path then
            ["..", "."].filter p.matches |>.map (fun name => path.join ⟨name⟩)
          else []
        let children := (sortedChildren disk path).filter p.matches |>.map (within path)
        (special ++ children).flatMap (searchFrom disk onlyDirectories ps)

/-- The paths that a glob stands for. -/
def search (g : Glob) (disk : Disk) : List Path :=
  if g.patterns = [] then []
  else searchFrom disk g.onlyDirectories g.patterns ⟨if g.isAbsolute then "/" else "."⟩

end Glob

end DocAudit
