import DocAudit.Audit.Library
import DocAudit.Settings.Effective
import DocAudit.Settings.Libraries
/-!
# What a run looks at

A run looks at few of the files around it. Which ones becomes known step by step: the marks of a
root directory decide on the settings, the settings on the directories that are searched, and what
is found there on the companion files that are read.

* `GivenSettings.marks`: the files that decide on the settings.
* `Settings.searches`: the directories that are searched.
* `Expansion.companions`: the files that are read.
-/

namespace DocAudit

/-- The files that may mark a root directory, the settings files being among them. -/
def GivenSettings.marks (given : GivenSettings) : List Path :=
  (Path.ancestors ⟨given.root.getD "."⟩).flatMap fun p => rootMarks.map fun m => p.join ⟨m⟩

/-- A directory that is searched, down to some depth if it has a bound. -/
structure Search where
  directory : Path
  depth : Option Nat
deriving DecidableEq, Repr

/-- Whether a piece of a glob may lead one directory up. -/
def Glob.mayClimb (piece : String) : Bool :=
  match Pattern.ofText? piece with
  | some p => p.matches ".."
  | none => false

/-- The search for a pattern with wildcards: it starts behind the pieces without wildcards, or
above if a later piece may lead there. -/
def Search.ofPattern (root : Path) (pattern : String) : Search :=
  let full := root.join ⟨pattern⟩
  let further := full.pieces.dropWhile fun piece => !hasWildcard piece
  let climbs := List.replicate (further.countP Glob.mayClimb) ".."
  let base := full.pieces.takeWhile (fun piece => !hasWildcard piece) ++ climbs
  { directory := Path.ofPieces full.isAbsolute (if base = [] then ["."] else base)
    depth := if further.contains "**" then none else some (further.length + climbs.length) }

/-- The directories that are searched for libraries. -/
def Settings.searches (s : Settings) : List Search :=
  (s.libraries.filter hasWildcard).map (Search.ofPattern s.root)

/-- The files next to the libraries. -/
def Expansion.companions (e : Expansion) : List Path :=
  e.found.flatMap fun library => [library.snapshotFile, library.documentationFile]

end DocAudit
