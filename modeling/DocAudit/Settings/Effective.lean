import DocAudit.Audit.Check
import DocAudit.Settings.File
/-!
# Settings in force

A run takes each setting from the command line, else from the settings file of the repository, else
it has a default.

* `detectRoot`: the root directory of the repository around a directory.
* `Settings.resolve`: the settings in force.
-/

namespace DocAudit

/-- A path, its parent, the parent of that, and so on; at most `count` more. -/
def Path.ancestorsWithin (p : Path) : Nat → List Path
  | 0 => [p]
  | count + 1 =>
    match p.parent? with
    | some q => p :: q.ancestorsWithin count
    | none => [p]

/-- A path with all paths that it spells on the way to it, the nearest first. -/
def Path.ancestors (p : Path) : List Path := p.ancestorsWithin p.pieces.length

/-- The names that mark the root directory of a repository. -/
def rootMarks : List String := ["xmldoc.toml", "xmldoc.yaml", "xmldoc.yml", ".git"]

/-- The nearest of the spelled directories around a path that has a mark, or else the path. -/
def detectRoot (disk : Disk) (start : Path) : Path :=
  let isMarked (p : Path) : Bool := rootMarks.any fun m => disk.exists (p.join ⟨m⟩)
  (start.ancestors.find? isMarked).getD start

/-- The settings given on the command line. -/
structure GivenSettings where
  root : Option String := none
  libraries : List String := []
  output : Option String := none
  onlyMissing : Option Bool := none
  skipDelegateMembers : Option Bool := none
deriving DecidableEq, Repr

/-- The settings in force. -/
structure Settings where
  root : Path
  libraries : List String
  output : String
  options : AuditOptions
deriving DecidableEq, Repr

namespace Settings

/-- The settings in force, given those of the command line and of the settings file. -/
def merge (root : Path) (given : GivenSettings) (file : SettingsFile) : Settings where
  root
  libraries := if given.libraries = [] then file.libraries.getD [] else given.libraries
  output := (given.output <|> file.output).getD "human"
  options :=
    { onlyMissing := (given.onlyMissing <|> file.onlyMissing).getD true
      skipDelegateMembers := (given.skipDelegateMembers <|> file.skipDelegateMembers).getD true }

/-- Finds the root directory and its settings file, and puts all settings together. -/
def resolve (disk : Disk) (given : GivenSettings) : Settings × List Event :=
  let root := detectRoot disk ⟨given.root.getD "."⟩
  let (file, events) := SettingsFile.load disk root
  (merge root given (file.getD {}), events)

/-- Whether there is anything to check. -/
def hasLibraries (s : Settings) : Bool := !s.libraries.isEmpty

end Settings

end DocAudit
