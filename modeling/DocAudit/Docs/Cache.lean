import DocAudit.Docs.Documentation
import DocAudit.Log
/-!
# Loading documentation once

A `DocCache` keeps each documentation file that was loaded, under its path. A file that could not
be used is not kept, so a later attempt reads it again.
-/

namespace DocAudit

/-- The documentation files loaded so far, in order. -/
structure DocCache where
  entries : List (Path × Documentation) := []

namespace DocCache

/-- The documentation under a path. -/
def find? (cache : DocCache) (path : Path) : Option Documentation :=
  (cache.entries.find? fun e => e.1.same path).map (·.2)

/-- Reads a documentation file. -/
def load (disk : Disk) (path : Path) : Except LoadError Documentation :=
  match disk.read path with
  | .error e => .error ⟨.documentation, path, .unreadable e⟩
  | .ok text =>
    match Documentation.ofText text with
    | .error reason => .error ⟨.documentation, path, reason⟩
    | .ok d => .ok d

/-- Documentation is loaded exactly if the file has a text and that is the text of documentation. -/
theorem load_ok_iff {disk : Disk} {path : Path} {d : Documentation} : load disk path = .ok d ↔
    ∃ text, disk.read path = .ok text ∧ Documentation.ofText text = .ok d := by
  unfold load
  cases disk.read path with
  | error e => simp
  | ok text => cases htext : Documentation.ofText text <;> simp [htext]

/-- Puts documentation under a path, unless there is some already; what is there then, and the
cache. -/
def store (cache : DocCache) (path : Path) (d : Documentation) : Documentation × DocCache :=
  match cache.find? path with
  | some kept => (kept, cache)
  | none => (d, ⟨cache.entries ++ [(path, d)]⟩)

/-- The documentation under a path, from the cache or else from the disk, with the cache
afterwards and the events of reading. -/
def get (cache : DocCache) (disk : Disk) (path : Path) :
    Except LoadError Documentation × DocCache × List Event :=
  match cache.find? path with
  | some d => (.ok d, cache, [])
  | none =>
    match load disk path with
    | .error e => (.error e, cache, [])
    | .ok d =>
      let (kept, cache) := cache.store path d
      (.ok kept, cache, [.parsedDocumentation d.size d.assembly])

end DocCache

end DocAudit
