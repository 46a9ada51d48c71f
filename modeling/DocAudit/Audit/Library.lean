import DocAudit.Api.Snapshot
import DocAudit.Audit.Check
import DocAudit.Docs.Cache
/-!
# Checking a library file

A library is checked through two files next to it: a snapshot of its types and its documentation.
The library itself is never read.

* `Path.snapshotFile`, `Path.documentationFile`: the files next to a library.
* `checkLibrary`: the check of one library.
-/

namespace DocAudit

/-- The snapshot next to a library. -/
def Path.snapshotFile (library : Path) : Path := library.withExtension "api.json"

/-- The documentation next to a library. -/
def Path.documentationFile (library : Path) : Path := library.withExtension "xml"

/-- What a check of one library led to: its tree or an error, with the findings, the events, and
the documentation loaded so far. -/
structure LibraryCheck where
  outcome : Except LoadError Coverage
  findings : List Finding := []
  log : List Event := []
  cache : DocCache

/-- Checks a library. Its snapshot is read first; without it the documentation is left alone. -/
def checkLibrary (disk : Disk) (options : AuditOptions) (cache : DocCache) (library : Path) :
    LibraryCheck :=
  let start := [Event.checkingLibrary library]
  match Surface.load disk library.snapshotFile with
  | .error e => { outcome := .error e, log := start, cache }
  | .ok (surface, events) =>
    match cache.get disk library.documentationFile with
    | (.error e, cache, events') =>
      { outcome := .error e, log := start ++ events ++ events', cache }
    | (.ok docs, cache, events') =>
      let visit := ({ index := docs.index, options } : Auditor).check surface
      { outcome := .ok visit.result
        findings := visit.findings
        log := start ++ events ++ events' ++ visit.log
        cache }

end DocAudit
