import DocAudit.Coverage.Tree
/-!
# Reports

A `LibraryReport` is what a run has to say about one library: its coverage tree, or why it could
not be checked.

* `Totals.ofReports`: the numbers in the summary of a run.
-/

namespace DocAudit

/-- The outcome of checking one library. -/
structure LibraryReport where
  library : String
  coverage : Option Coverage := none
  /-- Why the library could not be checked. -/
  error : Option String := none

namespace LibraryReport

/-- A library fails if it could not be checked or has errors. -/
def failed (r : LibraryReport) : Bool := r.error.isSome || r.coverage.any Coverage.hasErrors

def errors (r : LibraryReport) : Nat :=
  match r.coverage with
  | some c => c.errors
  | none => 0

end LibraryReport

/-- The numbers in the summary of a run. -/
structure Totals where
  libraries : Nat
  failed : Nat
  errors : Nat
deriving DecidableEq, Repr

/-- The numbers for a list of reports. -/
def Totals.ofReports (reports : List LibraryReport) : Totals where
  libraries := reports.length
  failed := reports.countP LibraryReport.failed
  errors := (reports.map LibraryReport.errors).foldr (· + ·) 0

end DocAudit
