import DocAudit.Coverage.Encode
import DocAudit.Report.Basic
/-!
# Reports as JSON

* `LibraryReport.listToJson`: all reports of a run with the summary.
-/

namespace DocAudit

/-- A field, if there is a value for it. -/
def Json.presentField {α : Type} (name : String) (encode : α → Json) :
    Option α → List (String × Json)
  | some a => [(name, encode a)]
  | none => []

/-- A report as JSON; what is not known is left out. -/
def LibraryReport.toJson (r : LibraryReport) : Json :=
  .object ([("library", .string r.library)] ++
    Json.presentField "result" Coverage.toJson r.coverage ++
    Json.presentField "error" Json.string r.error)

def Totals.toJson (t : Totals) : Json :=
  .object [("libraries", .nat t.libraries), ("failed", .nat t.failed), ("errors", .nat t.errors)]

/-- The reports of a run with their summary. -/
def LibraryReport.listToJson (reports : List LibraryReport) : Json :=
  .object [("results", .array (reports.map LibraryReport.toJson)),
    ("summary", (Totals.ofReports reports).toJson)]

end DocAudit
