import DocAudit.Console.Style
import DocAudit.Finding
import DocAudit.Json.Printer
import DocAudit.Report.Encode
/-!
# What is printed

A run prints a line for each finding, then a line for each library and a summary; or one JSON
document instead of them all.

* `Console.findingLine`, `Console.reportLine`, `Console.summaryLine`: the lines.
* `Console.reports`: what is printed about all libraries.
* `Console.errorMark`, `Console.noteMark`: what stands before messages of the program itself.
-/

namespace DocAudit.Console

/-- Stands for the summary of an element that has none. -/
def missingMark : String := "<MISSING>"

/-- Whether the given kind of output is the JSON document. -/
def isJson (output : String) : Bool := output = "json"

/-- Whether output of the given kind is styled, when colours are wanted. -/
def usesColor (color : Bool) (output : String) : Bool := !isJson output && color

/-- How far a finding is moved to the right. -/
def indentOf : ElementKind → String
  | .namespace => ""
  | .type => "  "
  | _ => "    "

/-- The line for a finding. -/
def findingLine (f : Finding) : Line :=
  match f.summary with
  | none =>
    [⟨indentOf f.kind, []⟩, ⟨"✖", [.red]⟩, ⟨" ", []⟩, ⟨f.kind.label, [.red, .bold]⟩, ⟨": ", []⟩,
      ⟨f.name, [.bold]⟩, ⟨", XML: ", []⟩, ⟨missingMark, [.red]⟩]
  | some text =>
    [⟨indentOf f.kind, []⟩, ⟨"◆", [.blue]⟩, ⟨" ", []⟩, ⟨f.kind.label, [.blue, .bold]⟩, ⟨": ", []⟩,
      ⟨f.name, []⟩, ⟨", XML: ", []⟩, ⟨text, [.grey]⟩]

/-- The line for a library: a sign and a word in a colour, the library, and a message. -/
def verdictLine (sign word : String) (color : Style) (library message : String) : Line :=
  [⟨sign, [color]⟩, ⟨" ", []⟩, ⟨"⟦" ++ word ++ "⟧", [color, .bold]⟩, ⟨" ❲", []⟩,
    ⟨library, [.bold]⟩, ⟨"❳ — " ++ message, []⟩]

/-- The line for a library. -/
def reportLine (r : LibraryReport) : Line :=
  match r.error, r.coverage with
  | some error, _ => verdictLine "✖" "fatal" .red r.library error
  | none, some c =>
    if c.hasErrors then
      verdictLine "✖" "error" .red r.library
        (c.assembly ++ " (" ++ c.namespaces.length.repr ++ "): check completed with " ++
          c.errors.repr ++ " errors")
    else
      verdictLine "✔" "ok" .green r.library (c.assembly ++ ": check completed successfully")
  | none, none => [⟨"◆ ❲" ++ r.library ++ "❳ — not checked", []⟩]

/-- The last line, with the numbers of the run. -/
def summaryLine (t : Totals) : Line :=
  [⟨"— Summary — libraries=" ++ t.libraries.repr ++ " failed=" ++ t.failed.repr ++ " errors=" ++
      t.errors.repr, [.bold]⟩]

/-- The lines about all libraries, for people. -/
def reportLines (reports : List LibraryReport) : List Line :=
  reports.map reportLine ++ [summaryLine (Totals.ofReports reports)]

/-- What is printed about all libraries, line by line. -/
def reports (color : Bool) (output : String) (reports : List LibraryReport) : List String :=
  if isJson output then [(LibraryReport.listToJson reports).pretty]
  else (reportLines reports).map (Line.render (usesColor color output))

/-- What is printed about the findings, line by line. -/
def findings (color : Bool) (output : String) (findings : List Finding) : List String :=
  findings.map fun f => (findingLine f).render (usesColor color output)

/-- Stands before an error message of the program. -/
def errorMark : Line := [⟨"error:", [.red, .bold]⟩]

/-- Stands before a note of the program. -/
def noteMark : Line := [⟨"note:", [.blue, .bold]⟩]

end DocAudit.Console
