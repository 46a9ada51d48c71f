import DocAudit.CommandLine
/-!
# Help

What is printed instead of a check: help, the version, or what is wrong with a command line.

* `Usage.text`: the text for each reason not to carry out a command line.
-/

namespace DocAudit

/-- The name of the program. -/
def programName : String := "xmldoc-check"

/-- The version of the program. -/
def programVersion : String := "0.1.0"

/-- The commands and options of the program. -/
def helpText : String :=
  "Usage: " ++ programName ++ " [OPTIONS] <COMMAND>\n\n" ++
  "Commands:\n" ++
  "  version  Print the version\n" ++
  "  check    Check the documentation of libraries, given as paths or globs\n" ++
  "  help     Print this help\n\n" ++
  "Options:\n" ++
  "  -v, --verbose  Tell everything on stderr\n" ++
  "  -q, --quiet    Tell only errors on stderr\n" ++
  "  -h, --help     Print this help\n" ++
  "  -V, --version  Print the version\n\n" ++
  "Options of check:\n" ++
  "  --repo-root <DIRECTORY>     The root directory (default: the nearest one with a mark)\n" ++
  "  --output <human|json>       The kind of output (default: human)\n" ++
  "  --report-all                Also report elements that have a summary\n" ++
  "  --include-delegate-members  Check the members of delegates, too"

/-- What is wrong with a command line. -/
def Usage.problem : Usage → String
  | help | version | nothingGiven => ""
  | missingCommand => "a command is needed"
  | unknownCommand => "there is no such command"
  | unknownArgument => "there is no such argument"
  | repeatedArgument => "an argument is given twice"
  | missingValue => "an option has no value"
  | unneededValue => "a flag has a value"

/-- The text for a command line that is not carried out. -/
def Usage.text : Usage → String
  | help | nothingGiven => helpText
  | version => programName ++ " " ++ programVersion
  | u => "error: " ++ u.problem ++ "\n\n" ++ helpText

end DocAudit
