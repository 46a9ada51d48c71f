import DocAudit.Audit.Library
import DocAudit.CommandLine.Help
import DocAudit.Console.Lines
import DocAudit.Settings.Libraries
/-!
# Running the program

A run resolves the settings, finds the libraries, checks each of them and says how it went. What it
does is a `CheckRun`; what it prints is read off that.

* `CheckRun.start`: the check of all libraries.
* `CheckRun.exitCode`: 0 if all is documented, 1 if something is missing, 2 if something could not
  be checked.
* `runProgram`: everything that the program prints, and its exit status.
-/

namespace DocAudit

/-- Something that goes to the error output. -/
inductive Notice where
  | event (e : Event)
  | error (text : String)
  | note (text : String)
deriving DecidableEq, Repr

/-- A library that was checked: what is to be said about it, and the findings. -/
structure CheckedLibrary where
  report : LibraryReport
  findings : List Finding

/-- The check of a list of libraries. It is stopped before if there is nothing to check. -/
structure CheckRun where
  output : String
  notices : List Notice
  /-- The libraries in order, unless the run was stopped. -/
  checked : Option (List CheckedLibrary)

/-- What is said about a library, under its name as seen from the root directory. -/
def LibraryReport.ofCheck (root library : Path) (c : LibraryCheck) : LibraryReport :=
  let name := ((library.relativeTo? root).getD library).text
  match c.outcome with
  | .ok coverage => { library := name, coverage := some coverage }
  | .error e => { library := name, error := some e.message }

/-- Checks libraries one after the other, each documentation file being read once. -/
def checkLibraries (disk : Disk) (root : Path) (options : AuditOptions) :
    DocCache → List Path → List CheckedLibrary × List Event
  | _, [] => ([], [])
  | cache, library :: libraries =>
    let c := checkLibrary disk options cache library
    let (rest, log) := checkLibraries disk root options c.cache libraries
    (⟨LibraryReport.ofCheck root library c, c.findings⟩ :: rest, c.log ++ log)

namespace CheckRun

/-- Checks all libraries that the settings name. -/
def start (disk : Disk) (given : GivenSettings) : CheckRun :=
  let (settings, events) := Settings.resolve disk given
  let notices := events.map Notice.event
  if !settings.hasLibraries then
    { output := settings.output
      notices := notices ++
        [.error "No libraries to check. Pass paths or set `libraries` in xmldoc.toml."]
      checked := none }
  else
    let notices := notices ++
      if Console.isJson settings.output then []
      else
        match SettingsFile.load disk settings.root with
        | (some _, _) => []
        | (none, events) =>
          events.map Notice.event ++ [.note "No xmldoc.toml found; using defaults."]
    let expansion := Expansion.ofPatterns disk settings.root settings.libraries
    let notices := notices ++ expansion.log.map Notice.event ++
      expansion.unmatched.map fun p => .note ("No library matched pattern '" ++ p ++ "'")
    if expansion.found = [] then
      { output := settings.output
        notices := notices ++ [.error "No libraries found."]
        checked := none }
    else
      let (checked, log) := checkLibraries disk settings.root settings.options {} expansion.found
      { output := settings.output, notices := notices ++ log.map Notice.event, checked }

/-- The exit status. -/
def exitCode (r : CheckRun) : Nat :=
  match r.checked with
  | none => 2
  | some libraries =>
    if libraries.any (·.report.error.isSome) then 2
    else if libraries.any (·.report.failed) then 1
    else 0

/-- What is printed, line by line. The JSON document goes without findings. -/
def lines (r : CheckRun) (color : Bool) : List String :=
  match r.checked with
  | none => []
  | some libraries =>
    (if Console.isJson r.output then []
      else Console.findings color r.output (libraries.flatMap (·.findings))) ++
    Console.reports color r.output (libraries.map (·.report))

end CheckRun

/-! ## The error output -/

/-- The level of events that are told. -/
def Command.logLevel (c : Command) : Level :=
  if c.quiet then .error else if c.verbose then .debug else .warn

/-- A text in which further lines are indented. -/
def indentFurtherLines (text : String) : String :=
  String.ofList (text.toList.flatMap fun c =>
    if c = '\n' then ['\n', ' ', ' ', ' ', ' '] else [c])

/-- The line for an event: its level, five characters wide, its source and its message. -/
def Event.line (e : Event) : String :=
  "[" ++ e.level.label ++ String.ofList (List.replicate (5 - e.level.label.length) ' ') ++ " " ++
    e.source.label ++ "] " ++ indentFurtherLines e.message

/-- The line for a notice, if it is important enough. -/
def Notice.line? (level : Level) (color : Bool) : Notice → Option String
  | event e => if e.level.rank ≤ level.rank then some e.line else none
  | error text => some (Console.errorMark.render color ++ " " ++ text)
  | note text => some (Console.noteMark.render color ++ " " ++ text)

/-! ## The program -/

/-- What the program leaves behind: the lines of its two outputs and its exit status. -/
structure ProgramResult where
  exitCode : Nat
  out : List String := []
  err : List String := []
deriving DecidableEq, Repr

/-- The settings that a command line gives for a check; its flags only ever turn a setting off. -/
def Command.given? (c : Command) : Option GivenSettings :=
  match c.action with
  | .printVersion => none
  | .check libraries root output reportAll includeDelegateMembers =>
    some
      { root, libraries, output
        onlyMissing := if reportAll then some false else none
        skipDelegateMembers := if includeDelegateMembers then some false else none }

/-- Does what a command asks for. -/
def Command.run (c : Command) (disk : Disk) (color : Bool) : ProgramResult :=
  match c.given? with
  | none => { exitCode := 0, out := [programVersion] }
  | some given =>
    let r := CheckRun.start disk given
    { exitCode := r.exitCode
      out := r.lines color
      err := r.notices.filterMap (Notice.line? c.logLevel color) }

/-- What the program does with the words of its command line. -/
def runProgram (disk : Disk) (color : Bool) (words : List String) : Except Usage ProgramResult :=
  (Command.parse words).map fun c => c.run disk color

end DocAudit
