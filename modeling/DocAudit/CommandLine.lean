import DocAudit.Settings.Effective
/-!
# The command line

The words behind the name of the program say what to do: check libraries, or print the version.
Words are read one after the other; the first one that does not fit decides what is wrong.

* `Command.parse`: what a list of words asks for.
-/

namespace DocAudit

/-- Why a command line is not carried out. -/
inductive Usage where
  /-- Help is asked for. -/
  | help
  /-- The version of the program is asked for by an option. -/
  | version
  /-- There are no words at all. -/
  | nothingGiven
  | missingCommand
  | unknownCommand
  | unknownArgument
  /-- An option or flag is given twice. -/
  | repeatedArgument
  /-- The value of an option is missing. -/
  | missingValue
  /-- A flag has a value. -/
  | unneededValue
deriving DecidableEq, Repr

/-- The exit status: help and version are fine, all else is an error. -/
def Usage.exitCode : Usage → Nat
  | help | version => 0
  | _ => 2

/-- What to do. -/
inductive Action where
  | printVersion
  | check (libraries : List String) (root output : Option String)
      (reportAll includeDelegateMembers : Bool)
deriving DecidableEq, Repr

/-- What a command line asks for. -/
structure Command where
  verbose : Bool := false
  quiet : Bool := false
  action : Action
deriving DecidableEq, Repr

namespace Command

/-- An argument without value. -/
inductive Flag where
  | verbose
  | quiet
  | help
  | version
  | reportAll
  | includeDelegateMembers
deriving DecidableEq, Repr

/-- An argument with a value. -/
inductive Setting where
  | root
  | output
deriving DecidableEq, Repr

/-- Where words stand: before the command, or behind one of the two commands. -/
inductive Scope where
  | top
  | version
  | check
deriving DecidableEq, Repr

/-- The flag of a long name. -/
def Scope.longFlag? (scope : Scope) (name : String) : Option Flag :=
  match name, scope with
  | "verbose", _ => some .verbose
  | "quiet", _ => some .quiet
  | "help", _ => some .help
  | "version", .top => some .version
  | "report-all", .check => some .reportAll
  | "include-delegate-members", .check => some .includeDelegateMembers
  | _, _ => none

/-- The setting of a long name. -/
def Scope.setting? (scope : Scope) (name : String) : Option Setting :=
  match name, scope with
  | "repo-root", .check => some .root
  | "output", .check => some .output
  | _, _ => none

/-- The flag of a letter. -/
def Scope.shortFlag? (scope : Scope) (letter : Char) : Option Flag :=
  match letter, scope with
  | 'v', _ => some .verbose
  | 'q', _ => some .quiet
  | 'h', _ => some .help
  | 'V', .top => some .version
  | _, _ => none

/-- The arguments read in one scope. -/
structure Arguments where
  flags : List Flag := []
  settings : List (Setting × String) := []
  /-- The setting read last, with its value if that was read already. -/
  pending : Option (Setting × Option String) := none
  /-- The words that are no arguments, the last one first. -/
  words : List String := []

namespace Arguments

def has (a : Arguments) (f : Flag) : Bool := f ∈ a.flags

def value? (a : Arguments) (s : Setting) : Option String := a.settings.lookup s

/-- Gives a setting its value; it must not have one. -/
def set (a : Arguments) (s : Setting) (value : String) : Except Usage Arguments :=
  if (a.value? s).isSome then .error .repeatedArgument
  else .ok { a with settings := (s, value) :: a.settings, pending := none }

/-- Takes the setting read last. -/
def settle (a : Arguments) : Except Usage Arguments :=
  match a.pending with
  | none => .ok a
  | some (_, none) => .error .missingValue
  | some (s, some value) => a.set s value

/-- Takes a flag. -/
def addFlag (a : Arguments) (f : Flag) : Except Usage Arguments := do
  let a ← a.settle
  match f with
  | .help => .error .help
  | .version => .error .version
  | f => if a.has f then .error .repeatedArgument else .ok { a with flags := f :: a.flags }

/-- Takes a word that is no argument. -/
def addWord (a : Arguments) (w : String) : Except Usage Arguments := do
  let a ← a.settle
  .ok { a with words := w :: a.words }

/-- Takes the letters behind a single hyphen. -/
def addLetters (scope : Scope) (a : Arguments) : List Char → Except Usage Arguments
  | [] => .ok a
  | c :: cs =>
    match scope.shortFlag? c with
    | none => .error .unknownArgument
    | some f => do addLetters scope (← a.addFlag f) cs

/-- Takes what stands behind two hyphens: a name, perhaps with an equals sign and a value. -/
def addLong (scope : Scope) (a : Arguments) (text : List Char) : Except Usage Arguments :=
  let name := String.ofList (text.takeWhile (· ≠ '='))
  match scope.longFlag? name, scope.setting? name, text.dropWhile (· ≠ '=') with
  | some f, _, [] => a.addFlag f
  | some _, _, _ => .error .unneededValue
  | none, some s, [] => do
    let a ← a.settle
    .ok { a with pending := some (s, none) }
  | none, some s, _ :: value => do (← a.settle).set s (String.ofList value)
  | none, none, _ => .error .unknownArgument

end Arguments

/-- The commands by name. -/
def commands : List (String × Scope) := [("version", .version), ("check", .check)]

/-- Whether a word names a command, help being one. -/
def isCommand (w : String) : Bool := w = "help" || (commands.lookup w).isSome

/-- What is wrong with the words behind `help`, if anything: they may name one command, or help
itself. -/
def helpOn : List String → Usage
  | [] => .help
  | w :: ws => if isCommand w ∧ ws = [] then .help else .unknownCommand

/-- Reads the words behind a command. -/
def readArguments (scope : Scope) : List String → Arguments → Except Usage Arguments
  | [], a => a.settle
  | w :: ws, a =>
    match w.toList with
    | ['-', '-'] =>
      if scope = .check then do
        let a ← ws.foldlM Arguments.addWord a
        a.settle
      else if ws = [] then a.settle
      else .error .unknownArgument
    | '-' :: '-' :: text => do readArguments scope ws (← a.addLong scope text)
    | '-' :: c :: cs => do readArguments scope ws (← a.addLetters scope (c :: cs))
    | _ =>
      match a.pending with
      | some (s, none) => readArguments scope ws { a with pending := some (s, some w) }
      | _ =>
        if scope = .check then do readArguments scope ws (← a.addWord w)
        else .error .unknownArgument

/-- What the arguments behind a command ask for, given those before it. -/
def ofArguments (scope : Scope) (before a : Arguments) : Command where
  verbose := before.has .verbose || a.has .verbose
  quiet := before.has .quiet || a.has .quiet
  action :=
    match scope with
    | .check =>
      .check a.words.reverse (a.value? .root) (a.value? .output) (a.has .reportAll)
        (a.has .includeDelegateMembers)
    | _ => .printVersion

/-- What is wrong with a command line without command. -/
def withoutCommand (a : Arguments) : Usage :=
  if a.flags = [] then .nothingGiven else .missingCommand

/-- Reads words up to the command, and those behind it. -/
def read : List String → Arguments → Except Usage Command
  | [], a => .error (withoutCommand a)
  | w :: ws, a =>
    match w.toList with
    | ['-', '-'] =>
      match ws with
      | [] => .error (withoutCommand a)
      | w :: _ => .error (if isCommand w then .unknownArgument else .unknownCommand)
    | '-' :: '-' :: text => do read ws (← a.addLong .top text)
    | '-' :: c :: cs => do read ws (← a.addLetters .top (c :: cs))
    | _ =>
      if w = "help" then .error (helpOn ws)
      else
        match commands.lookup w with
        | none => .error .unknownCommand
        | some scope => (readArguments scope ws {}).map (ofArguments scope a)

/-- What a command line asks for, or why it is not carried out. -/
def parse (words : List String) : Except Usage Command := read words {}

end Command

end DocAudit
