import DocAudit.DocId.Kind
import DocAudit.DocId.Synthesis
import DocAudit.Failure
/-!
# Log messages

Everything that a run tells about itself is an `Event`. Each event has a level, a source and a
message, and `Log.atLevel` keeps those that are important enough.
-/

namespace DocAudit

/-- How important an event is, the most important level first. -/
inductive Level where
  | error
  | warn
  | info
  | debug
  | trace
deriving DecidableEq, Repr

namespace Level

def rank : Level → Nat
  | error => 0
  | warn => 1
  | info => 2
  | debug => 3
  | trace => 4

def label : Level → String
  | error => "ERROR"
  | warn => "WARN"
  | info => "INFO"
  | debug => "DEBUG"
  | trace => "TRACE"

end Level

/-- The part of the program that an event comes from. -/
inductive Source where
  | audit
  | settings
  | lookup
  | documentation
  | snapshot
deriving DecidableEq, Repr

/-- The name of a source in log lines. -/
def Source.label : Source → String
  | audit => "xmldoc_check::walker"
  | settings => "xmldoc_check::config"
  | lookup => "xmldoc_check::docs"
  | documentation => "xmldoc_check::docs::xml"
  | snapshot => "xmldoc_check::metadata::snapshot"

/-- How many members of each kind a type has. -/
structure MemberCounts where
  constructors : Nat
  methods : Nat
  fields : Nat
  properties : Nat
deriving DecidableEq, Repr

/-- Something worth telling. -/
inductive Event where
  /-- An entry of a snapshot does not describe a type. -/
  | unresolvableType (origin : Path)
  | parsedDocumentation (members : Nat) (assembly : Option String)
  /-- A namespace is looked up through one of its types. -/
  | namespaceLookup (ns representative : String)
  | checkingLibrary (library : Path)
  | incompleteTypes (assembly : String) (unresolved resolved : Nat)
  | namespaceCount (count : Nat)
  | checkingNamespace (position count : Nat) (name : String) (types : Nat)
  | repeatedType (type ns : String)
  | checkingType (position count : Nat) (name : String) (members : MemberCounts)
  | skippedMembers (type : String)
  | lookupFailed (element : String) (error : NotDocumented)
  | keyFailed (error : SynthesisError)
  | checked (kind : ElementKind) (name : String)
  /-- The check of a library is done, with the number of errors if there are any. -/
  | completed (errors : Option Nat)
  | invalidSettings (path : Path)
  | invalidPattern (pattern : String)
deriving DecidableEq, Repr

namespace Event

def level : Event → Level
  | incompleteTypes .. | lookupFailed .. | keyFailed _ | invalidSettings _ | invalidPattern _ =>
    .warn
  | checkingLibrary _ | namespaceCount _ | checkingNamespace .. | completed _ => .info
  | unresolvableType _ | parsedDocumentation .. | repeatedType .. | checkingType ..
  | skippedMembers _ => .debug
  | namespaceLookup .. | checked .. => .trace

def source : Event → Source
  | unresolvableType _ => .snapshot
  | parsedDocumentation .. => .documentation
  | namespaceLookup .. => .lookup
  | invalidSettings _ | invalidPattern _ => .settings
  | _ => .audit

/-- The text of an event. -/
def message : Event → String
  | unresolvableType origin =>
    "Unresolvable type entry in " ++ origin.text ++ ": " ++ detailMark
  | parsedDocumentation members assembly =>
    "Parsed " ++ members.repr ++ " documented member(s)" ++
      match assembly with
      | some name => " for " ++ name
      | none => ""
  | namespaceLookup ns representative =>
    "namespace " ++ ns ++ " resolved through " ++ representative
  | checkingLibrary library => "Processing library '" ++ library.text ++ "'"
  | incompleteTypes assembly unresolved resolved =>
    unresolved.repr ++ " type(s) in '" ++ assembly ++
      "' could not be resolved; checking the remaining " ++ resolved.repr
  | namespaceCount count => "Total namespaces found: " ++ count.repr
  | checkingNamespace position count name types =>
    "Processing namespace " ++ position.repr ++ " of " ++ count.repr ++ ". Namespace: '" ++ name ++
      "'. Types: " ++ types.repr
  | repeatedType type ns => "Skipping duplicate type '" ++ type ++ "' in '" ++ ns ++ "'"
  | checkingType position count name members =>
    "  Processing type " ++ position.repr ++ " of " ++ count.repr ++ ". TypeName: '" ++ name ++
      "'. Constructors: " ++ members.constructors.repr ++ ", Methods: " ++ members.methods.repr ++
      ", Fields: " ++ members.fields.repr ++ ", Properties: " ++ members.properties.repr
  | skippedMembers type => "  Skipping members of delegate '" ++ type ++ "'"
  | lookupFailed element error => "Lookup for '" ++ element ++ "' failed: " ++ error.message
  | keyFailed error => error.message ++ "; treating as missing summary"
  | checked kind name => "    Checked " ++ kind.label ++ " '" ++ name ++ "'"
  | completed (some errors) => "Check completed with " ++ errors.repr ++ " errors"
  | completed none => "Check completed successfully"
  | invalidSettings path => "Ignoring invalid " ++ path.text ++ ": " ++ detailMark
  | invalidPattern pattern => "Invalid library pattern '" ++ pattern ++ "': " ++ detailMark

end Event

/-- The events of a log that are at least as important as the given level. -/
def Log.atLevel (level : Level) (events : List Event) : List Event :=
  events.filter fun e => e.level.rank ≤ level.rank

end DocAudit
