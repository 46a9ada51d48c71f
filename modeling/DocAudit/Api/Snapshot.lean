import DocAudit.Api.Decode
import DocAudit.Json.Reader
import DocAudit.Log
/-!
# Metadata snapshots

A snapshot is a JSON file next to a library that lists its types. An entry that is `null`, or that
does not describe a type, stands for a type that could not be resolved; it is counted.

* `Snapshot.ofText?`: the assembly name and the entries in a text.
* `Snapshot.surface`: what the snapshot tells of the library.
* `Surface.load`: the same, from a file.
-/

set_option linter.unusedVariables false

namespace DocAudit

/-- The content of a metadata file. -/
structure Snapshot where
  assembly : Option String
  entries : List Json

namespace Snapshot

def fieldNames : List String := ["assembly", "types"]

open Json Text in
/-- The fields of a snapshot: of an object, or of an array with the fields in order. Other fields
of an object are skipped. -/
def fields : Reader (List (String × Json)) :=
  skipping isSpace fun s =>
    match s with
    | '{' :: t =>
      let read (name : String) := if name ∈ fieldNames then value (maxDepth - 1) else ignored
      (enclosed isSpace '}' (field read) t).map fun p => (p.1, (Rest.tail _ t).andThen p.2)
    | '[' :: t =>
      match enclosed isSpace ']' (value (maxDepth - 1)) t with
      | some (items, r) =>
        if items.length ≤ fieldNames.length then
          some (fieldNames.zip items, (Rest.tail _ t).andThen r)
        else none
      | none => none
    | _ => none

/-- The snapshot with the given fields, none of which may come twice. -/
def ofFields? (fields : List (String × Json)) : Option Snapshot :=
  if fieldNames.all fun name => fields.countP (·.1 = name) ≤ 1 then
    match Json.optional "assembly" fields Json.text?,
        Json.withDefault "types" fields [] (Json.list? some) with
    | some assembly, some entries => some ⟨assembly, entries⟩
    | _, _ => none
  else none

/-- The snapshot in a text. -/
def ofText? (text : String) : Option Snapshot := (Json.only fields text).bind ofFields?

/-- The ending of the names of snapshot files. -/
def fileEnding : String := ".api.json"

/-- A reversed name without an ending, however often it has it. -/
def dropEndings (ending name : List Char) : List Char :=
  if h : ending ≠ [] ∧ ending.isPrefixOf name then dropEndings ending (name.drop ending.length)
  else name
termination_by name.length
decreasing_by
  have := (List.isPrefixOf_iff_prefix.1 h.2).length_le
  have := List.length_pos_iff.2 h.1
  rw [List.length_drop]
  omega

/-- The name of the library that a snapshot belongs to, by the name of the file. -/
def nameOfFile (origin : Path) : String :=
  match origin.fileName? with
  | some name => String.ofList (dropEndings fileEnding.toList.reverse name.toList.reverse).reverse
  | none => ""

/-- The types among the entries, in order. -/
def types (s : Snapshot) : List TypeInfo := s.entries.filterMap TypeInfo.ofJson?

/-- What a snapshot tells of its library. -/
def surface (s : Snapshot) (origin : Path) : Surface where
  assembly := s.assembly.getD (nameOfFile origin)
  types := s.types
  unresolved := s.entries.length - s.types.length

/-- An event for each entry that is there and does not describe a type. -/
def events (s : Snapshot) (origin : Path) : List Event :=
  s.entries.filterMap fun e =>
    match e, TypeInfo.ofJson? e with
    | .null, _ => none
    | _, some _ => none
    | _, none => some (.unresolvableType origin)

end Snapshot

namespace Surface

/-- What the text of a snapshot tells of its library, with the events of reading it. -/
def ofText (text : String) (origin : Path) : Except LoadError (Surface × List Event) :=
  match Snapshot.ofText? text with
  | some s => .ok (s.surface origin, s.events origin)
  | none => .error ⟨.metadata, origin, .malformedJson⟩

/-- Reads a snapshot file. -/
def load (disk : Disk) (path : Path) : Except LoadError (Surface × List Event) :=
  match disk.read path with
  | .ok text => ofText text path
  | .error e => .error ⟨.metadata, path, .unreadable e⟩

/-- Tells that some types are missing. -/
def partialMessage (s : Surface) : String :=
  s.unresolved.repr ++ " type(s) could not be resolved; continuing with " ++ s.types.length.repr ++
    " resolved"

end Surface

end DocAudit
