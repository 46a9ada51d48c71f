import DocAudit.Log
import DocAudit.Toml.Reader
import DocAudit.Yaml.Node
/-!
# Settings files

A repository may hold settings in TOML or YAML. Every setting is optional and settings of other
names are ignored, but a value of the wrong kind makes the whole file invalid.

* `SettingsFile.ofToml?`, `SettingsFile.ofYaml?`: the settings in a text.
* `SettingsFile.load`: the settings of a directory.
-/

namespace DocAudit

/-- The settings in a file. -/
structure SettingsFile where
  libraries : Option (List String) := none
  output : Option String := none
  onlyMissing : Option Bool := none
  skipDelegateMembers : Option Bool := none
deriving DecidableEq, Repr, Inhabited

namespace SettingsFile

/-- The settings, given how a text, a flag and a list of texts are found under a name. -/
def ofFields? (text : String → Option (Option String)) (flag : String → Option (Option Bool))
    (texts : String → Option (Option (List String))) : Option SettingsFile := do
  let libraries ← texts "libraries"
  let output ← text "output"
  let onlyMissing ← flag "reportOnlyMissing"
  let skipDelegateMembers ← flag "skipDelegateMembers"
  some { libraries, output, onlyMissing, skipDelegateMembers }

/-! ## TOML -/

namespace Toml

open DocAudit.Toml

def text? : Value → Option String
  | .string s => some s
  | _ => none

def flag? : Value → Option Bool
  | .boolean b => some b
  | _ => none

def texts? : Value → Option (List String)
  | .array vs => vs.mapM text?
  | _ => none

/-- A value that may be absent. -/
def optional {α : Type} (decode : Value → Option α) (fields : Fields) (name : String) :
    Option (Option α) :=
  match fields.lookup name with
  | some v => (decode v).map some
  | none => some none

end Toml

/-- The settings in a text in TOML. -/
def ofToml? (text : String) : Option SettingsFile :=
  (DocAudit.Toml.document? text).bind fun fields =>
    ofFields? (Toml.optional Toml.text? fields) (Toml.optional Toml.flag? fields)
      (Toml.optional Toml.texts? fields)

/-! ## YAML -/

namespace Yaml

open DocAudit.Yaml

/-- The spellings of no value; nothing at all is another one. -/
def nulls : List String := ["null", "Null", "NULL", "~"]

/-- The tag of no value. -/
def nullTag : String := "tag:yaml.org,2002:null"

/-- The tag of truth values. -/
def flagTag : String := "tag:yaml.org,2002:bool"

/-- Any scalar is a text. -/
def text? (d : Document) (n : Node) : Option String :=
  match d.target n with
  | .scalar _ _ text => some text
  | _ => none

def flagOf? (text : String) : Option Bool :=
  if ["true", "True", "TRUE"].contains text then some true
  else if ["false", "False", "FALSE"].contains text then some false
  else none

/-- A plain scalar, or a literal block with the tag of truth values. -/
def flag? (d : Document) (n : Node) : Option Bool :=
  match d.target n with
  | .scalar _ .plain text => flagOf? text
  | .scalar (some tag) .literal text => if tag = flagTag then flagOf? text else none
  | _ => none

/-- A sequence of texts. Where a tag stands alone the sequence is empty. -/
def texts? (d : Document) (n : Node) : Option (List String) :=
  match d.target n with
  | .sequence items => items.mapM (text? d)
  | .scalar _ .plain "" => some []
  | _ => none

/-- A value, or one of the spellings of none. -/
def orNull {α : Type} (decode : Document → Node → Option α) (d : Document) (n : Node) :
    Option (Option α) :=
  let value := (decode d n).map some
  match d.target n with
  | .scalar none .plain text => if text = "" ∨ nulls.contains text then some none else value
  | .scalar (some tag) .plain text =>
    if tag ≠ nullTag then value else if nulls.contains text then some none else none
  | _ => value

/-- A value that may be absent; a name must not come twice. -/
def optional {α : Type} (decode : Document → Node → Option α) (d : Document)
    (fields : List (String × Node)) (name : String) : Option (Option α) :=
  match fields.filter (·.1 = name) with
  | [] => some none
  | [(_, n)] => orNull decode d n
  | _ => none

/-- The named values of a document. -/
def fields? (d : Document) : Option (List (String × Node)) :=
  match d.root with
  | .mapping entries => entries.mapM fun (k, v) => (text? d k).map fun name => (name, v)
  | .scalar _ .plain "" => some []
  | _ => none

end Yaml

/-- The settings in a text in YAML. -/
def ofYaml? (text : String) : Option SettingsFile := do
  let d ← DocAudit.Yaml.Document.ofText? text
  let fields ← Yaml.fields? d
  ofFields? (Yaml.optional Yaml.text? d fields) (Yaml.optional Yaml.flag? d fields)
    (Yaml.optional Yaml.texts? d fields)

/-! ## Files -/

/-- The names of settings files, in the order in which they are tried, with their readers. -/
def formats : List (String × (String → Option SettingsFile)) :=
  [("xmldoc.toml", ofToml?), ("xmldoc.yaml", ofYaml?), ("xmldoc.yml", ofYaml?)]

/-- The settings of a directory: those of the first settings file that is there. A file that cannot
be read counts as none, an invalid one is told of. -/
def load (disk : Disk) (root : Path) : Option SettingsFile × List Event :=
  match formats.find? fun f => disk.exists (root.join ⟨f.1⟩) with
  | none => (none, [])
  | some (name, decode) =>
    match disk.read (root.join ⟨name⟩) with
    | .error _ => (none, [])
    | .ok text =>
      match decode text with
      | some settings => (some settings, [])
      | none => (none, [.invalidSettings (root.join ⟨name⟩)])

end SettingsFile

end DocAudit
