/-!
# Kinds of documented elements

Each kind has the letter that opens its documentation ids and the label under which it is reported.
-/

namespace DocAudit

/-- What kind of element a summary belongs to. -/
inductive ElementKind where
  | «namespace»
  | type
  | constructor
  | method
  | field
  | property
deriving DecidableEq, Repr

namespace ElementKind

instance : Inhabited ElementKind := ⟨type⟩

/-- The letter that opens an id: the first letter of the kind, constructors being methods. -/
def letter : ElementKind → Char
  | «namespace» => 'N'
  | type => 'T'
  | constructor => 'M'
  | method => 'M'
  | field => 'F'
  | property => 'P'

/-- The label in findings. -/
def label : ElementKind → String
  | «namespace» => "NAMESPACE"
  | type => "TYPE"
  | constructor => "CONSTRUCTOR"
  | method => "METHOD"
  | field => "FIELD"
  | property => "PROPERTY"

/-- The spelling in JSON. -/
def name : ElementKind → String
  | «namespace» => "namespace"
  | type => "type"
  | constructor => "constructor"
  | method => "method"
  | field => "field"
  | property => "property"

end ElementKind

end DocAudit
