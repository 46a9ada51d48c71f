import DocAudit.DocId.Kind
/-!
# The coverage tree

A check yields a tree: namespaces, their types, and the members of each type in four lists. Every
node has a summary and a tally of the errors in and right below it.

* `Summary`: whether an element has a summary.
* `Tally`: the errors at a node.
* `Coverage`: the tree of one library.
-/

namespace DocAudit

/-- The summary of an element. -/
inductive Summary where
  | present (text : String)
  | missing
  /-- There is none, and none is needed. -/
  | exempt
deriving DecidableEq, Repr

namespace Summary

instance : Inhabited Summary := ⟨missing⟩

/-- An empty text is no summary. -/
def ofText (text : String) : Summary := if text = "" then missing else present text

/-- Whether nothing has to be written. -/
def isSatisfied : Summary → Bool
  | missing => false
  | _ => true

def text? : Summary → Option String
  | present text => some text
  | _ => none

/-- The summary of an element that does not need one. -/
def orExempt (s : Summary) : Summary := if s.isSatisfied then s else exempt

end Summary

/-- The errors at a node: its own and those of its children. -/
structure Tally where
  hasErrors : Bool := false
  errors : Nat := 0
deriving DecidableEq, Repr, Inhabited

/-- A constructor, method, field or property. -/
structure MemberNode where
  kind : ElementKind
  name : String
  summary : Summary
  tally : Tally := {}
deriving DecidableEq, Repr

structure TypeNode where
  name : String
  summary : Summary
  constructors : List MemberNode := []
  methods : List MemberNode := []
  fields : List MemberNode := []
  properties : List MemberNode := []
  tally : Tally := {}
deriving DecidableEq, Repr

/-- All members, kind by kind. -/
def TypeNode.members (t : TypeNode) : List MemberNode :=
  t.constructors ++ t.methods ++ t.fields ++ t.properties

structure NamespaceNode where
  name : String
  summary : Summary
  types : List TypeNode := []
  tally : Tally := {}
deriving DecidableEq, Repr

/-- The tree of one library. -/
structure Coverage where
  assembly : String
  namespaces : List NamespaceNode := []
  /-- How many types could not be resolved. -/
  unresolved : Nat := 0
  tally : Tally := {}
deriving DecidableEq, Repr

namespace Coverage

def hasErrors (c : Coverage) : Bool := c.tally.hasErrors

def errors (c : Coverage) : Nat := c.tally.errors

end Coverage

end DocAudit
