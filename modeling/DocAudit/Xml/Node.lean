/-!
# Documents as trees

A `Node` is an element with its attributes and children, or a piece of text, a comment or a
processing instruction. Elements go by their local names, whatever namespace they are in.

* `Node.innerText`: all text below a node, in order.
* `Node.child?`: the first child element of a name.
-/

namespace DocAudit.Xml

/-- An attribute: its namespace, if it has a prefix, its local name and its value. -/
structure Attribute where
  space : Option String := none
  name : String
  value : String
deriving DecidableEq, Repr

/-- A node of a document. -/
inductive Node where
  | element (name : String) (attributes : List Attribute) (children : List Node)
  | text (content : String)
  | comment
  /-- A processing instruction. -/
  | instruction

namespace Node

instance : Inhabited Node := ⟨comment⟩

mutual

/-- The text of a node: what its text nodes at any depth hold. -/
def innerText : Node → String
  | element _ _ children => innerTexts children
  | text content => content
  | comment | instruction => ""

/-- The text of a list of nodes. -/
def innerTexts : List Node → String
  | [] => ""
  | n :: ns => innerText n ++ innerTexts ns

end

/-- Whether a node is an element with the given local name. -/
def isElement (name : String) : Node → Bool
  | element n _ _ => n = name
  | _ => false

def children : Node → List Node
  | element _ _ children => children
  | _ => []

/-- The first child element with the given local name. -/
def child? (name : String) (n : Node) : Option Node := n.children.find? (isElement name)

/-- The value of the attribute with the given name and no prefix. -/
def attribute? (name : String) : Node → Option String
  | element _ attributes _ =>
    (attributes.find? fun a => a.space = none ∧ a.name = name).map (·.value)
  | _ => none

end Node

end DocAudit.Xml
