import DocAudit.Coverage.Tree
import DocAudit.Json.Basic
/-!
# The coverage tree as JSON

Every node is an object with its fields in a fixed order, the tally last.
-/

namespace DocAudit

def Summary.toJson : Summary → Json
  | present text => .object [("status", .string "present"), ("text", .string text)]
  | missing => .object [("status", .string "missing")]
  | exempt => .object [("status", .string "exempt")]

/-- The fields that a tally adds to those of its node. -/
def Tally.fields (t : Tally) : List (String × Json) :=
  [("has_errors", .bool t.hasErrors), ("error_count", .nat t.errors)]

def MemberNode.toJson (m : MemberNode) : Json :=
  .object ([("kind", .string m.kind.name), ("name", .string m.name),
    ("summary", m.summary.toJson)] ++ m.tally.fields)

def TypeNode.toJson (t : TypeNode) : Json :=
  .object ([("name", .string t.name), ("summary", t.summary.toJson),
    ("constructors", .array (t.constructors.map MemberNode.toJson)),
    ("methods", .array (t.methods.map MemberNode.toJson)),
    ("fields", .array (t.fields.map MemberNode.toJson)),
    ("properties", .array (t.properties.map MemberNode.toJson))] ++ t.tally.fields)

def NamespaceNode.toJson (n : NamespaceNode) : Json :=
  .object ([("name", .string n.name), ("summary", n.summary.toJson),
    ("types", .array (n.types.map TypeNode.toJson))] ++ n.tally.fields)

/-- The tree of a library as JSON. -/
def Coverage.toJson (c : Coverage) : Json :=
  .object ([("assembly_name", .string c.assembly),
    ("namespaces", .array (c.namespaces.map NamespaceNode.toJson)),
    ("unresolved_types", .nat c.unresolved)] ++ c.tally.fields)

end DocAudit
