import DocAudit.Docs.Lookup
import DocAudit.Xml.Document
/-!
# Documentation files

A documentation file lists documented members, each with the id of an element and its summary. The
text of a summary is all text inside of it: markup inside is left out, its text is kept.

* `Documentation.ofNode?`: the documentation that a document holds.
* `Documentation.ofText`: the documentation in the text of a document.
* `Documentation.index`: look-ups in it.
-/

namespace DocAudit

/-- The documentation of a library: the name of its assembly, if it is given, and the documented
members in order. -/
structure Documentation where
  assembly : Option String
  entries : List (String × Fragment)

namespace Documentation

open Xml

/-- The entries of which the key has not come before. -/
def firstOfEach {α : Type} : List (String × α) → List (String × α)
  | [] => []
  | e :: es => e :: (firstOfEach es).filter fun f => f.1 ≠ e.1

/-- The id and the summary of a member; a member without a name is none. -/
def entry? (member : Node) : Option (String × Fragment) :=
  (member.attribute? "name").map fun id => (id, ⟨(member.child? "summary").map Node.innerText⟩)

/-- The element that lists the members: `members` inside `doc`, or `members` alone. -/
def members? (root : Node) : Option Node :=
  if root.isElement "doc" then root.child? "members"
  else if root.isElement "members" then some root
  else none

/-- The name of the assembly. -/
def assembly? (root : Node) : Option String :=
  ((root.child? "assembly").bind (Node.child? "name")).map fun n => Text.trim n.innerText

/-- The documentation that a document holds. The first member with an id counts. -/
def ofNode? (root : Node) : Option Documentation :=
  (members? root).map fun members =>
    { assembly := assembly? root
      entries := firstOfEach
        ((members.children.filter (Node.isElement "member")).filterMap entry?) }

/-- The documentation in the text of a document. -/
def ofText (text : String) : Except LoadReason Documentation :=
  match Node.ofText? text with
  | none => .error .malformedXml
  | some root =>
    match ofNode? root with
    | none => .error .noMembers
    | some d => .ok d

/-- How many elements are documented. -/
def size (d : Documentation) : Nat := d.entries.length

/-- What is written under an id. -/
def fragment (d : Documentation) (id : String) : Option Fragment :=
  (d.entries.find? fun e => e.1 = id).map (·.2)

/-- Look-ups in the documentation; an absent id is no error. -/
def index (d : Documentation) : DocIndex := { fragment := d.fragment }

end Documentation

end DocAudit
