import DocAudit.Audit.Elements
import DocAudit.Audit.Grouping
import DocAudit.Audit.Visit
import DocAudit.Coverage.Tally
import DocAudit.Docs.Lookup
/-!
# Checking a library

A check visits the namespaces of a library in the order in which they first appear, the types of
each namespace, and the members of each type, looks every one of them up, and builds the coverage
tree.

* `Auditor`: the documentation to look things up in, and the options.
* `Auditor.check`: the tree of a library, with the findings.
-/

namespace DocAudit

/-- What a check reports and what it leaves out. -/
structure AuditOptions where
  /-- Report only elements without summary. -/
  onlyMissing : Bool := true
  /-- Look at a delegate itself but not at its members. -/
  skipDelegateMembers : Bool := true
deriving DecidableEq, Repr

/-- How many public members of each kind a type has. -/
def TypeInfo.memberCounts (t : TypeInfo) : MemberCounts where
  constructors := t.publicConstructors.length
  methods := t.publicMethods.length
  fields := t.publicFields.length
  properties := t.publicProperties.length

/-- The documentation of a library, and what to look at. -/
structure Auditor where
  index : DocIndex
  options : AuditOptions := {}

namespace Auditor

variable (a : Auditor)

/-- The summary under an id; `element` is named when the look-up fails. -/
def summary (element id : String) : Visit Summary :=
  match a.index.lookup id with
  | .ok (some fragment) => pure (Summary.ofText fragment.text)
  | .ok none => pure .missing
  | .error e => do
    Visit.note (.lookupFailed element e)
    pure .missing

/-- Reports what was found out about an element, if the options ask for it. -/
def report (kind : ElementKind) (name : String) (s : Summary) : Visit Unit := do
  Visit.note (.checked kind name)
  let finding := Finding.ofSummary kind name s
  if a.options.onlyMissing && !finding.isMissing then pure () else Visit.report finding

/-- The summary of a member; a member without id has none. -/
def memberSummary (m : AuditedMember) : Visit Summary :=
  match m.id with
  | .ok id => a.summary id id
  | .error e => do
    Visit.note (.keyFailed e)
    pure .missing

/-- Checks a member of the type with the given name. -/
def member (owner : String) (m : AuditedMember) : Visit MemberNode := do
  let found ← a.memberSummary m
  let summary := if m.mayBeEmpty then found.orExempt else found
  a.report m.kind (owner ++ "::" ++ m.name) summary
  pure { kind := m.kind, name := m.name, summary }

/-- Whether the members of a type are left out. -/
def skipsMembers (t : TypeInfo) : Bool := a.options.skipDelegateMembers && t.isDelegate

/-- Checks a type and its members. -/
def type (t : TypeInfo) : Visit TypeNode := do
  let owner := t.qualifiedName
  let summary ← a.summary owner t.id
  a.report .type owner summary
  let node : TypeNode := { name := t.displayName, summary }
  if a.skipsMembers t then
    Visit.note (.skippedMembers owner)
    pure node
  else
    let constructors ← Visit.forEach (a.member owner) t.auditedConstructors
    let methods ← Visit.forEach (a.member owner) t.auditedMethods
    let fields ← Visit.forEach (a.member owner) t.auditedFields
    let properties ← Visit.forEach (a.member owner) t.auditedProperties
    pure { node with constructors, methods, fields, properties }

/-- Checks the types of a namespace, of which `count` are there, from the given position on. A type
whose name was seen before is left out. -/
def types (ns : String) (count position : Nat) (seen : List String) :
    List TypeInfo → Visit (List TypeNode)
  | [] => pure []
  | t :: ts =>
    if t.displayName ∈ seen then do
      Visit.note (.repeatedType t.displayName ns)
      types ns count (position + 1) seen ts
    else do
      Visit.note (.checkingType position count t.displayName t.memberCounts)
      let node ← a.type t
      let nodes ← types ns count (position + 1) (t.displayName :: seen) ts
      pure (node :: nodes)

/-- The summary of a namespace, which is looked up through its first type. -/
def namespaceSummary (ns : String) : List TypeInfo → Visit Summary
  | [] => pure .missing
  | t :: _ => do
    Visit.note (.namespaceLookup ns t.qualifiedName)
    a.summary ns (namespaceId ns)

/-- Checks a namespace and its types. -/
def «namespace» (ns : String) (ts : List TypeInfo) : Visit NamespaceNode := do
  let summary ← a.namespaceSummary ns ts
  a.report .namespace ns summary
  let types ← a.types ns ts.length 1 [] ts
  pure { name := ns, summary, types }

/-- Checks namespaces, of which `count` are there, from the given position on. -/
def namespaces (count position : Nat) :
    List (String × List TypeInfo) → Visit (List NamespaceNode)
  | [] => pure []
  | (ns, ts) :: rest => do
    Visit.note (.checkingNamespace position count ns ts.length)
    let node ← a.namespace ns ts
    let nodes ← namespaces count (position + 1) rest
    pure (node :: nodes)

/-- Tells that some types are missing, if so. -/
def noteUnresolved (s : Surface) : Visit Unit :=
  if s.unresolved = 0 then pure ()
  else Visit.note (.incompleteTypes s.assembly s.unresolved s.types.length)

/-- Checks a library: its coverage tree, with all errors counted. -/
def check (s : Surface) : Visit Coverage := do
  noteUnresolved s
  let groups := byNamespace (s.types.filter (·.visibility.isPublic))
  Visit.note (.namespaceCount groups.length)
  let namespaces ← a.namespaces groups.length 1 groups
  let coverage := Coverage.aggregate
    { assembly := s.assembly, namespaces, unresolved := s.unresolved }
  Visit.note (.completed (if coverage.hasErrors then some coverage.errors else none))
  pure coverage

end Auditor

end DocAudit
