import DocAudit.DocId.Synthesis
/-!
# The members to look at

For each member that users of a library can reach: its kind, the name under which it is reported,
its documentation id, if there is one, and whether its summary may be empty.

* `TypeInfo.auditedConstructors`, `TypeInfo.auditedMethods`, `TypeInfo.auditedFields`,
  `TypeInfo.auditedProperties`: these members, kind by kind.
-/

namespace DocAudit

/-- A member that needs a summary. -/
structure AuditedMember where
  kind : ElementKind
  name : String
  id : Except SynthesisError String
  /-- No summary is needed. -/
  mayBeEmpty : Bool := false

namespace TypeInfo

/-- The public constructors; one without parameters needs no summary. -/
def auditedConstructors (t : TypeInfo) : List AuditedMember :=
  t.publicConstructors.map fun c =>
    { kind := .constructor
      name := c.displayName
      id := t.constructorId c
      mayBeEmpty := c.parameters.isEmpty }

def auditedMethods (t : TypeInfo) : List AuditedMember :=
  t.publicMethods.map fun m =>
    { kind := .method, name := m.displayName, id := m.key.map (·.qualify t.ownerName) }

def auditedFields (t : TypeInfo) : List AuditedMember :=
  t.publicFields.map fun f =>
    { kind := .field, name := f.name, id := .ok (f.key.qualify t.ownerName) }

def auditedProperties (t : TypeInfo) : List AuditedMember :=
  t.publicProperties.map fun p =>
    { kind := .property, name := p.displayName, id := p.key.map (·.qualify t.ownerName) }

end TypeInfo

end DocAudit
