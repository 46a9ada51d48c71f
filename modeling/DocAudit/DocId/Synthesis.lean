import DocAudit.Api.Member
import DocAudit.DocId.Kind
import DocAudit.DocId.Spelling
/-!
# Documentation ids

Every documented element has an id such as `T:Acme.Widget` or `M:Acme.Widget.Run(System.Int32)`.
An id that has to spell an unresolved type cannot be built; `SynthesisError` names the element.

* `MemberKey`: the part of an id that does not depend on the owner type.
* `MemberKey.qualify`: the full id of a member of an owner.
* `constructorId`: ids of constructors, which are built in one go.
-/

namespace DocAudit

/-- The id of an element cannot be built, since one of its parameter types is unresolved. -/
structure SynthesisError where
  element : String
deriving DecidableEq, Repr

/-- The message for users. -/
def SynthesisError.message (e : SynthesisError) : String :=
  "Metadata unavailable while building key for " ++ e.element

/-- A key relative to an owner type; an empty name stands for the owner itself. -/
structure MemberKey where
  letter : Char
  name : String
deriving DecidableEq, Repr

/-- The full id, given the name of the owner. -/
def MemberKey.qualify (k : MemberKey) (owner : String) : String :=
  if k.name = "" then k.letter.toString ++ ":" ++ owner
  else k.letter.toString ++ ":" ++ owner ++ "." ++ k.name

/-- The spelled parameter types, separated by commas. -/
def spellParameters (ps : List ParameterInfo) (element : String) :
    Except SynthesisError String :=
  match TypeRef.spellAll (ps.map (·.type)) with
  | some ss => .ok (",".intercalate ss)
  | none => .error ⟨element⟩

/-- A name, followed by the spelled parameters in parentheses if there are any. -/
def spellSignature (name : String) (ps : List ParameterInfo) (element : String) :
    Except SynthesisError String :=
  match ps with
  | [] => .ok name
  | p :: ps => (spellParameters (p :: ps) element).map fun s => name ++ "(" ++ s ++ ")"

/-- The id of a namespace. -/
def namespaceId (ns : String) : String := "N:" ++ ns

namespace TypeInfo

/-- The name under which a type owns its members; arity suffixes stay. -/
def ownerName (t : TypeInfo) : String := t.qualifiedName

/-- The key of a type itself. -/
def key (_ : TypeInfo) : MemberKey := ⟨ElementKind.type.letter, ""⟩

/-- The full id of a type. -/
def id (t : TypeInfo) : String := t.key.qualify t.ownerName

end TypeInfo

/-- The key of a field. -/
def FieldInfo.key (f : FieldInfo) : MemberKey := ⟨ElementKind.field.letter, f.name⟩

/-- The key of a property; an indexer spells the parameters of its getter. -/
def PropertyInfo.key (p : PropertyInfo) : Except SynthesisError MemberKey :=
  (spellSignature p.name p.indexParameters p.name).map fun s => ⟨ElementKind.property.letter, s⟩

/-- The key of a method. -/
def MethodInfo.key (m : MethodInfo) : Except SynthesisError MemberKey :=
  (spellSignature m.name m.parameters m.name).map fun s => ⟨ElementKind.method.letter, s⟩

/-- The full id of a constructor of the type. -/
def TypeInfo.constructorId (owner : TypeInfo) (c : MethodInfo) : Except SynthesisError String :=
  spellSignature ("M:" ++ owner.ownerName ++ ".#ctor") c.parameters
    (owner.ownerName ++ "." ++ c.displayName)

end DocAudit
