import DocAudit.Api.TypeRef
/-!
# Types and members of a library

Plain records for what a compiled library defines. A check looks only at what users of the library
can reach: the `public…` selections keep the members that are public and declared here.

* `TypeInfo.displayName`, `TypeInfo.qualifiedName`: the names under which a type is reported.
* `Surface`: all types of one library, and how many could not be resolved.
-/

namespace DocAudit

/-- Who can reach a type or member. -/
inductive Visibility where
  | «public»
  | «protected»
  | internal
  | «private»
deriving DecidableEq, Repr

namespace Visibility

instance : Inhabited Visibility := ⟨«public»⟩

def isPublic (v : Visibility) : Bool := v = «public»

/-- The spelling in metadata files. -/
def label : Visibility → String
  | «public» => "public"
  | «protected» => "protected"
  | internal => "internal"
  | «private» => "private"

end Visibility

/-- A parameter of a method, constructor or indexer. -/
structure ParameterInfo where
  name : String := ""
  type : TypeRef

/-- A constructor or method. -/
structure MethodInfo where
  name : String
  visibility : Visibility := .public
  isStatic : Bool := false
  /-- Declared on a base type and only inherited here. -/
  inherited : Bool := false
  /-- An operator, or an accessor of a property or event. -/
  specialName : Bool := false
  genericArity : UInt32 := 0
  parameters : List ParameterInfo := []
  returnType : Option TypeRef := none

namespace MethodInfo

def isGeneric (m : MethodInfo) : Bool := 0 < m.genericArity

/-- The name with the short names of the parameter types in parentheses. -/
def displayName (m : MethodInfo) : String :=
  m.name ++ "(" ++ ", ".intercalate (m.parameters.map (·.type.shortName)) ++ ")"

end MethodInfo

structure FieldInfo where
  name : String
  visibility : Visibility := .public
  isStatic : Bool := false
  inherited : Bool := false
  fieldType : Option TypeRef := none

/-- The getter or setter of a property. -/
structure AccessorInfo where
  visibility : Visibility := .public
  parameters : List ParameterInfo := []

structure PropertyInfo where
  name : String
  inherited : Bool := false
  propertyType : Option TypeRef := none
  getter : Option AccessorInfo := none
  setter : Option AccessorInfo := none

namespace PropertyInfo

/-- A property is public as soon as one of its accessors is. -/
def isPublic (p : PropertyInfo) : Bool :=
  p.getter.any (·.visibility.isPublic) || p.setter.any (·.visibility.isPublic)

/-- The parameters of the getter: an indexer has some, any other property none. -/
def indexParameters (p : PropertyInfo) : List ParameterInfo :=
  match p.getter with
  | some getter => getter.parameters
  | none => []

/-- The name; for an indexer with the short names of its parameter types in brackets. -/
def displayName (p : PropertyInfo) : String :=
  match p.indexParameters with
  | [] => p.name
  | ps => p.name ++ "[" ++ ", ".intercalate (ps.map (·.type.shortName)) ++ "]"

end PropertyInfo

/-- A type that the library defines, with the members it declares. -/
structure TypeInfo where
  ns : Option String := none
  /-- The own name, with its arity suffix. -/
  name : String
  /-- The enclosing types, outermost first. -/
  declaring : List String := []
  visibility : Visibility := .public
  baseType : Option String := none
  constructors : List MethodInfo := []
  methods : List MethodInfo := []
  fields : List FieldInfo := []
  properties : List PropertyInfo := []

/-- The field that every enumeration carries for its value. -/
def enumValueField : String := "value__"

namespace TypeInfo

/-- The namespace; an absent one is the same as an empty one. -/
def namespaceName (t : TypeInfo) : String := t.ns.getD ""

/-- The enclosing names and the own name, joined by dots. -/
def displayName (t : TypeInfo) : String := ".".intercalate (t.declaring ++ [t.name])

/-- The display name behind the namespace, if there is one. -/
def qualifiedName (t : TypeInfo) : String :=
  if t.namespaceName = "" then t.displayName else t.namespaceName ++ "." ++ t.displayName

def isDelegate (t : TypeInfo) : Bool :=
  t.baseType = some "System.Delegate" || t.baseType = some "System.MulticastDelegate"

def publicConstructors (t : TypeInfo) : List MethodInfo :=
  t.constructors.filter fun c => c.visibility.isPublic && !c.inherited

/-- The public methods declared here, without operators, accessors and generic methods. -/
def publicMethods (t : TypeInfo) : List MethodInfo :=
  t.methods.filter fun m => m.visibility.isPublic && !m.inherited && !m.specialName && !m.isGeneric

def publicFields (t : TypeInfo) : List FieldInfo :=
  t.fields.filter fun f => f.visibility.isPublic && !f.inherited && f.name != enumValueField

def publicProperties (t : TypeInfo) : List PropertyInfo :=
  t.properties.filter fun p => p.isPublic && !p.inherited

end TypeInfo

/-- What is known of one library: its name, its types in order, and how many more could not be
resolved. The types are complete when that number is zero. -/
structure Surface where
  assembly : String
  types : List TypeInfo := []
  unresolved : Nat := 0

end DocAudit
