import DocAudit.Api.Decode
/-!
# Types and members as JSON

Every record is written with all its fields in their fixed order; a reference to a type has its
field `kind` first. Reading a written value gives the value back.
-/

namespace DocAudit

open Json (ofText?)

def Visibility.toJson (v : Visibility) : Json := .string v.label

namespace TypeRef

mutual

/-- A reference as JSON. -/
def toJson : TypeRef → Json
  | named ns name declaring args =>
    .object [("kind", .string TypeRefKind.named.label), ("namespace", ofText? ns),
      ("name", .string name), ("declaring", .array (declaring.map .string)),
      ("args", .array (toJsonAll args))]
  | array element rank =>
    .object [("kind", .string TypeRefKind.array.label), ("element", element.toJson),
      ("rank", .nat rank.toNat)]
  | byRef element =>
    .object [("kind", .string TypeRefKind.byRef.label), ("element", element.toJson)]
  | parameter position name =>
    .object [("kind", .string TypeRefKind.parameter.label), ("position", .nat position.toNat),
      ("name", ofText? name)]
  | unresolved hint =>
    .object [("kind", .string TypeRefKind.unresolved.label), ("hint", ofText? hint)]

/-- References as JSON values. -/
def toJsonAll : List TypeRef → List Json
  | [] => []
  | t :: ts => t.toJson :: toJsonAll ts

end

/-- An optional reference as JSON. -/
def optionalToJson : Option TypeRef → Json
  | some t => t.toJson
  | none => .null

end TypeRef

def ParameterInfo.toJson (p : ParameterInfo) : Json :=
  .object [("name", .string p.name), ("type", p.type.toJson)]

def MethodInfo.toJson (m : MethodInfo) : Json :=
  .object [("name", .string m.name), ("visibility", m.visibility.toJson),
    ("is_static", .bool m.isStatic), ("inherited", .bool m.inherited),
    ("special_name", .bool m.specialName), ("generic_arity", .nat m.genericArity.toNat),
    ("parameters", .array (m.parameters.map ParameterInfo.toJson)),
    ("return_type", TypeRef.optionalToJson m.returnType)]

def FieldInfo.toJson (f : FieldInfo) : Json :=
  .object [("name", .string f.name), ("visibility", f.visibility.toJson),
    ("is_static", .bool f.isStatic), ("inherited", .bool f.inherited),
    ("field_type", TypeRef.optionalToJson f.fieldType)]

def AccessorInfo.toJson (a : AccessorInfo) : Json :=
  .object [("visibility", a.visibility.toJson),
    ("parameters", .array (a.parameters.map ParameterInfo.toJson))]

/-- An optional accessor as JSON. -/
def AccessorInfo.optionalToJson : Option AccessorInfo → Json
  | some a => a.toJson
  | none => .null

def PropertyInfo.toJson (p : PropertyInfo) : Json :=
  .object [("name", .string p.name), ("inherited", .bool p.inherited),
    ("property_type", TypeRef.optionalToJson p.propertyType),
    ("getter", AccessorInfo.optionalToJson p.getter),
    ("setter", AccessorInfo.optionalToJson p.setter)]

/-- A type as JSON. -/
def TypeInfo.toJson (t : TypeInfo) : Json :=
  .object [("namespace", ofText? t.ns), ("name", .string t.name),
    ("declaring", .array (t.declaring.map .string)), ("visibility", t.visibility.toJson),
    ("base_type", ofText? t.baseType),
    ("constructors", .array (t.constructors.map MethodInfo.toJson)),
    ("methods", .array (t.methods.map MethodInfo.toJson)),
    ("fields", .array (t.fields.map FieldInfo.toJson)),
    ("properties", .array (t.properties.map PropertyInfo.toJson))]

end DocAudit
