import DocAudit.Api.Member
import DocAudit.Json.Record
/-!
# Types and members from JSON

Each record has its fields under fixed names; most have a default. A reference to a type is told
apart by its field `kind`, or by the first item when it is written as an array.

* `TypeRef.ofJson?`, `TypeInfo.ofJson?`: the value that a JSON value stands for, if it is one.
-/

set_option linter.unusedVariables false

namespace DocAudit

open Json (record? required optional withDefault text? flag? word? list? lookup?)

/-- The value of the enumeration that a text or an object with one field `null` names. -/
def Visibility.ofJson? (j : Json) : Option Visibility :=
  let named (s : String) : Option Visibility :=
    [Visibility.public, .protected, .internal, .private].find? (·.label = s)
  match j with
  | .string s => named s
  | .object ((name, v) :: fields) =>
    if fields.all (·.1 = name) then
      match lookup? name ((name, v) :: fields) with
      | some .null => named name
      | _ => none
    else none
  | _ => none

/-! ## References to types -/

/-- The kinds of references. -/
inductive TypeRefKind where
  | named
  | array
  | byRef
  | parameter
  | unresolved
deriving DecidableEq, Repr

namespace TypeRefKind

/-- The kinds in their fixed order. -/
def all : List TypeRefKind := [named, array, byRef, parameter, unresolved]

/-- The spelling in JSON. -/
def label : TypeRefKind → String
  | named => "named"
  | array => "array"
  | byRef => "by_ref"
  | parameter => "generic_parameter"
  | unresolved => "unresolved"

/-- The names of the fields, in order. -/
def fields : TypeRefKind → List String
  | named => ["namespace", "name", "declaring", "args"]
  | array => ["element", "rank"]
  | byRef => ["element"]
  | parameter => ["position", "name"]
  | unresolved => ["hint"]

/-- The kind with the given label. Inside another reference the position in `all` will do, too. -/
def ofJson? (nested : Bool) : Json → Option TypeRefKind
  | .string s => all.find? (·.label = s)
  | .number (.natural n) => if nested then all[n]? else none
  | _ => none

/-- The kind of a reference, and its fields. -/
def split? (nested : Bool) : Json → Option (TypeRefKind × List (String × Json))
  | .object fields => (required "kind" fields (ofJson? nested)).map fun k => (k, fields)
  | .array (tag :: items) =>
    (ofJson? nested tag).bind fun k =>
      (record? k.fields (.array items)).map fun fields => (k, fields)
  | _ => none

theorem sizeOf_lt_of_split? {nested : Bool} {j : Json} {k : TypeRefKind}
    {fields : List (String × Json)} (h : split? nested j = some (k, fields))
    {f : String × Json} (hf : f ∈ fields) : sizeOf f.2 < sizeOf j := by
  cases j with
  | object fs =>
    simp only [split?, Option.map_eq_some_iff, Prod.mk.injEq] at h
    obtain ⟨_, _, _, rfl⟩ := h
    exact Json.sizeOf_lt_of_mem_object hf
  | array items =>
    cases items with
    | nil => simp [split?] at h
    | cons tag items =>
      simp only [split?, Option.bind_eq_some_iff, Option.map_eq_some_iff, Prod.mk.injEq] at h
      obtain ⟨_, _, _, h, rfl, rfl⟩ := h
      have := Json.sizeOf_lt_of_record? h hf
      simp only [Json.array.sizeOf_spec, List.cons.sizeOf_spec] at *
      omega
  | null | bool | number | string => simp [split?] at h

end TypeRefKind

namespace TypeRef

mutual

/-- The reference that a JSON value stands for. -/
def decode (nested : Bool) (j : Json) : Option TypeRef :=
  match h : TypeRefKind.split? nested j with
  | none => none
  | some (.named, fields) =>
    let args :=
      match ha : lookup? "args" fields with
      | none => some []
      | some (.array items) => decodeAll items
      | some _ => none
    match optional "namespace" fields text?, required "name" fields text?,
        withDefault "declaring" fields [] (list? text?), args with
    | some ns, some name, some declaring, some args => some (named ns name declaring args)
    | _, _, _, _ => none
  | some (.array, fields) =>
    match he : lookup? "element" fields with
    | none => none
    | some e =>
      match decode true e, withDefault "rank" fields 1 word? with
      | some element, some rank => some (array element rank)
      | _, _ => none
  | some (.byRef, fields) =>
    match he : lookup? "element" fields with
    | none => none
    | some e => (decode true e).map byRef
  | some (.parameter, fields) =>
    match required "position" fields word?, optional "name" fields text? with
    | some position, some name => some (parameter position name)
    | _, _ => none
  | some (.unresolved, fields) => (optional "hint" fields text?).map unresolved
termination_by sizeOf j
decreasing_by
  · obtain ⟨n, hn⟩ := Json.mem_of_lookup? ha
    have := TypeRefKind.sizeOf_lt_of_split? h hn
    simp only [Json.array.sizeOf_spec] at this
    omega
  all_goals
    obtain ⟨n, hn⟩ := Json.mem_of_lookup? he
    exact TypeRefKind.sizeOf_lt_of_split? h hn

/-- The references that the items of an array inside a reference stand for. -/
def decodeAll (items : List Json) : Option (List TypeRef) :=
  match items with
  | [] => some []
  | j :: js =>
    match decode true j, decodeAll js with
    | some t, some ts => some (t :: ts)
    | _, _ => none
termination_by sizeOf items

end

/-- The reference that a JSON value stands for, outside of any other reference. -/
def ofJson? (j : Json) : Option TypeRef := decode false j

end TypeRef

/-! ## Records -/

namespace ParameterInfo

def fieldNames : List String := ["name", "type"]

def ofJson? (j : Json) : Option ParameterInfo := do
  let fields ← record? fieldNames j
  let name ← withDefault "name" fields "" text?
  let type ← required "type" fields TypeRef.ofJson?
  some { name, type }

end ParameterInfo

namespace MethodInfo

def fieldNames : List String :=
  ["name", "visibility", "is_static", "inherited", "special_name", "generic_arity", "parameters",
   "return_type"]

def ofJson? (j : Json) : Option MethodInfo := do
  let fields ← record? fieldNames j
  let name ← required "name" fields text?
  let visibility ← withDefault "visibility" fields .public Visibility.ofJson?
  let isStatic ← withDefault "is_static" fields false flag?
  let inherited ← withDefault "inherited" fields false flag?
  let specialName ← withDefault "special_name" fields false flag?
  let genericArity ← withDefault "generic_arity" fields 0 word?
  let parameters ← withDefault "parameters" fields [] (list? ParameterInfo.ofJson?)
  let returnType ← optional "return_type" fields TypeRef.ofJson?
  some { name, visibility, isStatic, inherited, specialName, genericArity, parameters, returnType }

end MethodInfo

namespace FieldInfo

def fieldNames : List String := ["name", "visibility", "is_static", "inherited", "field_type"]

def ofJson? (j : Json) : Option FieldInfo := do
  let fields ← record? fieldNames j
  let name ← required "name" fields text?
  let visibility ← withDefault "visibility" fields .public Visibility.ofJson?
  let isStatic ← withDefault "is_static" fields false flag?
  let inherited ← withDefault "inherited" fields false flag?
  let fieldType ← optional "field_type" fields TypeRef.ofJson?
  some { name, visibility, isStatic, inherited, fieldType }

end FieldInfo

namespace AccessorInfo

def fieldNames : List String := ["visibility", "parameters"]

def ofJson? (j : Json) : Option AccessorInfo := do
  let fields ← record? fieldNames j
  let visibility ← withDefault "visibility" fields .public Visibility.ofJson?
  let parameters ← withDefault "parameters" fields [] (list? ParameterInfo.ofJson?)
  some { visibility, parameters }

end AccessorInfo

namespace PropertyInfo

def fieldNames : List String := ["name", "inherited", "property_type", "getter", "setter"]

def ofJson? (j : Json) : Option PropertyInfo := do
  let fields ← record? fieldNames j
  let name ← required "name" fields text?
  let inherited ← withDefault "inherited" fields false flag?
  let propertyType ← optional "property_type" fields TypeRef.ofJson?
  let getter ← optional "getter" fields AccessorInfo.ofJson?
  let setter ← optional "setter" fields AccessorInfo.ofJson?
  some { name, inherited, propertyType, getter, setter }

end PropertyInfo

namespace TypeInfo

def fieldNames : List String :=
  ["namespace", "name", "declaring", "visibility", "base_type", "constructors", "methods",
   "fields", "properties"]

/-- The type that a JSON value stands for. -/
def ofJson? (j : Json) : Option TypeInfo := do
  let record ← record? fieldNames j
  let ns ← optional "namespace" record text?
  let name ← required "name" record text?
  let declaring ← withDefault "declaring" record [] (list? text?)
  let visibility ← withDefault "visibility" record .public Visibility.ofJson?
  let baseType ← optional "base_type" record text?
  let constructors ← withDefault "constructors" record [] (list? MethodInfo.ofJson?)
  let methods ← withDefault "methods" record [] (list? MethodInfo.ofJson?)
  let fields ← withDefault "fields" record [] (list? FieldInfo.ofJson?)
  let properties ← withDefault "properties" record [] (list? PropertyInfo.ofJson?)
  some { ns, name, declaring, visibility, baseType, constructors, methods, fields, properties }

end TypeInfo

end DocAudit
