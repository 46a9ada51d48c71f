import DocAudit.Proofs.Encoding
import Mathlib.Logic.Relation
/-!
# Other ways to write a record

A type can be written as JSON in many ways: the fields of an object may come in any order, a field
with a default may be left out when it holds the default, and further fields may be added. All of
them are read as the same type.

* `RecordKind.slots`: the fields of a record, what each is read as, and its default.
* `Edit`: one change of this kind, at any depth.
* **`Edit.decode_eq`**: such a change does not change what is read.
* **`encoded_type_survives_edits`**: a written type is read back after any number of changes.
-/

namespace DocAudit

open Json (record? required optional withDefault text? flag? word? list? lookup? orAbsent
  optional_eq orAbsent_of_ne_null)

/-- The records of a snapshot. -/
inductive RecordKind where
  /-- A reference to a type, perhaps inside of another one. -/
  | reference (nested : Bool)
  | parameter
  | method
  | field
  | accessor
  | property
  | type

/-- What a JSON value is read as. -/
inductive Place where
  /-- A value that holds no record. -/
  | plain
  | list (item : Place)
  | record (kind : RecordKind)

/-- A field of a record: what it is read as, and what it stands for when it is left out. -/
structure Slot where
  place : Place
  default : Option Json

/-! ## The fields of the records -/

def TypeRefKind.slots : TypeRefKind → List (String × Slot)
  | named =>
    [("namespace", ⟨.plain, some .null⟩), ("name", ⟨.plain, none⟩),
      ("declaring", ⟨.plain, some (.array [])⟩),
      ("args", ⟨.list (.record (.reference true)), some (.array [])⟩)]
  | array => [("element", ⟨.record (.reference true), none⟩), ("rank", ⟨.plain, some (.nat 1)⟩)]
  | byRef => [("element", ⟨.record (.reference true), none⟩)]
  | parameter => [("position", ⟨.plain, none⟩), ("name", ⟨.plain, some .null⟩)]
  | unresolved => [("hint", ⟨.plain, some .null⟩)]

theorem TypeRefKind.lookup_kind_slots (k : TypeRefKind) : k.slots.lookup "kind" = none := by
  cases k <;> rfl

namespace RecordKind

/-- The fields of a record by name. A reference has its field `kind` and those of its kind. -/
def slots : RecordKind → List (String × Json) → List (String × Slot)
  | reference nested, fields =>
    ("kind", ⟨.plain, none⟩) ::
      (required "kind" fields (TypeRefKind.ofJson? nested)).elim [] TypeRefKind.slots
  | parameter, _ =>
    [("name", ⟨.plain, some (.string "")⟩), ("type", ⟨.record (.reference false), none⟩)]
  | method, _ =>
    [("name", ⟨.plain, none⟩), ("visibility", ⟨.plain, some (.string "public")⟩),
      ("is_static", ⟨.plain, some (.bool false)⟩), ("inherited", ⟨.plain, some (.bool false)⟩),
      ("special_name", ⟨.plain, some (.bool false)⟩), ("generic_arity", ⟨.plain, some (.nat 0)⟩),
      ("parameters", ⟨.list (.record parameter), some (.array [])⟩),
      ("return_type", ⟨.record (.reference false), some .null⟩)]
  | field, _ =>
    [("name", ⟨.plain, none⟩), ("visibility", ⟨.plain, some (.string "public")⟩),
      ("is_static", ⟨.plain, some (.bool false)⟩), ("inherited", ⟨.plain, some (.bool false)⟩),
      ("field_type", ⟨.record (.reference false), some .null⟩)]
  | accessor, _ =>
    [("visibility", ⟨.plain, some (.string "public")⟩),
      ("parameters", ⟨.list (.record parameter), some (.array [])⟩)]
  | property, _ =>
    [("name", ⟨.plain, none⟩), ("inherited", ⟨.plain, some (.bool false)⟩),
      ("property_type", ⟨.record (.reference false), some .null⟩),
      ("getter", ⟨.record accessor, some .null⟩), ("setter", ⟨.record accessor, some .null⟩)]
  | type, _ =>
    [("namespace", ⟨.plain, some .null⟩), ("name", ⟨.plain, none⟩),
      ("declaring", ⟨.plain, some (.array [])⟩), ("visibility", ⟨.plain, some (.string "public")⟩),
      ("base_type", ⟨.plain, some .null⟩),
      ("constructors", ⟨.list (.record method), some (.array [])⟩),
      ("methods", ⟨.list (.record method), some (.array [])⟩),
      ("fields", ⟨.list (.record field), some (.array [])⟩),
      ("properties", ⟨.list (.record property), some (.array [])⟩)]

/-- The field of a record with the given name. -/
def slot? (kind : RecordKind) (fields : List (String × Json)) (name : String) : Option Slot :=
  (kind.slots fields).lookup name

/-- The names of the fields, in order. -/
def fieldNames : RecordKind → List (String × Json) → List String
  | reference nested, fields =>
    "kind" :: (required "kind" fields (TypeRefKind.ofJson? nested)).elim [] TypeRefKind.fields
  | parameter, _ => ParameterInfo.fieldNames
  | method, _ => MethodInfo.fieldNames
  | field, _ => FieldInfo.fieldNames
  | accessor, _ => AccessorInfo.fieldNames
  | property, _ => PropertyInfo.fieldNames
  | type, _ => TypeInfo.fieldNames

theorem map_fst_slots (kind : RecordKind) (fields : List (String × Json)) :
    (kind.slots fields).map (·.1) = kind.fieldNames fields := by
  cases kind with
  | reference nested =>
    rw [slots, fieldNames, List.map_cons]
    cases required "kind" fields (TypeRefKind.ofJson? nested) with
    | none => rfl
    | some k => cases k <;> rfl
  | _ => rfl

theorem slot?_eq_none_iff {kind : RecordKind} {fields : List (String × Json)} {name : String} :
    kind.slot? fields name = none ↔ name ∉ kind.fieldNames fields := by
  rw [slot?, List.lookup_eq_none_iff, ← map_fst_slots, List.mem_map]
  simp only [bne_iff_ne, not_exists, not_and]
  exact forall₂_congr fun p _ => ne_comm

/-- The values that a record stands for. -/
def Value : RecordKind → Type
  | reference _ => TypeRef
  | parameter => ParameterInfo
  | method => MethodInfo
  | field => FieldInfo
  | accessor => AccessorInfo
  | property => PropertyInfo
  | type => TypeInfo

def decode : (kind : RecordKind) → Json → Option kind.Value
  | reference nested => TypeRef.decode nested
  | parameter => ParameterInfo.ofJson?
  | method => MethodInfo.ofJson?
  | field => FieldInfo.ofJson?
  | accessor => AccessorInfo.ofJson?
  | property => PropertyInfo.ofJson?
  | type => TypeInfo.ofJson?

end RecordKind

namespace Place

/-- What a value at a place stands for. -/
def Value : Place → Type
  | plain => Json
  | list item => List item.Value
  | record kind => kind.Value

def decode : (place : Place) → Json → Option place.Value
  | plain => some
  | list item => list? item.decode
  | record kind => kind.decode

end Place

/-! ## Changes -/

/-- One change to a JSON value that is read at a place. -/
inductive Edit : Place → Json → Json → Prop where
  /-- The fields of an object come in another order. -/
  | permute {kind : RecordKind} {fields fields' : List (String × Json)}
      (hsingle : ∀ name ∈ kind.fieldNames fields, fields.countP (·.1 = name) ≤ 1)
      (h : fields.Perm fields') : Edit (.record kind) (.object fields) (.object fields')
  /-- A field is left out that holds its default. -/
  | drop {kind : RecordKind} (before after : List (String × Json)) {name : String} {v : Json}
      {slot : Slot} (hslot : kind.slot? (before ++ (name, v) :: after) name = some slot)
      (hdefault : slot.default = some v) (hsingle : ∀ f ∈ before ++ after, f.1 ≠ name) :
      Edit (.record kind) (.object (before ++ (name, v) :: after)) (.object (before ++ after))
  /-- A field is added that is none of the record. -/
  | add {kind : RecordKind} (before after : List (String × Json)) {name : String} {v : Json}
      (hname : name ∉ kind.fieldNames (before ++ after)) :
      Edit (.record kind) (.object (before ++ after)) (.object (before ++ (name, v) :: after))
  /-- The value of a field changes. -/
  | field {kind : RecordKind} (before after : List (String × Json)) {name : String} {v w : Json}
      {slot : Slot} (hslot : kind.slot? (before ++ (name, v) :: after) name = some slot)
      (h : Edit slot.place v w) :
      Edit (.record kind) (.object (before ++ (name, v) :: after))
        (.object (before ++ (name, w) :: after))
  /-- An item of a list changes. -/
  | item {place : Place} (before after : List Json) {v w : Json} (h : Edit place v w) :
      Edit (.list place) (.array (before ++ v :: after)) (.array (before ++ w :: after))

/-! ## Look-ups after a change -/

/-- A field is found with the same value, or with one that is read in the same way; or it was left
out while it had its default. -/
inductive Slot.Agrees (slot : Slot) : Option Json → Option Json → Prop where
  | same (found : Option Json) : Agrees slot found found
  | edited {v w : Json} (hv : v ≠ .null) (hw : w ≠ .null)
      (h : slot.place.decode w = slot.place.decode v) : Agrees slot (some v) (some w)
  | dropped {v : Json} (h : slot.default = some v) : Agrees slot (some v) none

/-- All fields of a record are found as before. -/
def RecordKind.Agree (kind : RecordKind) (fields fields' : List (String × Json)) : Prop :=
  ∀ name slot, kind.slot? fields name = some slot →
    slot.Agrees (lookup? name fields) (lookup? name fields')

namespace Json

theorem lookup?_eq_getLast? (name : String) (fields : List (String × Json)) :
    lookup? name fields = (fields.filter (·.1 = name)).getLast?.map (·.2) := by
  rw [lookup?, ← List.head?_filter, List.filter_reverse, List.head?_reverse]

theorem lookup?_perm {name : String} {fields fields' : List (String × Json)}
    (hsingle : fields.countP (·.1 = name) ≤ 1) (h : fields.Perm fields') :
    lookup? name fields' = lookup? name fields := by
  have hfilter := h.filter (·.1 = name)
  rw [List.countP_eq_length_filter] at hsingle
  rw [lookup?_eq_getLast?, lookup?_eq_getLast?]
  -- there is only one order for at most one field
  generalize fields.filter (·.1 = name) = found at hsingle hfilter
  generalize fields'.filter (·.1 = name) = found' at hfilter
  match found, hsingle with
  | [], _ => rw [hfilter.nil_eq]
  | [f], _ => rw [List.perm_singleton.mp hfilter.symm]

end Json

namespace RecordKind

variable {kind : RecordKind} {before after : List (String × Json)} {name : String} {v w : Json}
  {slot : Slot}

theorem agree_permute {fields fields' : List (String × Json)}
    (hsingle : ∀ name ∈ kind.fieldNames fields, fields.countP (·.1 = name) ≤ 1)
    (h : fields.Perm fields') : kind.Agree fields fields' := by
  intro name slot hslot
  have hname : name ∈ kind.fieldNames fields := by
    refine Classical.byContradiction fun hname => ?_
    rw [slot?_eq_none_iff.mpr hname] at hslot
    cases hslot
  rw [Json.lookup?_perm (hsingle name hname) h]
  exact .same _

theorem agree_drop (hslot : kind.slot? (before ++ (name, v) :: after) name = some slot)
    (hdefault : slot.default = some v) (hsingle : ∀ f ∈ before ++ after, f.1 ≠ name) :
    kind.Agree (before ++ (name, v) :: after) (before ++ after) := by
  intro name' slot' hslot'
  by_cases hname : name = name'
  · subst hname
    obtain rfl : slot = slot' := Option.some.inj (hslot.symm.trans hslot')
    have hafter : lookup? name after = none :=
      Json.lookup?_eq_none fun f hf => hsingle f (List.mem_append_right _ hf)
    rw [Json.lookup?_insert_self, hafter, Json.lookup?_eq_none hsingle]
    exact .dropped hdefault
  · rw [Json.lookup?_insert_of_ne hname]
    exact .same _

theorem agree_add (hname : name ∉ kind.fieldNames (before ++ after)) :
    kind.Agree (before ++ after) (before ++ (name, v) :: after) := by
  intro name' slot hslot
  have hne : name ≠ name' := by
    rintro rfl
    rw [slot?_eq_none_iff.mpr hname] at hslot
    cases hslot
  rw [Json.lookup?_insert_of_ne hne]
  exact .same _

theorem agree_field (hslot : kind.slot? (before ++ (name, v) :: after) name = some slot)
    (hv : v ≠ .null) (hw : w ≠ .null) (h : slot.place.decode w = slot.place.decode v) :
    kind.Agree (before ++ (name, v) :: after) (before ++ (name, w) :: after) := by
  intro name' slot' hslot'
  by_cases hname : name = name'
  · subst hname
    obtain rfl : slot = slot' := Option.some.inj (hslot.symm.trans hslot')
    rw [Json.lookup?_insert_self, Json.lookup?_insert_self]
    -- a later field with the same name hides the change
    cases lookup? name after with
    | none => exact .edited hv hw h
    | some found => exact .same _
  · rw [Json.lookup?_insert_of_ne hname, Json.lookup?_insert_of_ne hname]
    exact .same _

end RecordKind

/-! ## Fields that agree are read in the same way -/

/-- What is read off a value at a place only depends on what the value stands for there. -/
def Place.Reads {α : Type} (place : Place) (decode : Json → Option α) : Prop :=
  ∀ v w, place.decode w = place.decode v → decode w = decode v

theorem Place.reads_plain {α : Type} (decode : Json → Option α) : plain.Reads decode := by
  intro v w h
  rw [Option.some.inj h]

theorem Place.reads_decode (place : Place) : place.Reads place.decode := fun _ _ h => h

section Agrees

variable {α : Type} {name : String} {fields fields' : List (String × Json)} {place : Place}
  {decode : Json → Option α} (hdecode : place.Reads decode)

include hdecode

theorem required_congr
    (h : Slot.Agrees ⟨place, none⟩ (lookup? name fields) (lookup? name fields')) :
    required name fields' decode = required name fields decode := by
  unfold required
  generalize lookup? name fields = found at h
  generalize lookup? name fields' = found' at h
  cases h with
  | same found => rfl
  | edited _ _ h => exact hdecode _ _ h
  | dropped h => cases h

theorem withDefault_congr (default : α) {v : Json} (hv : decode v = some default)
    (h : Slot.Agrees ⟨place, some v⟩ (lookup? name fields) (lookup? name fields')) :
    withDefault name fields' default decode = withDefault name fields default decode := by
  unfold withDefault
  generalize lookup? name fields = found at h
  generalize lookup? name fields' = found' at h
  cases h with
  | same found => rfl
  | edited _ _ h => exact hdecode _ _ h
  | dropped h =>
    cases h
    exact hv.symm

theorem optional_congr
    (h : Slot.Agrees ⟨place, some .null⟩ (lookup? name fields) (lookup? name fields')) :
    optional name fields' decode = optional name fields decode := by
  rw [optional_eq, optional_eq]
  generalize lookup? name fields = found at h
  generalize lookup? name fields' = found' at h
  cases h with
  | same found => rfl
  | edited hv hw h => rw [orAbsent_of_ne_null hv, orAbsent_of_ne_null hw, hdecode _ _ h]
  | dropped h =>
    cases h
    rfl

end Agrees

theorem reads_reference : (Place.record (.reference false)).Reads TypeRef.ofJson? :=
  Place.reads_decode _

theorem reads_arguments :
    (Place.list (.record (.reference true))).Reads (list? (TypeRef.decode true)) :=
  Place.reads_decode _

theorem reads_element : (Place.record (.reference true)).Reads (TypeRef.decode true) :=
  Place.reads_decode _

theorem reads_parameters :
    (Place.list (.record .parameter)).Reads (list? ParameterInfo.ofJson?) :=
  Place.reads_decode _

theorem reads_accessor : (Place.record .accessor).Reads AccessorInfo.ofJson? :=
  Place.reads_decode _

theorem reads_methods : (Place.list (.record .method)).Reads (list? MethodInfo.ofJson?) :=
  Place.reads_decode _

theorem reads_fields : (Place.list (.record .field)).Reads (list? FieldInfo.ofJson?) :=
  Place.reads_decode _

theorem reads_properties : (Place.list (.record .property)).Reads (list? PropertyInfo.ofJson?) :=
  Place.reads_decode _

open Place (reads_plain)

section Records

variable {fields fields' : List (String × Json)}

theorem TypeRef.ofFields?_congr {k : TypeRefKind}
    (h : ∀ name slot, k.slots.lookup name = some slot →
      slot.Agrees (lookup? name fields) (lookup? name fields')) :
    ofFields? fields' k = ofFields? fields k := by
  cases k with
  | named =>
    have hns := optional_congr (reads_plain text?) (h "namespace" _ rfl)
    have hname := required_congr (reads_plain text?) (h "name" _ rfl)
    have hdeclaring := withDefault_congr (reads_plain (list? text?)) [] rfl (h "declaring" _ rfl)
    have hargs := withDefault_congr reads_arguments [] rfl (h "args" _ rfl)
    rw [ofFields?, ofFields?, hns, hname, hdeclaring, hargs]
  | array =>
    have helement := required_congr reads_element (h "element" _ rfl)
    have hrank := withDefault_congr (reads_plain word?) 1 rfl (h "rank" _ rfl)
    rw [ofFields?, ofFields?, helement, hrank]
  | byRef =>
    have helement := required_congr reads_element (h "element" _ rfl)
    rw [ofFields?, ofFields?, helement]
  | parameter =>
    have hposition := required_congr (reads_plain word?) (h "position" _ rfl)
    have hname := optional_congr (reads_plain text?) (h "name" _ rfl)
    rw [ofFields?, ofFields?, hposition, hname]
  | unresolved =>
    have hhint := optional_congr (reads_plain text?) (h "hint" _ rfl)
    rw [ofFields?, ofFields?, hhint]

theorem TypeRef.decode_congr {nested : Bool}
    (h : (RecordKind.reference nested).Agree fields fields') :
    decode nested (.object fields') = decode nested (.object fields) := by
  have hkind := required_congr (reads_plain (TypeRefKind.ofJson? nested)) (h "kind" _ rfl)
  rw [decode_eq, decode_eq, TypeRefKind.split?, TypeRefKind.split?, hkind]
  cases hk : required "kind" fields (TypeRefKind.ofJson? nested) with
  | none => rfl
  | some k =>
    -- the kind is found as before, so `h` is about the fields of this kind
    refine ofFields?_congr fun name slot hslot => h name slot ?_
    have hname : (name == "kind") = false := by
      rw [beq_eq_false_iff_ne]
      rintro rfl
      rw [k.lookup_kind_slots] at hslot
      cases hslot
    rw [RecordKind.slot?, RecordKind.slots, hk, List.lookup_cons, hname]
    exact hslot

theorem ParameterInfo.ofJson?_congr (h : RecordKind.parameter.Agree fields fields') :
    ofJson? (.object fields') = ofJson? (.object fields) := by
  have hname := withDefault_congr (reads_plain text?) "" rfl (h "name" _ rfl)
  have htype := required_congr reads_reference (h "type" _ rfl)
  simp only [ofJson?, record?, Option.bind_eq_bind, Option.bind_some, hname, htype]

theorem MethodInfo.ofJson?_congr (h : RecordKind.method.Agree fields fields') :
    ofJson? (.object fields') = ofJson? (.object fields) := by
  have hname := required_congr (reads_plain text?) (h "name" _ rfl)
  have hvisibility :=
    withDefault_congr (reads_plain Visibility.ofJson?) .public rfl (h "visibility" _ rfl)
  have hisStatic := withDefault_congr (reads_plain flag?) false rfl (h "is_static" _ rfl)
  have hinherited := withDefault_congr (reads_plain flag?) false rfl (h "inherited" _ rfl)
  have hspecialName := withDefault_congr (reads_plain flag?) false rfl (h "special_name" _ rfl)
  have hgenericArity := withDefault_congr (reads_plain word?) 0 rfl (h "generic_arity" _ rfl)
  have hparameters := withDefault_congr reads_parameters [] rfl (h "parameters" _ rfl)
  have hreturnType := optional_congr reads_reference (h "return_type" _ rfl)
  simp only [ofJson?, record?, Option.bind_eq_bind, Option.bind_some, hname, hvisibility, hisStatic,
    hinherited, hspecialName, hgenericArity, hparameters, hreturnType]

theorem FieldInfo.ofJson?_congr (h : RecordKind.field.Agree fields fields') :
    ofJson? (.object fields') = ofJson? (.object fields) := by
  have hname := required_congr (reads_plain text?) (h "name" _ rfl)
  have hvisibility :=
    withDefault_congr (reads_plain Visibility.ofJson?) .public rfl (h "visibility" _ rfl)
  have hisStatic := withDefault_congr (reads_plain flag?) false rfl (h "is_static" _ rfl)
  have hinherited := withDefault_congr (reads_plain flag?) false rfl (h "inherited" _ rfl)
  have hfieldType := optional_congr reads_reference (h "field_type" _ rfl)
  simp only [ofJson?, record?, Option.bind_eq_bind, Option.bind_some, hname, hvisibility, hisStatic,
    hinherited, hfieldType]

theorem AccessorInfo.ofJson?_congr (h : RecordKind.accessor.Agree fields fields') :
    ofJson? (.object fields') = ofJson? (.object fields) := by
  have hvisibility :=
    withDefault_congr (reads_plain Visibility.ofJson?) .public rfl (h "visibility" _ rfl)
  have hparameters := withDefault_congr reads_parameters [] rfl (h "parameters" _ rfl)
  simp only [ofJson?, record?, Option.bind_eq_bind, Option.bind_some, hvisibility, hparameters]

theorem PropertyInfo.ofJson?_congr (h : RecordKind.property.Agree fields fields') :
    ofJson? (.object fields') = ofJson? (.object fields) := by
  have hname := required_congr (reads_plain text?) (h "name" _ rfl)
  have hinherited := withDefault_congr (reads_plain flag?) false rfl (h "inherited" _ rfl)
  have hpropertyType := optional_congr reads_reference (h "property_type" _ rfl)
  have hgetter := optional_congr reads_accessor (h "getter" _ rfl)
  have hsetter := optional_congr reads_accessor (h "setter" _ rfl)
  simp only [ofJson?, record?, Option.bind_eq_bind, Option.bind_some, hname, hinherited,
    hpropertyType, hgetter, hsetter]

theorem TypeInfo.ofJson?_congr (h : RecordKind.type.Agree fields fields') :
    ofJson? (.object fields') = ofJson? (.object fields) := by
  have hns := optional_congr (reads_plain text?) (h "namespace" _ rfl)
  have hname := required_congr (reads_plain text?) (h "name" _ rfl)
  have hdeclaring := withDefault_congr (reads_plain (list? text?)) [] rfl (h "declaring" _ rfl)
  have hvisibility :=
    withDefault_congr (reads_plain Visibility.ofJson?) .public rfl (h "visibility" _ rfl)
  have hbaseType := optional_congr (reads_plain text?) (h "base_type" _ rfl)
  have hconstructors := withDefault_congr reads_methods [] rfl (h "constructors" _ rfl)
  have hmethods := withDefault_congr reads_methods [] rfl (h "methods" _ rfl)
  have hfields := withDefault_congr reads_fields [] rfl (h "fields" _ rfl)
  have hproperties := withDefault_congr reads_properties [] rfl (h "properties" _ rfl)
  simp only [ofJson?, record?, Option.bind_eq_bind, Option.bind_some, hns, hname, hdeclaring,
    hvisibility, hbaseType, hconstructors, hmethods, hfields, hproperties]

theorem RecordKind.decode_congr {kind : RecordKind} (h : kind.Agree fields fields') :
    kind.decode (.object fields') = kind.decode (.object fields) := by
  cases kind with
  | reference nested => exact TypeRef.decode_congr h
  | parameter => exact ParameterInfo.ofJson?_congr h
  | method => exact MethodInfo.ofJson?_congr h
  | field => exact FieldInfo.ofJson?_congr h
  | accessor => exact AccessorInfo.ofJson?_congr h
  | property => exact PropertyInfo.ofJson?_congr h
  | type => exact TypeInfo.ofJson?_congr h

end Records

theorem Json.list?_congr {α : Type} {decode : Json → Option α} {before after : List Json}
    {v w : Json} (h : decode w = decode v) :
    list? decode (.array (before ++ w :: after)) =
      list? decode (.array (before ++ v :: after)) := by
  simp only [list?, List.mapM_append, List.mapM_cons, h]

/-! ## What is read after changes -/

theorem Edit.ne_null {place : Place} {v w : Json} (h : Edit place v w) : v ≠ .null ∧ w ≠ .null := by
  cases h <;> exact ⟨nofun, nofun⟩

/-- **A change does not change what is read.** -/
theorem Edit.decode_eq {place : Place} {v w : Json} (h : Edit place v w) :
    place.decode w = place.decode v := by
  induction h with
  | permute hsingle h => exact RecordKind.decode_congr (RecordKind.agree_permute hsingle h)
  | drop before after hslot hdefault hsingle =>
    exact RecordKind.decode_congr (RecordKind.agree_drop hslot hdefault hsingle)
  | add before after hname => exact RecordKind.decode_congr (RecordKind.agree_add hname)
  | field before after hslot h ih =>
    obtain ⟨hv, hw⟩ := h.ne_null
    exact RecordKind.decode_congr (RecordKind.agree_field hslot hv hw ih)
  | item before after h ih => exact Json.list?_congr ih

theorem decode_eq_of_edits {place : Place} {v w : Json}
    (h : Relation.ReflTransGen (Edit place) v w) : place.decode w = place.decode v := by
  induction h with
  | refl => rfl
  | tail _ hedit ih => rw [hedit.decode_eq, ih]

/-- **A written type is read back, however it is written.** The JSON value for a type is read as
that type. This stays so when the fields of objects at any depth come in another order, fields that
hold their defaults are left out, and fields are added that are none of the record. -/
theorem encoded_type_survives_edits (t : TypeInfo) :
    TypeInfo.ofJson? t.toJson = some t ∧
      ∀ j, Relation.ReflTransGen (Edit (.record .type)) t.toJson j →
        TypeInfo.ofJson? j = some t := by
  refine ⟨t.ofJson?_toJson, fun j h => ?_⟩
  have hsame : TypeInfo.ofJson? j = TypeInfo.ofJson? t.toJson := decode_eq_of_edits h
  rw [hsame, t.ofJson?_toJson]

/-- The constructors come first, one of them leaves out that it is public, and there is a field for
a comment. -/
theorem encoded_type_survives_edits_constructor :
    TypeInfo.ofJson? (.object
      [("comment", .null),
        ("constructors", .array [.object
          [("name", .string ".ctor"), ("is_static", .bool false), ("inherited", .bool false),
            ("special_name", .bool false), ("generic_arity", .nat 0), ("parameters", .array []),
            ("return_type", .null)]]),
        ("namespace", .null), ("name", .string "Widget"), ("declaring", .array []),
        ("visibility", .string "public"), ("base_type", .null), ("methods", .array []),
        ("fields", .array []), ("properties", .array [])]) =
      some { name := "Widget", constructors := [{ name := ".ctor" }] } := by
  refine (encoded_type_survives_edits _).2 _ ?_
  let before : List (String × Json) :=
    [("namespace", .null), ("name", .string "Widget"), ("declaring", .array []),
      ("visibility", .string "public"), ("base_type", .null)]
  refine .head (.permute ?_ (@List.perm_middle _ _ before _)) ?_
  · decide
  refine .head (.field [] _ rfl (.item [] [] (.drop [("name", .string ".ctor")] _ rfl rfl ?_))) ?_
  · simp
  exact .single (.add [] _ (by decide))

end DocAudit
