import DocAudit.Api.Encode
/-!
# Reading back what was written

Every record is read from the look-ups of its fields, and what is written for it gives it back.

* `TypeRef.decode_eq`: a reference is read from its kind and its fields.
* **`TypeRef.decode_toJson`**: a written reference is read back.
* **`TypeInfo.ofJson?_toJson`**: a written type is read back.
-/

namespace DocAudit

open Json (record? required optional withDefault text? flag? word? list? lookup? ofText?)

/-! ## Reading references -/

namespace TypeRef

theorem decodeAll_eq_mapM (items : List Json) : decodeAll items = items.mapM (decode true) := by
  induction items with
  | nil => rw [decodeAll]; rfl
  | cons j js ih =>
    rw [decodeAll, ih, List.mapM_cons]
    cases decode true j with
    | none => rfl
    | some t => cases js.mapM (decode true) <;> rfl

/-- The reference of a kind with the given fields. -/
def ofFields? (fields : List (String × Json)) : TypeRefKind → Option TypeRef
  | .named => do
    let ns ← optional "namespace" fields text?
    let name ← required "name" fields text?
    let declaring ← withDefault "declaring" fields [] (list? text?)
    let args ← withDefault "args" fields [] (list? (decode true))
    some (named ns name declaring args)
  | .array => do
    let element ← required "element" fields (decode true)
    let rank ← withDefault "rank" fields 1 word?
    some (array element rank)
  | .byRef => (required "element" fields (decode true)).map byRef
  | .parameter => do
    let position ← required "position" fields word?
    let name ← optional "name" fields text?
    some (parameter position name)
  | .unresolved => (optional "hint" fields text?).map unresolved

/-- **A reference is read from its kind and its fields.** -/
theorem decode_eq (nested : Bool) (j : Json) :
    decode nested j = (TypeRefKind.split? nested j).bind fun p => ofFields? p.2 p.1 := by
  rw [decode]
  split
  next h => rw [h]; rfl
  next fields h =>
    rw [h, Option.bind_some, ofFields?]
    cases optional "namespace" fields text? with
    | none => rfl
    | some ns =>
    cases required "name" fields text? with
    | none => rfl
    | some name =>
    cases withDefault "declaring" fields [] (list? text?) with
    | none => rfl
    | some declaring =>
    -- only the arguments are read by a function of their own
    unfold withDefault
    generalize lookup? "args" fields = found
    cases found with
    | none => rfl
    | some v =>
      cases v with
      | array items =>
        dsimp only
        rw [decodeAll_eq_mapM, list?]
        cases items.mapM (decode true) <;> rfl
      | _ => rfl
  next fields h =>
    rw [h, Option.bind_some, ofFields?, required]
    split
    next he => rw [he]; rfl
    next e he =>
      rw [he, Option.bind_some]
      cases decode true e <;> cases withDefault "rank" fields 1 word? <;> rfl
  next fields h =>
    rw [h, Option.bind_some, ofFields?, required]
    split
    next he => rw [he]; rfl
    next e he => rw [he]; rfl
  next fields h =>
    rw [h, Option.bind_some]
    unfold ofFields?
    cases required "position" fields word? <;> cases optional "name" fields text? <;> rfl
  next fields h =>
    rw [h, Option.bind_some]
    rfl

theorem decode_object {nested : Bool} {fields : List (String × Json)} {k : TypeRefKind}
    (h : required "kind" fields (TypeRefKind.ofJson? nested) = some k) :
    decode nested (.object fields) = ofFields? fields k := by
  rw [decode_eq, TypeRefKind.split?, h]
  rfl

end TypeRef

/-! ## Reading back values -/

namespace Json

variable {α : Type}

/-- What a look-up of a field stands for that may be absent or `null`. -/
def orAbsent (decode : Json → Option α) : Option Json → Option (Option α)
  | some null | none => some none
  | some v => (decode v).map some

theorem optional_eq (name : String) (fields : List (String × Json)) (decode : Json → Option α) :
    optional name fields decode = orAbsent decode (lookup? name fields) := rfl

theorem orAbsent_of_ne_null {decode : Json → Option α} {v : Json} (hv : v ≠ null) :
    orAbsent decode (some v) = (decode v).map some := by
  cases v <;> first | rfl | exact absurd rfl hv

/-- What may be absent is read back when it is written as `null` then. -/
theorem orAbsent_elim {decode : Json → Option α} {encode : α → Json} {o : Option α}
    (hdecode : ∀ a ∈ o, decode (encode a) = some a) (hnull : decode null = none) :
    orAbsent decode (some (o.elim null encode)) = some o := by
  cases o with
  | none => rfl
  | some a =>
    have ha := hdecode a rfl
    have hne : encode a ≠ null := by
      intro heq
      rw [heq, hnull] at ha
      cases ha
    rw [Option.elim_some, orAbsent_of_ne_null hne, ha, Option.map_some]

theorem orAbsent_ofText? (o : Option String) : orAbsent text? (some (ofText? o)) = some o := by
  cases o <;> rfl

theorem text?_string (s : String) : text? (.string s) = some s := rfl

theorem flag?_bool (b : Bool) : flag? (.bool b) = some b := rfl

theorem word?_nat (n : UInt32) : word? (.nat n.toNat) = some n := by
  rw [nat, word?, if_pos n.toNat_lt_size, UInt32.ofNat_toNat]

theorem list?_map {decode : Json → Option α} {encode : α → Json} {as : List α}
    (h : ∀ a ∈ as, decode (encode a) = some a) :
    list? decode (.array (as.map encode)) = some as := by
  rw [list?]
  induction as with
  | nil => rfl
  | cons a as ih =>
    rw [List.map_cons, List.mapM_cons, h a List.mem_cons_self,
      ih fun a ha => h a (List.mem_cons_of_mem _ ha)]
    rfl

theorem list?_texts (ss : List String) : list? text? (.array (ss.map .string)) = some ss :=
  list?_map fun s _ => text?_string s

end Json

open Json

theorem Visibility.ofJson?_toJson (v : Visibility) : ofJson? v.toJson = some v := by
  cases v <;> rfl

/-! ## Reading back records -/

theorem TypeRef.toJsonAll_eq_map (ts : List TypeRef) : toJsonAll ts = ts.map toJson := by
  induction ts with
  | nil => rfl
  | cons t ts ih => rw [toJsonAll, ih, List.map_cons]

/-- **A written reference is read back.** -/
theorem TypeRef.decode_toJson (t : TypeRef) (nested : Bool) : decode nested t.toJson = some t := by
  induction t generalizing nested with
  | named ns name declaring args ih =>
    have hargs : list? (decode true) (.array (toJsonAll args)) = some args := by
      rw [toJsonAll_eq_map]
      exact list?_map fun t ht => ih t ht true
    rw [toJson, decode_object (k := .named) rfl]
    simp [ofFields?, optional_eq, required, withDefault, lookup?_cons, orAbsent_ofText?,
      text?_string, list?_texts, hargs]
  | array element rank ih =>
    rw [toJson, decode_object (k := .array) rfl]
    simp [ofFields?, required, withDefault, lookup?_cons, word?_nat, ih]
  | byRef element ih =>
    rw [toJson, decode_object (k := .byRef) rfl]
    simp [ofFields?, required, lookup?_cons, ih]
  | parameter position name =>
    rw [toJson, decode_object (k := .parameter) rfl]
    simp [ofFields?, optional_eq, required, lookup?_cons, orAbsent_ofText?, word?_nat]
  | unresolved hint =>
    rw [toJson, decode_object (k := .unresolved) rfl]
    simp [ofFields?, optional_eq, lookup?_cons, orAbsent_ofText?]

theorem TypeRef.orAbsent_optionalToJson (o : Option TypeRef) :
    orAbsent TypeRef.ofJson? (some (optionalToJson o)) = some o := by
  have h : optionalToJson o = o.elim null toJson := by cases o <;> rfl
  rw [h]
  exact orAbsent_elim (fun t _ => t.decode_toJson false) (decode_eq false null)

theorem ParameterInfo.ofJson?_toJson (p : ParameterInfo) : ofJson? p.toJson = some p := by
  simp [toJson, ofJson?, record?, required, withDefault, lookup?_cons, text?_string,
    TypeRef.ofJson?, TypeRef.decode_toJson]

theorem MethodInfo.ofJson?_toJson (m : MethodInfo) : ofJson? m.toJson = some m := by
  have hparameters : list? ParameterInfo.ofJson? (.array (m.parameters.map ParameterInfo.toJson)) =
      some m.parameters := list?_map fun p _ => p.ofJson?_toJson
  simp [toJson, ofJson?, record?, required, withDefault, optional_eq, lookup?_cons, text?_string,
    flag?_bool, word?_nat, Visibility.ofJson?_toJson, TypeRef.orAbsent_optionalToJson, hparameters]

theorem FieldInfo.ofJson?_toJson (f : FieldInfo) : ofJson? f.toJson = some f := by
  simp [toJson, ofJson?, record?, required, withDefault, optional_eq, lookup?_cons, text?_string,
    flag?_bool, Visibility.ofJson?_toJson, TypeRef.orAbsent_optionalToJson]

theorem AccessorInfo.ofJson?_toJson (a : AccessorInfo) : ofJson? a.toJson = some a := by
  have hparameters : list? ParameterInfo.ofJson? (.array (a.parameters.map ParameterInfo.toJson)) =
      some a.parameters := list?_map fun p _ => p.ofJson?_toJson
  simp [toJson, ofJson?, record?, withDefault, lookup?_cons, Visibility.ofJson?_toJson,
    hparameters]

theorem AccessorInfo.orAbsent_optionalToJson (o : Option AccessorInfo) :
    orAbsent ofJson? (some (optionalToJson o)) = some o := by
  have h : optionalToJson o = o.elim null toJson := by cases o <;> rfl
  rw [h]
  exact orAbsent_elim (fun a _ => a.ofJson?_toJson) rfl

theorem PropertyInfo.ofJson?_toJson (p : PropertyInfo) : ofJson? p.toJson = some p := by
  simp [toJson, ofJson?, record?, required, withDefault, optional_eq, lookup?_cons, text?_string,
    flag?_bool, TypeRef.orAbsent_optionalToJson, AccessorInfo.orAbsent_optionalToJson]

/-- **A written type is read back.** -/
theorem TypeInfo.ofJson?_toJson (t : TypeInfo) : ofJson? t.toJson = some t := by
  have hconstructors : list? MethodInfo.ofJson? (.array (t.constructors.map MethodInfo.toJson)) =
      some t.constructors := list?_map fun m _ => m.ofJson?_toJson
  have hmethods : list? MethodInfo.ofJson? (.array (t.methods.map MethodInfo.toJson)) =
      some t.methods := list?_map fun m _ => m.ofJson?_toJson
  have hfields : list? FieldInfo.ofJson? (.array (t.fields.map FieldInfo.toJson)) =
      some t.fields := list?_map fun f _ => f.ofJson?_toJson
  have hproperties : list? PropertyInfo.ofJson? (.array (t.properties.map PropertyInfo.toJson)) =
      some t.properties := list?_map fun p _ => p.ofJson?_toJson
  simp [toJson, ofJson?, record?, required, withDefault, optional_eq, lookup?_cons, text?_string,
    orAbsent_ofText?, list?_texts, Visibility.ofJson?_toJson, hconstructors, hmethods, hfields,
    hproperties]

end DocAudit
