import DocAudit.Json.Basic
/-!
# Records in JSON

A record is an object, or an array of its fields in order of which the last ones may be missing.
Fields that nobody asks for are ignored.

* `Json.record?`: the fields of a record.
* `Json.required`, `Json.optional`, `Json.withDefault`: one field of it.
-/

namespace DocAudit.Json

/-- The fields of a record with the given field names. -/
def record? (names : List String) : Json → Option (List (String × Json))
  | object fields => some fields
  | array items => if items.length ≤ names.length then some (names.zip items) else none
  | _ => none

/-- A field that has to be there. -/
def required {α : Type} (name : String) (fields : List (String × Json))
    (decode : Json → Option α) : Option α :=
  (lookup? name fields).bind decode

/-- A field that stands for the given value when it is absent. -/
def withDefault {α : Type} (name : String) (fields : List (String × Json)) (default : α)
    (decode : Json → Option α) : Option α :=
  match lookup? name fields with
  | some v => decode v
  | none => some default

/-- A field that may be absent or `null`. -/
def optional {α : Type} (name : String) (fields : List (String × Json))
    (decode : Json → Option α) : Option (Option α) :=
  match lookup? name fields with
  | some null | none => some none
  | some v => (decode v).map some

def text? : Json → Option String
  | string s => some s
  | _ => none

def flag? : Json → Option Bool
  | bool b => some b
  | _ => none

/-- A number of 32 bits. -/
def word? : Json → Option UInt32
  | number (.natural n) => if n < UInt32.size then some (UInt32.ofNat n) else none
  | _ => none

/-- An array of which every item can be decoded. -/
def list? {α : Type} (decode : Json → Option α) : Json → Option (List α)
  | array items => items.mapM decode
  | _ => none

theorem mem_of_lookup? {name : String} {fields : List (String × Json)} {v : Json}
    (h : lookup? name fields = some v) : ∃ n, (n, v) ∈ fields := by
  simp only [lookup?, Option.map_eq_some_iff] at h
  obtain ⟨f, hf, rfl⟩ := h
  exact ⟨f.1, List.mem_reverse.1 (List.mem_of_find?_eq_some hf)⟩

theorem sizeOf_lt_of_mem_object {fields : List (String × Json)} {f : String × Json}
    (h : f ∈ fields) : sizeOf f.2 < sizeOf (object fields) := by
  have := List.sizeOf_lt_of_mem h
  obtain ⟨n, v⟩ := f
  simp only [Prod.mk.sizeOf_spec, object.sizeOf_spec] at *
  omega

theorem sizeOf_lt_of_mem_array {items : List Json} {v : Json} (h : v ∈ items) :
    sizeOf v < sizeOf (array items) := by
  have := List.sizeOf_lt_of_mem h
  simp only [array.sizeOf_spec]
  omega

/-- The fields of a record are smaller than the record. -/
theorem sizeOf_lt_of_record? {names : List String} {j : Json} {fields : List (String × Json)}
    (h : record? names j = some fields) {f : String × Json} (hf : f ∈ fields) :
    sizeOf f.2 < sizeOf j := by
  cases j with
  | object fs =>
    obtain rfl : fs = fields := Option.some.inj h
    exact sizeOf_lt_of_mem_object hf
  | array items =>
    simp only [record?, Option.ite_none_right_eq_some, Option.some.injEq] at h
    obtain ⟨_, rfl⟩ := h
    exact sizeOf_lt_of_mem_array (List.of_mem_zip hf).2
  | null | bool | number | string => simp [record?] at h

end DocAudit.Json
