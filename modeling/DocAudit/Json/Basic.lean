/-!
# JSON values

`Json` keeps the fields of an object in the order of the text, repeated names included; a look-up
by name finds the last one. Numbers keep what their reader needs: whether they are natural numbers
of at most 64 bits, and otherwise their decimal digits.
-/

namespace DocAudit

/-- A JSON number. -/
inductive JsonNumber where
  /-- An integer from 0 to 2⁶⁴ − 1, written without sign, fraction and exponent. -/
  | natural (n : Nat)
  /-- An integer from −2⁶³ to −1, written without fraction and exponent. -/
  | negative (n : Nat)
  /-- Any other number: its sign, the leading digits as an integer, and a power of ten. -/
  | decimal (isNegative : Bool) (digits : Nat) (exponent : Int)
deriving DecidableEq, Repr

/-- A JSON value. -/
inductive Json where
  | null
  | bool (b : Bool)
  | number (n : JsonNumber)
  | string (s : String)
  | array (items : List Json)
  | object (fields : List (String × Json))

namespace Json

instance : Inhabited Json := ⟨null⟩

/-- A natural number as a JSON value. -/
def nat (n : Nat) : Json := number (.natural n)

/-- The value of the last field with the given name. -/
def lookup? (name : String) (fields : List (String × Json)) : Option Json :=
  (fields.reverse.find? fun f => f.1 = name).map (·.2)

@[simp] theorem lookup?_nil (name : String) : lookup? name [] = none := rfl

theorem lookup?_append (name : String) (fs gs : List (String × Json)) :
    lookup? name (fs ++ gs) = (lookup? name gs).or (lookup? name fs) := by
  simp only [lookup?, List.reverse_append, List.find?_append, Option.map_or]

theorem lookup?_cons (name : String) (f : String × Json) (fs : List (String × Json)) :
    lookup? name (f :: fs) = (lookup? name fs).or (if f.1 = name then some f.2 else none) := by
  rw [← List.singleton_append, lookup?_append]
  congr 1
  by_cases h : f.1 = name <;> simp [lookup?, h]

theorem lookup?_eq_none {name : String} {fields : List (String × Json)}
    (h : ∀ f ∈ fields, f.1 ≠ name) : lookup? name fields = none := by
  rw [lookup?, List.find?_eq_none.mpr, Option.map_none]
  intro f hf
  simpa using h f (List.mem_reverse.mp hf)

/-- A field is found where no later one has its name. -/
theorem lookup?_insert_self (name : String) (before after : List (String × Json)) (v : Json) :
    lookup? name (before ++ (name, v) :: after) = (lookup? name after).or (some v) := by
  rw [lookup?_append, lookup?_cons, if_pos rfl, Option.or_assoc, Option.some_or]

/-- A field is not found under another name. -/
theorem lookup?_insert_of_ne {name name' : String} (h : name ≠ name')
    (before after : List (String × Json)) (v : Json) :
    lookup? name' (before ++ (name, v) :: after) = lookup? name' (before ++ after) := by
  rw [lookup?_append, lookup?_cons, if_neg h, Option.or_none, lookup?_append]

/-- A text, or `null` if there is none. -/
def ofText? : Option String → Json
  | some s => string s
  | none => null

end Json

end DocAudit
