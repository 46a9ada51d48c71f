import DocAudit.DocId.Synthesis
import Mathlib.Data.String.Basic
/-!
# Types where they are defined and where they are used

A type owns its members under one name and stands in parameter lists under another one. The two
names are built apart from each other; they agree, up to arity suffixes, unless the type is taken
for a primitive one.

* `TypeInfo.withoutArity`: a type without the arity suffixes in its name.
* `TypeInfo.taken`: the type that a reference to a type is taken for.
* **`TypeInfo.spell_reference`**: a reference is spelled as that type is defined.
* **`spelled_as_defined_iff`**: which types are spelled as they are defined themselves.
-/

namespace DocAudit

/-! ## Primitive names -/

/-- A name of a primitive type: its keyword, or its name in `System`. -/
def IsPrimitive (name : String) : Prop := ∃ p ∈ primitives, p.1 = name ∨ p.2 = name

/-- A keyword for a primitive type. -/
def IsKeyword (name : String) : Prop := ∃ p ∈ primitives, p.1 = name

instance (name : String) : Decidable (IsPrimitive name) := List.decidableBEx _ primitives
instance (name : String) : Decidable (IsKeyword name) := List.decidableBEx _ primitives

theorem exists_of_primitiveName? {name clr : String} (h : primitiveName? name = some clr) :
    ∃ p ∈ primitives, p.2 = clr ∧ (p.1 = name ∨ p.2 = name) := by
  obtain ⟨p, hp, rfl⟩ := Option.map_eq_some_iff.mp h
  exact ⟨p, List.mem_of_find?_eq_some hp, rfl, by simpa using List.find?_some hp⟩

theorem isSome_primitiveName?_iff (name : String) :
    (primitiveName? name).isSome = true ↔ IsPrimitive name := by
  rw [primitiveName?, Option.isSome_map, List.find?_isSome]
  simp [IsPrimitive]

theorem primitiveName?_keyword : ∀ p ∈ primitives, primitiveName? p.1 = some p.2 := by decide

theorem stripArity_keyword_ne : ∀ p ∈ primitives, stripArity p.2 ≠ stripArity p.1 := by decide

theorem system_ne_primitive : ∀ p ∈ primitives,
    "System" ++ "." ++ stripArity p.2 ≠ stripArity p.1 ∧
      "System" ++ "." ++ stripArity p.2 ≠ stripArity p.2 := by decide

theorem stripArity_primitiveName?_eq_iff (name : String) :
    stripArity ((primitiveName? name).getD name) = stripArity name ↔ ¬ IsKeyword name := by
  constructor
  · rintro h ⟨p, hp, rfl⟩
    rw [primitiveName?_keyword p hp, Option.getD_some] at h
    exact stripArity_keyword_ne p hp h
  · intro hkeyword
    cases h : primitiveName? name with
    | none => rfl
    | some clr =>
      obtain ⟨p, hp, rfl, hname | hname⟩ := exists_of_primitiveName? h
      · exact absurd ⟨p, hp, hname⟩ hkeyword
      · rw [Option.getD_some, hname]

/-! ## The two names -/

theorem intercalate_snoc_inj {sep a b : String} (xs : List String) :
    sep.intercalate (xs ++ [a]) = sep.intercalate (xs ++ [b]) ↔ a = b := by
  cases xs with
  | nil => rw [List.nil_append, List.nil_append, String.intercalate_singleton,
      String.intercalate_singleton]
  | cons x xs =>
    rw [String.intercalate_append_of_ne_nil (List.cons_ne_nil _ _) (List.cons_ne_nil _ _),
      String.intercalate_append_of_ne_nil (List.cons_ne_nil _ _) (List.cons_ne_nil _ _),
      String.append_right_inj, String.intercalate_singleton, String.intercalate_singleton]

namespace TypeInfo

/-- The reference to a type, without arguments. -/
def reference (t : TypeInfo) : TypeRef := .named t.ns t.name t.declaring []

/-- The type with the arity suffixes of its own name and of the enclosing names removed. -/
def withoutArity (t : TypeInfo) : TypeInfo :=
  { t with name := stripArity t.name, declaring := t.declaring.map stripArity }

/-- The type that a reference to a type is taken for: in `System`, a primitive name outside of all
namespaces is moved there, and a keyword stands for the primitive type. -/
def taken (t : TypeInfo) : TypeInfo :=
  let space := spelledNamespace t.ns t.declaring t.name
  { t with
    ns := some space
    name := if space = "System" then (primitiveName? t.name).getD t.name else t.name }

variable (t : TypeInfo)

theorem ownerName_withoutArity : t.withoutArity.ownerName =
    if t.namespaceName = "" then ".".intercalate (t.declaring.map stripArity ++ [stripArity t.name])
    else t.namespaceName ++ "." ++
      ".".intercalate (t.declaring.map stripArity ++ [stripArity t.name]) := rfl

/-- **A reference is spelled as the type that it is taken for is defined**, without arity
suffixes. -/
theorem spell_reference : t.reference.spell = some t.taken.withoutArity.ownerName := by
  have hspace : t.taken.namespaceName = spelledNamespace t.ns t.declaring t.name := rfl
  rw [ownerName_withoutArity, reference, TypeRef.spell, dottedPath, hspace]
  by_cases h : spelledNamespace t.ns t.declaring t.name = ""
  · rw [if_pos h, if_pos h]
    rfl
  · rw [if_neg h, if_neg h, List.append_assoc, List.singleton_append,
      String.intercalate_cons_of_ne_nil
        (List.append_ne_nil_of_right_ne_nil _ (List.cons_ne_nil _ _))]
    rfl

theorem namespaceName_taken : t.taken.namespaceName =
    if t.namespaceName = "" ∧ t.declaring = [] ∧ IsPrimitive t.name then "System"
    else t.namespaceName := by
  show spelledNamespace t.ns t.declaring t.name = _
  simp only [← isSome_primitiveName?_iff, spelledNamespace, namespaceName]
  split
  · next h => simp [h]
  · next h => rw [if_neg fun hmoved => h hmoved.1]

theorem name_taken : t.taken.name =
    if t.taken.namespaceName = "System" then (primitiveName? t.name).getD t.name else t.name := rfl

theorem ownerName_taken_ne (hns : t.namespaceName = "") (hdeclaring : t.declaring = [])
    (hname : IsPrimitive t.name) : t.taken.withoutArity.ownerName ≠ t.withoutArity.ownerName := by
  have hspace : t.taken.namespaceName = "System" := by
    rw [namespaceName_taken, if_pos ⟨hns, hdeclaring, hname⟩]
  obtain ⟨clr, hclr⟩ := Option.isSome_iff_exists.mp ((isSome_primitiveName?_iff t.name).mpr hname)
  have hnested : t.taken.declaring = [] := hdeclaring
  rw [ownerName_withoutArity, ownerName_withoutArity, if_pos hns, name_taken, if_pos hspace, hspace,
    hclr, if_neg (by decide), hnested, hdeclaring]
  obtain ⟨p, hp, rfl, heq | heq⟩ := exists_of_primitiveName? hclr
  · rw [← heq]
    exact (system_ne_primitive p hp).1
  · rw [← heq]
    exact (system_ne_primitive p hp).2

/-- Inside `System` the spelling differs from the definition for keywords only, nested or not. -/
theorem ownerName_taken_eq_iff (hns : t.namespaceName = "System") :
    t.taken.withoutArity.ownerName = t.withoutArity.ownerName ↔ ¬ IsKeyword t.name := by
  have hspace : t.taken.namespaceName = "System" := by
    rw [namespaceName_taken, if_neg, hns]
    rw [hns]
    exact fun h => absurd h.1 (by decide)
  rw [ownerName_withoutArity, ownerName_withoutArity, name_taken, if_pos hspace, hspace, hns,
    if_neg (by decide), if_neg (by decide), String.append_right_inj]
  exact (intercalate_snoc_inj _).trans (stripArity_primitiveName?_eq_iff t.name)

theorem ownerName_taken_eq
    (hmoved : ¬ (t.namespaceName = "" ∧ t.declaring = [] ∧ IsPrimitive t.name))
    (hns : t.namespaceName ≠ "System") :
    t.taken.withoutArity.ownerName = t.withoutArity.ownerName := by
  have hspace : t.taken.namespaceName = t.namespaceName := by
    rw [namespaceName_taken, if_neg hmoved]
  rw [ownerName_withoutArity, ownerName_withoutArity, name_taken, hspace, if_neg hns]
  rfl

end TypeInfo

/-- **Which types are spelled as they are defined.** A reference to a type is spelled as the name
under which the type owns its members, with nothing but arity suffixes removed, unless the type has
a primitive name outside of all namespaces and types, or a keyword for its name in `System`. The
second exception holds for nested types, too. -/
theorem spelled_as_defined_iff (t : TypeInfo) :
    t.reference.spell = some t.withoutArity.ownerName ↔
      ¬ (t.namespaceName = "" ∧ t.declaring = [] ∧ IsPrimitive t.name) ∧
      ¬ (t.namespaceName = "System" ∧ IsKeyword t.name) := by
  rw [t.spell_reference, Option.some_inj]
  by_cases hmoved : t.namespaceName = "" ∧ t.declaring = [] ∧ IsPrimitive t.name
  · exact iff_of_false (t.ownerName_taken_ne hmoved.1 hmoved.2.1 hmoved.2.2) fun h => h.1 hmoved
  by_cases hns : t.namespaceName = "System"
  · rw [t.ownerName_taken_eq_iff hns]
    exact ⟨fun h => ⟨hmoved, fun hkeyword => h hkeyword.2⟩, fun h hname => h.2 ⟨hns, hname⟩⟩
  · exact iff_of_true (t.ownerName_taken_eq hmoved hns) ⟨hmoved, fun h => hns h.1⟩

/-- **A nested type is spelled under another name than it has.** The type is neither at the top
level nor without namespace, and still its name is read as a keyword. -/
theorem nested_keyword_renamed :
    let t : TypeInfo := { ns := some "System", name := "int", declaring := ["Outer"] }
    t.declaring ≠ [] ∧ t.withoutArity.ownerName = "System.Outer.int" ∧
      t.reference.spell = some "System.Outer.Int32" ∧
      t.reference.spell ≠ some t.withoutArity.ownerName := by
  decide

end DocAudit
