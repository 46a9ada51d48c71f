import DocAudit.DocId.Synthesis
/-!
# What a spelling tells

Two references to types are spelled the same as soon as they have the same form: the dotted names,
the arguments, the ranks and the positions, without the names of type parameters and without the
way a dotted name came about.

* `TypeForm`, `TypeRef.form`: the form of a reference.
* `TypeForm.spelling`: the spelling of a form.
* `TypeRef.spell_generic`: the short cut for nullable types spells what the general rule would.
* **`TypeRef.spell_eq`**: a reference is spelled as its form is.
* `TypeRef.ordinarySpelling`: the spelling without a short cut for nullable types.
* **`TypeRef.spell_eq_ordinarySpelling`**: the short cut makes no difference at any depth.
* `TypeRef.Legible`: a reference without unresolved part, with plain dotted names.
-/

namespace DocAudit

/-! ## Forms -/

/-- The form of a type. -/
inductive TypeForm where
  | named (path : String) (args : List TypeForm)
  | array (element : TypeForm) (rank : Nat)
  | byRef (element : TypeForm)
  | parameter (position : UInt32)

namespace TypeForm

mutual

/-- The spelling of a form; an array of rank `n` has `n - 1` commas in its brackets. -/
def spelling : TypeForm → String
  | named path [] => path
  | named path (f :: fs) => path ++ "\x7b" ++ ",".intercalate (spellings (f :: fs)) ++ "\x7d"
  | array element rank =>
    spelling element ++ "[" ++ String.ofList (List.replicate (rank - 1) ',') ++ "]"
  | byRef element => spelling element ++ "@"
  | parameter position => "`" ++ position.toNat.repr

def spellings : List TypeForm → List String
  | [] => []
  | f :: fs => spelling f :: spellings fs

end

end TypeForm

namespace TypeRef

mutual

/-- The form of a reference, if no part of it is unresolved. An array of rank 0 is one of rank 1. -/
def form : TypeRef → Option TypeForm
  | named ns name declaring args =>
    (formAll args).map (.named (dottedPath ns declaring name))
  | array element rank => (form element).map (.array · (max rank.toNat 1))
  | byRef element => (form element).map .byRef
  | parameter position _ => some (.parameter position)
  | unresolved _ => none

def formAll : List TypeRef → Option (List TypeForm)
  | [] => some []
  | t :: ts =>
    match form t, formAll ts with
    | some f, some fs => some (f :: fs)
    | _, _ => none

end

/-! ## Spelling by form -/

theorem dottedPath_nullable : dottedPath (some "System") [] "Nullable`1" = "System.Nullable" := by
  decide

theorem spell_generic (ns : Option String) (name : String) (declaring : List String)
    (a : TypeRef) (as : List TypeRef) :
    (named ns name declaring (a :: as)).spell =
      (spellAll (a :: as)).map fun ss =>
        dottedPath ns declaring name ++ "\x7b" ++ ",".intercalate ss ++ "\x7d" := by
  by_cases h : ns = some "System" ∧ name = "Nullable`1" ∧ declaring = [] ∧ as = []
  · obtain ⟨rfl, rfl, rfl, rfl⟩ := h
    rw [spell, spellAll, spellAll, dottedPath_nullable]
    cases a.spell with
    | none => rfl
    | some s => simp
  · rw [spell]
    intro hns hname hdeclaring has
    exact h ⟨hns, hname, hdeclaring, has⟩

theorem rankCommas_eq (rank : UInt32) :
    rankCommas rank = String.ofList (List.replicate (max rank.toNat 1 - 1) ',') := by
  rw [rankCommas, show max rank.toNat 1 - 1 = rank.toNat - 1 by omega]

theorem spellAll_of_forall (ts : List TypeRef)
    (h : ∀ t ∈ ts, t.spell = t.form.map TypeForm.spelling) :
    spellAll ts = (formAll ts).map TypeForm.spellings := by
  induction ts with
  | nil => rfl
  | cons t ts ih =>
    rw [List.forall_mem_cons] at h
    rw [spellAll, formAll, h.1, ih h.2]
    cases t.form with
    | none => rfl
    | some f => cases formAll ts <;> rfl

/-- **A reference is spelled as its form is.** -/
theorem spell_eq (t : TypeRef) : t.spell = t.form.map TypeForm.spelling := by
  induction t with
  | named ns name declaring args ih =>
    cases args with
    | nil =>
      rw [spell, form, formAll]
      rfl
    | cons a as =>
      rw [spell_generic, spellAll_of_forall _ ih, form, formAll]
      cases a.form with
      | none => rfl
      | some f => cases formAll as <;> rfl
  | array element rank ih =>
    rw [spell, form, ih, rankCommas_eq]
    cases element.form <;> rfl
  | byRef element ih =>
    rw [spell, form, ih]
    cases element.form <;> rfl
  | parameter position name => rfl
  | unresolved hint => rfl

theorem spellAll_eq (ts : List TypeRef) : spellAll ts = (formAll ts).map TypeForm.spellings :=
  spellAll_of_forall ts fun t _ => t.spell_eq

/-! ## Nullable types by the ordinary rules -/

mutual

/-- The spelling by the rules for all types, under which a nullable type is a constructed generic
like any other. -/
def ordinarySpelling : TypeRef → Option String
  | named ns name declaring [] => some (dottedPath ns declaring name)
  | named ns name declaring (a :: as) =>
    (ordinarySpellings (a :: as)).map fun ss =>
      dottedPath ns declaring name ++ "\x7b" ++ ",".intercalate ss ++ "\x7d"
  | array element rank =>
    (ordinarySpelling element).map fun s => s ++ "[" ++ rankCommas rank ++ "]"
  | byRef element => (ordinarySpelling element).map (· ++ "@")
  | parameter position _ => some ("`" ++ position.toNat.repr)
  | unresolved _ => none

def ordinarySpellings : List TypeRef → Option (List String)
  | [] => some []
  | t :: ts =>
    match ordinarySpelling t, ordinarySpellings ts with
    | some s, some ss => some (s :: ss)
    | _, _ => none

end

theorem spellAll_eq_ordinarySpellings {ts : List TypeRef}
    (h : ∀ t ∈ ts, t.spell = t.ordinarySpelling) : spellAll ts = ordinarySpellings ts := by
  induction ts with
  | nil => rfl
  | cons t ts ih =>
    obtain ⟨ht, hts⟩ := List.forall_mem_cons.mp h
    rw [spellAll, ht, ih hts]
    rfl

/-- **The short cut for nullable types makes no difference.** Every reference is spelled as it is by
the ordinary rules alone, and has no spelling where it has none by them. -/
theorem spell_eq_ordinarySpelling (t : TypeRef) : t.spell = t.ordinarySpelling := by
  induction t with
  | named ns name declaring args ih =>
    cases args with
    | nil => rw [spell, ordinarySpelling]
    | cons a as => rw [spell_generic, spellAll_eq_ordinarySpellings ih, ordinarySpelling]
  | array element rank ih => rw [spell, ordinarySpelling, ih]
  | byRef element ih => rw [spell, ordinarySpelling, ih]
  | parameter position name => rfl
  | unresolved hint => rfl

example :
    (named (some "System") "Nullable`1" [] [array (named none "int" [] []) 2]).ordinarySpelling =
      some "System.Nullable\x7bSystem.Int32[,]\x7d" := by decide

/-! ## Legible references -/

mutual

/-- The reference itself and all references inside it. -/
def parts : TypeRef → List TypeRef
  | named ns name declaring args => named ns name declaring args :: partsAll args
  | array element rank => array element rank :: parts element
  | byRef element => byRef element :: parts element
  | parameter position name => [parameter position name]
  | unresolved hint => [unresolved hint]

def partsAll : List TypeRef → List TypeRef
  | [] => []
  | t :: ts => parts t ++ partsAll ts

end

theorem partsAll_eq_flatMap (ts : List TypeRef) : partsAll ts = ts.flatMap parts := by
  induction ts with
  | nil => rfl
  | cons t ts ih => rw [partsAll, ih, List.flatMap_cons]

theorem mem_parts_self (t : TypeRef) : t ∈ t.parts := by
  cases t <;> exact List.mem_cons_self

end TypeRef

/-- The characters that a spelling puts between and behind names. -/
def spellingMarks : List Char := ['{', '}', '[', ']', ',', '@']

/-- There are no marks and no backticks, so that a reader cannot take a name for something else. -/
def Plain (cs : List Char) : Prop := ∀ c ∈ cs, c ∉ '`' :: spellingMarks

instance (cs : List Char) : Decidable (Plain cs) := List.decidableBAll _ cs

theorem Plain.not_mem_spellingMarks {cs : List Char} (h : Plain cs) :
    ∀ c ∈ cs, c ∉ spellingMarks :=
  fun c hc hm => h c hc (List.mem_cons_of_mem _ hm)

/-- A reference without unresolved part, in which no dotted name has a mark. -/
structure TypeRef.Legible (t : TypeRef) : Prop where
  resolved : ∀ hint, .unresolved hint ∉ t.parts
  plain : ∀ ns name declaring args, .named ns name declaring args ∈ t.parts →
    Plain (dottedPath ns declaring name).toList

namespace TypeRef.Legible

theorem of_subset {a b : TypeRef} (h : b.Legible) (hs : a.parts ⊆ b.parts) : a.Legible where
  resolved hint hm := h.resolved hint (hs hm)
  plain ns name declaring args hm := h.plain ns name declaring args (hs hm)

theorem path {ns : Option String} {name : String} {declaring : List String} {args : List TypeRef}
    (h : (named ns name declaring args).Legible) : Plain (dottedPath ns declaring name).toList :=
  h.plain ns name declaring args (mem_parts_self _)

theorem argument {ns : Option String} {name : String} {declaring : List String}
    {args : List TypeRef} (h : (named ns name declaring args).Legible) {t : TypeRef}
    (ht : t ∈ args) : t.Legible := by
  refine h.of_subset fun u hu => ?_
  rw [parts, partsAll_eq_flatMap]
  exact List.mem_cons_of_mem _ (List.mem_flatMap.mpr ⟨t, ht, hu⟩)

theorem element {element : TypeRef} {rank : UInt32} (h : (array element rank).Legible) :
    element.Legible :=
  h.of_subset fun _ hu => List.mem_cons_of_mem _ hu

theorem target {element : TypeRef} (h : (byRef element).Legible) : element.Legible :=
  h.of_subset fun _ hu => List.mem_cons_of_mem _ hu

theorem not_unresolved {hint : Option String} : ¬ (unresolved hint).Legible :=
  fun h => h.resolved hint (mem_parts_self _)

end TypeRef.Legible

end DocAudit
