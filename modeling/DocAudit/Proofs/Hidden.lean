import DocAudit.Proofs.Walk
/-!
# What users cannot reach plays no part

Members and types that users cannot reach may be deleted before a check: every step of the check
comes out the same.

* `TypeInfo.withoutHidden`, `Surface.withoutHidden`: what is left after the deletion.
* `byNamespace_map`: grouping looks at the namespaces of types only.
* `Auditor.type_withoutHidden`, `Auditor.namespace_withoutHidden`: the steps of a check.
* **`hidden_parts_ignored`**: the tree and the findings stay the same.
-/

namespace DocAudit

/-! ## Deleting what is hidden -/

/-- A getter or setter that everybody can call. -/
def PropertyInfo.HasPublicAccessor (p : PropertyInfo) : Prop :=
  (∃ g ∈ p.getter, g.visibility = .public) ∨ ∃ s ∈ p.setter, s.visibility = .public

theorem PropertyInfo.isPublic_iff (p : PropertyInfo) : p.isPublic = true ↔ p.HasPublicAccessor := by
  unfold isPublic HasPublicAccessor
  cases p.getter <;> cases p.setter <;> simp [Visibility.isPublic]

instance (p : PropertyInfo) : Decidable p.HasPublicAccessor :=
  decidable_of_iff _ p.isPublic_iff

/-- The type without the members that its users cannot reach: those that are not public or only
inherited, and the operators, accessors and generic methods, and the value of an enumeration. -/
def TypeInfo.withoutHidden (t : TypeInfo) : TypeInfo where
  ns := t.ns
  name := t.name
  declaring := t.declaring
  visibility := t.visibility
  baseType := t.baseType
  constructors := t.constructors.filter fun c => ¬ (c.visibility ≠ .public ∨ c.inherited)
  methods := t.methods.filter fun m =>
    ¬ (m.visibility ≠ .public ∨ m.inherited ∨ m.specialName ∨ m.genericArity ≠ 0)
  fields := t.fields.filter fun f =>
    ¬ (f.visibility ≠ .public ∨ f.inherited ∨ f.name = "value__")
  properties := t.properties.filter fun p => ¬ (p.inherited ∨ ¬ p.HasPublicAccessor)

/-- The library without the types that its users cannot reach, and without such members of the
others. -/
def Surface.withoutHidden (s : Surface) : Surface where
  assembly := s.assembly
  types := (s.types.filter (·.visibility = .public)).map TypeInfo.withoutHidden
  unresolved := s.unresolved

/-! ## The selections of members -/

theorem filter_filter_of_imp {α : Type} {p q : α → Bool} (h : ∀ a, p a = true → q a = true)
    (as : List α) : (as.filter q).filter p = as.filter p := by
  rw [List.filter_filter]
  congr 1
  funext a
  cases hp : p a with
  | false => rfl
  | true => rw [h a hp, Bool.true_and]

namespace TypeInfo

variable (t : TypeInfo)

theorem namespaceName_withoutHidden : t.withoutHidden.namespaceName = t.namespaceName := rfl

theorem publicConstructors_withoutHidden :
    t.withoutHidden.publicConstructors = t.publicConstructors := by
  refine filter_filter_of_imp (fun c hc => ?_) t.constructors
  simp only [Visibility.isPublic, Bool.and_eq_true, decide_eq_true_eq] at hc
  simp_all

theorem publicMethods_withoutHidden : t.withoutHidden.publicMethods = t.publicMethods := by
  refine filter_filter_of_imp (fun m hm => ?_) t.methods
  simp only [Visibility.isPublic, MethodInfo.isGeneric, Bool.and_eq_true, decide_eq_true_eq] at hm
  simp_all

theorem publicFields_withoutHidden : t.withoutHidden.publicFields = t.publicFields := by
  refine filter_filter_of_imp (fun f hf => ?_) t.fields
  simp only [Visibility.isPublic, enumValueField, Bool.and_eq_true, decide_eq_true_eq] at hf
  simp_all

theorem publicProperties_withoutHidden :
    t.withoutHidden.publicProperties = t.publicProperties := by
  refine filter_filter_of_imp (fun p hp => ?_) t.properties
  rw [Bool.and_eq_true, p.isPublic_iff] at hp
  simp_all

theorem memberCounts_withoutHidden : t.withoutHidden.memberCounts = t.memberCounts := by
  unfold memberCounts
  rw [publicConstructors_withoutHidden, publicMethods_withoutHidden, publicFields_withoutHidden,
    publicProperties_withoutHidden]

end TypeInfo

theorem Surface.filter_isPublic_withoutHidden (s : Surface) :
    s.withoutHidden.types.filter (·.visibility.isPublic) =
      (s.types.filter (·.visibility.isPublic)).map TypeInfo.withoutHidden := by
  show ((s.types.filter (·.visibility.isPublic)).map TypeInfo.withoutHidden).filter _ = _
  rw [List.filter_map]
  congr 1
  exact List.filter_eq_self.mpr fun t ht => (List.mem_filter.mp ht).2

/-! ## Grouping -/

namespace Grouping

/-- Every type replaced. -/
def map (f : TypeInfo → TypeInfo) (g : Grouping) : Grouping where
  groups := g.groups.map fun p => (p.1, p.2.map f)
  slots := g.slots

variable {f : TypeInfo → TypeInfo} (hf : ∀ t, (f t).namespaceName = t.namespaceName)

theorem reserve_map (g : Grouping) (ns : String) :
    (g.map f).reserve ns = ((g.reserve ns).1, (g.reserve ns).2.map f) := by
  have hslots : (g.map f).slots = g.slots := rfl
  have hlength : (g.map f).groups.length = g.groups.length := List.length_map _
  unfold reserve
  rw [hslots, hlength]
  cases g.slots.lookup ns with
  | some slot => rfl
  | none => simp [map]

include hf

/-- **Replacing a type before it is added or afterwards is the same**, as long as it stays in its
namespace. -/
theorem add_map (g : Grouping) (t : TypeInfo) : (g.map f).add (f t) = (g.add t).map f := by
  unfold add
  rw [hf, reserve_map]
  obtain ⟨slot, g'⟩ := g.reserve t.namespaceName
  show Grouping.mk _ _ = Grouping.mk _ _
  congr 1
  refine List.ext_getElem? fun i => ?_
  simp only [map, List.getElem?_modify, List.getElem?_map]
  cases g'.groups[i]? with
  | none => rfl
  | some p => by_cases h : slot = i <;> simp [h]

theorem foldl_add_map (ts : List TypeInfo) : ∀ g : Grouping,
    (ts.map f).foldl add (g.map f) = (ts.foldl add g).map f := by
  induction ts with
  | nil => exact fun _ => rfl
  | cons t ts ih =>
    intro g
    rw [List.map_cons, List.foldl_cons, List.foldl_cons, add_map hf, ih]

end Grouping

/-- **Grouping looks at nothing but the namespaces of the types.** -/
theorem byNamespace_map {f : TypeInfo → TypeInfo}
    (hf : ∀ t, (f t).namespaceName = t.namespaceName) (ts : List TypeInfo) :
    byNamespace (ts.map f) = (byNamespace ts).map fun p => (p.1, p.2.map f) := by
  have h := Grouping.foldl_add_map hf ts {}
  exact congrArg Grouping.groups h

/-! ## The steps of a check -/

namespace Auditor

variable (a : Auditor)

/-- A check of a type looks at its names, its base type and its public members; the ids of members
are built from the name of the type, which is kept. -/
theorem type_withoutHidden (t : TypeInfo) : a.type t.withoutHidden = a.type t := by
  unfold type TypeInfo.auditedConstructors TypeInfo.auditedMethods TypeInfo.auditedFields
    TypeInfo.auditedProperties
  rw [t.publicConstructors_withoutHidden, t.publicMethods_withoutHidden,
    t.publicFields_withoutHidden, t.publicProperties_withoutHidden]
  rfl

theorem types_withoutHidden (ns : String) (count : Nat) (ts : List TypeInfo) :
    ∀ (position : Nat) (seen : List String),
      a.types ns count position seen (ts.map TypeInfo.withoutHidden) =
        a.types ns count position seen ts := by
  induction ts with
  | nil => exact fun _ _ => rfl
  | cons t ts ih =>
    intro position seen
    have hname : t.withoutHidden.displayName = t.displayName := rfl
    rw [List.map_cons, types, types, hname, t.memberCounts_withoutHidden, a.type_withoutHidden]
    simp only [ih]

theorem namespaceSummary_withoutHidden (ns : String) (ts : List TypeInfo) :
    a.namespaceSummary ns (ts.map TypeInfo.withoutHidden) = a.namespaceSummary ns ts := by
  cases ts <;> rfl

theorem namespace_withoutHidden (ns : String) (ts : List TypeInfo) :
    a.namespace ns (ts.map TypeInfo.withoutHidden) = a.namespace ns ts := by
  unfold «namespace»
  rw [namespaceSummary_withoutHidden, List.length_map, types_withoutHidden]

theorem namespaces_withoutHidden (count : Nat) (groups : List (String × List TypeInfo)) :
    ∀ position : Nat,
      a.namespaces count position (groups.map fun p => (p.1, p.2.map TypeInfo.withoutHidden)) =
        a.namespaces count position groups := by
  induction groups with
  | nil => exact fun _ => rfl
  | cons p groups ih =>
    intro position
    rw [List.map_cons, namespaces, namespaces, List.length_map, namespace_withoutHidden]
    simp only [ih]

theorem check_withoutHidden (s : Surface) :
    ∃ v : Visit Coverage, a.check s = (noteUnresolved s >>= fun _ => v) ∧
      a.check s.withoutHidden = (noteUnresolved s.withoutHidden >>= fun _ => v) := by
  refine ⟨_, rfl, ?_⟩
  have hgroups : byNamespace (s.withoutHidden.types.filter (·.visibility.isPublic)) =
      (byNamespace (s.types.filter (·.visibility.isPublic))).map fun p =>
        (p.1, p.2.map TypeInfo.withoutHidden) := by
    rw [s.filter_isPublic_withoutHidden]
    exact byNamespace_map TypeInfo.namespaceName_withoutHidden _
  unfold check
  simp only [hgroups, List.length_map, namespaces_withoutHidden]
  rfl

theorem result_withoutHidden (s : Surface) :
    (a.check s.withoutHidden).result = (a.check s).result := by
  obtain ⟨v, h, h'⟩ := a.check_withoutHidden s
  rw [h, h', Visit.result_bind, Visit.result_bind]

theorem findings_withoutHidden (s : Surface) :
    (a.check s.withoutHidden).findings = (a.check s).findings := by
  obtain ⟨v, h, h'⟩ := a.check_withoutHidden s
  rw [h, h', Visit.findings_bind, Visit.findings_bind, findings_noteUnresolved,
    findings_noteUnresolved]

end Auditor

theorem Surface.withoutHidden_insert {s : Surface} {before after : List TypeInfo}
    {hidden : TypeInfo} (hs : s.types = before ++ after) (hh : hidden.visibility ≠ .public) :
    withoutHidden { s with types := before ++ hidden :: after } = s.withoutHidden := by
  simp only [withoutHidden, hs, List.filter_append, List.filter_cons, decide_eq_false hh,
    Bool.false_eq_true, if_false]

/-- **Only what users can reach influences a check.** Deleting hidden types and members changes
neither the tree nor the findings, and in the log at most the number of types at hand when others
are unresolved. So a hidden type anywhere among the others, whatever its namespace and name, has no
effect. -/
theorem hidden_parts_ignored (a : Auditor) (s : Surface) :
    (a.check s.withoutHidden).result = (a.check s).result ∧
    (a.check s.withoutHidden).findings = (a.check s).findings ∧
    (∃ log, (a.check s).log = (Auditor.noteUnresolved s).log ++ log ∧
      (a.check s.withoutHidden).log = (Auditor.noteUnresolved s.withoutHidden).log ++ log) ∧
    ∀ before after hidden, s.types = before ++ after → hidden.visibility ≠ .public →
      (a.check { s with types := before ++ hidden :: after }).result = (a.check s).result ∧
      (a.check { s with types := before ++ hidden :: after }).findings = (a.check s).findings := by
  refine ⟨a.result_withoutHidden s, a.findings_withoutHidden s, ?_, ?_⟩
  · obtain ⟨v, h, h'⟩ := a.check_withoutHidden s
    refine ⟨v.log, ?_, ?_⟩
    · rw [h, Visit.log_bind]
    · rw [h', Visit.log_bind]
  · intro before after hidden hs hh
    have hsame := Surface.withoutHidden_insert hs hh
    constructor
    · rw [← a.result_withoutHidden, hsame, a.result_withoutHidden]
    · rw [← a.findings_withoutHidden, hsame, a.findings_withoutHidden]

end DocAudit
