import DocAudit.Proofs.Interleaving
import DocAudit.Proofs.MoreDocumentation
import DocAudit.Proofs.Spelling
import DocAudit.Proofs.Verdict
import Mathlib.Data.List.Forall2
/-!
# Members with unresolved parameter types

An id that has to spell a type with an unresolved part cannot be built. The member then counts as
one without summary, and nothing else is touched by it.

* `TypeRef.HasUnresolved`, `Unspellable`: a part of a type, or of a parameter type, is unresolved.
* **`TypeRef.spell_eq_none_iff`**: such types have no spelling, and all others have one.
* `TypeNode.RecordsMissing`: the members without id in the node of a type.
* `Surface.SameButParameters`: two libraries that differ in parameters only.
* `NamespaceNode.SameElsewhere`: their trees beside each other.
* **`unspellable_members`**: when ids cannot be built, and what a check makes of it.
-/

namespace DocAudit

/-! ## Types without spelling -/

namespace TypeRef

/-- The reference or a part of it, however deep inside, is unresolved. -/
def HasUnresolved (t : TypeRef) : Prop := ∃ hint, .unresolved hint ∈ t.parts

theorem hasUnresolved_named {ns : Option String} {name : String} {declaring : List String}
    {args : List TypeRef} :
    (named ns name declaring args).HasUnresolved ↔ ∃ t ∈ args, t.HasUnresolved := by
  simp only [HasUnresolved, parts, partsAll_eq_flatMap, List.mem_cons, reduceCtorEq, false_or,
    List.mem_flatMap]
  constructor
  · rintro ⟨hint, t, ht, h⟩
    exact ⟨t, ht, hint, h⟩
  · rintro ⟨t, ht, hint, h⟩
    exact ⟨hint, t, ht, h⟩

theorem hasUnresolved_array {element : TypeRef} {rank : UInt32} :
    (array element rank).HasUnresolved ↔ element.HasUnresolved := by
  simp only [HasUnresolved, parts, List.mem_cons, reduceCtorEq, false_or]

theorem hasUnresolved_byRef {element : TypeRef} :
    (byRef element).HasUnresolved ↔ element.HasUnresolved := by
  simp only [HasUnresolved, parts, List.mem_cons, reduceCtorEq, false_or]

theorem not_hasUnresolved_parameter {position : UInt32} {name : Option String} :
    ¬ (parameter position name).HasUnresolved := by
  simp [HasUnresolved, parts]

theorem hasUnresolved_unresolved (hint : Option String) : (unresolved hint).HasUnresolved :=
  ⟨hint, mem_parts_self _⟩

theorem formAll_eq_none_iff (ts : List TypeRef) : formAll ts = none ↔ ∃ t ∈ ts, t.form = none := by
  induction ts with
  | nil => simp [formAll]
  | cons t ts ih =>
    rw [List.exists_mem_cons_iff, ← ih, formAll]
    cases t.form <;> cases formAll ts <;> simp

theorem form_eq_none_iff (t : TypeRef) : t.form = none ↔ t.HasUnresolved := by
  induction t with
  | named ns name declaring args ih =>
    rw [form, Option.map_eq_none_iff, formAll_eq_none_iff, hasUnresolved_named]
    exact exists_congr fun t => and_congr_right (ih t)
  | array element rank ih => rw [form, Option.map_eq_none_iff, ih, hasUnresolved_array]
  | byRef element ih => rw [form, Option.map_eq_none_iff, ih, hasUnresolved_byRef]
  | parameter position name =>
    exact iff_of_false (Option.some_ne_none _) not_hasUnresolved_parameter
  | unresolved hint => exact iff_of_true rfl (hasUnresolved_unresolved hint)

/-- **A type has no spelling exactly if a part of it is unresolved.** -/
theorem spell_eq_none_iff (t : TypeRef) : t.spell = none ↔ t.HasUnresolved := by
  rw [spell_eq, Option.map_eq_none_iff, form_eq_none_iff]

theorem spellAll_eq_none_iff (ts : List TypeRef) :
    spellAll ts = none ↔ ∃ t ∈ ts, t.HasUnresolved := by
  rw [spellAll_eq, Option.map_eq_none_iff, formAll_eq_none_iff]
  simp only [form_eq_none_iff]

end TypeRef

/-! ## Members without id -/

/-- One of the parameter types has an unresolved part. -/
def Unspellable (ps : List ParameterInfo) : Prop := ∃ p ∈ ps, p.type.HasUnresolved

theorem spellParameters_eq_error_iff {ps : List ParameterInfo} {element : String}
    {e : SynthesisError} :
    spellParameters ps element = .error e ↔ Unspellable ps ∧ e = ⟨element⟩ := by
  have hnone : TypeRef.spellAll (ps.map (·.type)) = none ↔ Unspellable ps := by
    rw [TypeRef.spellAll_eq_none_iff, Unspellable]
    simp
  rw [← hnone, spellParameters]
  cases TypeRef.spellAll (ps.map (·.type)) with
  | none => simp [eq_comm]
  | some ss => simp

theorem map_eq_error_iff {ε α β : Type} {x : Except ε α} {f : α → β} {e : ε} :
    x.map f = .error e ↔ x = .error e := by
  cases x <;> simp [Except.map]

theorem spellSignature_eq_error_iff {name element : String} {ps : List ParameterInfo}
    {e : SynthesisError} :
    spellSignature name ps element = .error e ↔ Unspellable ps ∧ e = ⟨element⟩ := by
  cases ps with
  | nil =>
    constructor
    · intro h
      cases h
    · rintro ⟨⟨p, hp, -⟩, -⟩
      exact absurd hp List.not_mem_nil
  | cons p ps => rw [spellSignature, map_eq_error_iff, spellParameters_eq_error_iff]

theorem TypeInfo.constructorId_eq_error_iff {owner : TypeInfo} {c : MethodInfo}
    {e : SynthesisError} :
    owner.constructorId c = .error e ↔
      Unspellable c.parameters ∧ e = ⟨owner.ownerName ++ "." ++ c.displayName⟩ :=
  spellSignature_eq_error_iff

theorem MethodInfo.key_eq_error_iff {m : MethodInfo} {e : SynthesisError} :
    m.key = .error e ↔ Unspellable m.parameters ∧ e = ⟨m.name⟩ :=
  map_eq_error_iff.trans spellSignature_eq_error_iff

theorem PropertyInfo.key_eq_error_iff {p : PropertyInfo} {e : SynthesisError} :
    p.key = .error e ↔ Unspellable p.indexParameters ∧ e = ⟨p.name⟩ :=
  map_eq_error_iff.trans spellSignature_eq_error_iff

/-! ## Members without id in a tree -/

/-- In the node of a type, the members of which the id cannot be built count as missing. -/
structure TypeNode.RecordsMissing (node : TypeNode) (t : TypeInfo) : Prop where
  constructors : List.Forall₂ (fun c n => Unspellable c.parameters → n.summary = .missing)
    t.publicConstructors node.constructors
  methods : List.Forall₂ (fun m n => Unspellable m.parameters → n.summary = .missing)
    t.publicMethods node.methods
  properties : List.Forall₂ (fun p n => Unspellable p.indexParameters → n.summary = .missing)
    t.publicProperties node.properties

namespace Auditor

variable (a : Auditor)

theorem summary_memberNode_of_error {m : AuditedMember} (hid : ∃ e, m.id = .error e)
    (hneeded : m.mayBeEmpty = false) : (a.memberNode m).summary = .missing := by
  obtain ⟨e, hid⟩ := hid
  rw [memberNode, hneeded, if_neg Bool.false_ne_true, found, hid]

theorem missing_of_unspellable {α : Type} {parameters : α → List ParameterInfo}
    {member : α → AuditedMember}
    (hid : ∀ x, Unspellable (parameters x) → ∃ e, (member x).id = .error e)
    (hneeded : ∀ x, Unspellable (parameters x) → (member x).mayBeEmpty = false) (xs : List α) :
    List.Forall₂ (fun x n => Unspellable (parameters x) → n.summary = .missing) xs
      (((xs.map member).map a.memberNode).map MemberNode.aggregate) := by
  rw [List.map_map, List.map_map, List.forall₂_map_right_iff, List.forall₂_same]
  exact fun x _ hx => a.summary_memberNode_of_error (hid x hx) (hneeded x hx)

theorem recordsMissing_typeNode {t : TypeInfo} (h : ¬ a.skipsMembers t = true) :
    (a.typeNode t).aggregate.RecordsMissing t := by
  rw [typeNode, if_neg h]
  refine ⟨?_, ?_, ?_⟩
  · refine a.missing_of_unspellable (fun c hc => ?_) (fun c hc => ?_) t.publicConstructors
    · exact ⟨_, TypeInfo.constructorId_eq_error_iff.mpr ⟨hc, rfl⟩⟩
    · obtain ⟨p, hp, -⟩ := hc
      exact List.isEmpty_eq_false_iff.mpr (List.ne_nil_of_mem hp)
  · refine a.missing_of_unspellable (fun m hm => ?_) (fun _ _ => rfl) t.publicMethods
    exact ⟨_, map_eq_error_iff.mpr (MethodInfo.key_eq_error_iff.mpr ⟨hm, rfl⟩)⟩
  · refine a.missing_of_unspellable (fun p hp => ?_) (fun _ _ => rfl) t.publicProperties
    exact ⟨_, map_eq_error_iff.mpr (PropertyInfo.key_eq_error_iff.mpr ⟨hp, rfl⟩)⟩

theorem exists_node (s : Surface) {ns name : String} {t : TypeInfo}
    (ht : s.firstPublic? ns name = some t) :
    ∃ n ∈ (a.check s).result.namespaces, n.name = ns ∧ (a.typeNode t).aggregate ∈ n.types := by
  have hnodes := (s.forall_unrepeated_iff fun t => ∃ n ∈ (a.check s).result.namespaces,
    n.name = t.namespaceName ∧ (a.typeNode t).aggregate ∈ n.types).mp
  obtain ⟨-, rfl, rfl⟩ := Surface.names_of_firstPublic? ht
  refine hnodes (fun p hp u hu => ?_) _ _ t ht
  have hfirst := Surface.firstPublic?_of_mem_unrepeated hp hu
  rw [a.namespaces_check]
  exact ⟨_, List.mem_map_of_mem hp, (Surface.names_of_firstPublic? hfirst).2.1.symm,
    List.mem_map_of_mem (List.mem_map_of_mem hu)⟩

end Auditor

/-! ## Libraries that differ in parameters -/

/-- The same method or constructor, perhaps with other parameters. -/
def MethodInfo.SameButParameters (m m' : MethodInfo) : Prop :=
  ∃ ps, m' = { m with parameters := ps }

/-- The same property, perhaps with other parameters of its getter. -/
def PropertyInfo.SameButParameters (p p' : PropertyInfo) : Prop :=
  ∃ ps, p' = { p with getter := p.getter.map ({ · with parameters := ps }) }

/-- The same type, perhaps with other parameters of its members. -/
def TypeInfo.SameButParameters (t t' : TypeInfo) : Prop :=
  ∃ cs ms ps, t' = { t with constructors := cs, methods := ms, properties := ps } ∧
    List.Forall₂ MethodInfo.SameButParameters t.constructors cs ∧
    List.Forall₂ MethodInfo.SameButParameters t.methods ms ∧
    List.Forall₂ PropertyInfo.SameButParameters t.properties ps

/-- The same library, perhaps with other parameters of members. -/
structure Surface.SameButParameters (s s' : Surface) : Prop where
  assembly : s.assembly = s'.assembly
  unresolved : s.unresolved = s'.unresolved
  types : List.Forall₂ TypeInfo.SameButParameters s.types s'.types

/-- The nodes of the items of two lists: where the items are the same, the nodes are. -/
structure SameWhereEqual {α : Type} (xs xs' : List α) (ns ns' : List MemberNode) : Prop where
  length : ns.length = ns'.length
  same : ∀ i : Nat, xs[i]? = xs'[i]? → ns[i]? = ns'[i]?

/-- The nodes of two types that differ in parameters: they are the same, except for the members that
differ and for what is counted. -/
structure TypeNode.SameElsewhere (t t' : TypeInfo) (node node' : TypeNode) : Prop where
  name : node.name = node'.name
  summary : node.summary = node'.summary
  constructors : SameWhereEqual t.publicConstructors t'.publicConstructors node.constructors
    node'.constructors
  methods : SameWhereEqual t.publicMethods t'.publicMethods node.methods node'.methods
  fields : node.fields = node'.fields
  properties : SameWhereEqual t.publicProperties t'.publicProperties node.properties
    node'.properties

/-- The nodes of a namespace in two libraries that differ in parameters. -/
structure NamespaceNode.SameElsewhere (s s' : Surface) (n n' : NamespaceNode) : Prop where
  name : n.name = n'.name
  summary : n.summary = n'.summary
  types : List.Forall₂ (fun node node' => ∃ t t', s.firstPublic? n.name node.name = some t ∧
    s'.firstPublic? n'.name node'.name = some t' ∧ TypeNode.SameElsewhere t t' node node')
    n.types n'.types

/-! ## Groups of types that correspond -/

section Groups

variable {R : TypeInfo → TypeInfo → Prop} {ts us : List TypeInfo} (h : List.Forall₂ R ts us)

include h

theorem forall₂_mem : List.Forall₂ (fun t u => t ∈ ts ∧ u ∈ us ∧ R t u) ts us := by
  induction h with
  | nil => exact .nil
  | cons htu _ ih =>
    refine .cons ⟨List.mem_cons_self, List.mem_cons_self, htu⟩ (ih.imp fun _ _ hmem => ?_)
    exact ⟨List.mem_cons_of_mem _ hmem.1, List.mem_cons_of_mem _ hmem.2.1, hmem.2.2⟩

theorem forall₂_unrepeated (hname : ∀ t u, R t u → t.displayName = u.displayName) :
    ∀ seen : List String, List.Forall₂ R (unrepeated seen ts) (unrepeated seen us) := by
  induction h with
  | nil => exact fun _ => .nil
  | @cons t u ts us htu _ ih =>
    intro seen
    rw [unrepeated, unrepeated, hname t u htu]
    by_cases hu : u.displayName ∈ seen
    · rw [if_pos hu, if_pos hu]
      exact ih seen
    · rw [if_neg hu, if_neg hu]
      exact .cons htu (ih _)

theorem map_fst_byNamespace_eq (hns : ∀ t u, R t u → t.namespaceName = u.namespaceName) :
    (byNamespace ts).map Prod.fst = (byNamespace us).map Prod.fst := by
  have hnames : ts.map (·.namespaceName) = us.map (·.namespaceName) :=
    List.forall₂_eq_eq_eq ▸ forall₂_map_map hns h
  have hfirst := firstSeen_byNamespace ts
  rw [hnames] at hfirst
  exact hfirst.unique (firstSeen_byNamespace us)

end Groups

/-! ## Two checks beside each other -/

theorem TypeInfo.SameButParameters.names {t t' : TypeInfo} (h : t.SameButParameters t') :
    t.namespaceName = t'.namespaceName ∧ t.displayName = t'.displayName := by
  obtain ⟨cs, ms, ps, rfl, -⟩ := h
  exact ⟨rfl, rfl⟩

theorem Surface.SameButParameters.publicTypes {s s' : Surface} (h : s.SameButParameters s') :
    List.Forall₂ TypeInfo.SameButParameters s.publicTypes s'.publicTypes := by
  refine List.rel_filter ?_ h.types
  rintro t _ ⟨cs, ms, ps, rfl, -⟩
  exact Iff.rfl

section PublicMembers

variable {t t' : TypeInfo} (h : t.SameButParameters t')

include h

theorem length_publicConstructors_eq :
    t.publicConstructors.length = t'.publicConstructors.length := by
  obtain ⟨cs, ms, ps, rfl, hcs, -, -⟩ := h
  refine (List.rel_filter ?_ hcs).length_eq
  rintro c _ ⟨qs, rfl⟩
  exact Iff.rfl

theorem length_publicMethods_eq : t.publicMethods.length = t'.publicMethods.length := by
  obtain ⟨cs, ms, ps, rfl, -, hms, -⟩ := h
  refine (List.rel_filter ?_ hms).length_eq
  rintro m _ ⟨qs, rfl⟩
  exact Iff.rfl

theorem length_publicProperties_eq : t.publicProperties.length = t'.publicProperties.length := by
  obtain ⟨cs, ms, ps, rfl, -, -, hps⟩ := h
  refine (List.rel_filter ?_ hps).length_eq
  rintro p _ ⟨qs, rfl⟩
  simp only [PropertyInfo.isPublic, Option.any_map]

end PublicMembers

namespace Auditor

variable (a : Auditor)

theorem sameWhereEqual_nodes {α : Type} {xs xs' : List α} (h : xs.length = xs'.length)
    (member : α → AuditedMember) :
    SameWhereEqual xs xs' (((xs.map member).map a.memberNode).map MemberNode.aggregate)
      (((xs'.map member).map a.memberNode).map MemberNode.aggregate) where
  length := by simp only [List.length_map, h]
  same i hi := by simp only [List.getElem?_map, hi]

theorem sameElsewhere_typeNode {t t' : TypeInfo} (h : t.SameButParameters t') :
    TypeNode.SameElsewhere t t' (a.typeNode t).aggregate (a.typeNode t').aggregate := by
  have hconstructors := length_publicConstructors_eq h
  have hmethods := length_publicMethods_eq h
  have hproperties := length_publicProperties_eq h
  obtain ⟨cs, ms, ps, rfl, -⟩ := h
  by_cases hs : a.skipsMembers t = true
  · have hs' : a.skipsMembers { t with constructors := cs, methods := ms, properties := ps } =
      true := hs
    rw [typeNode, typeNode, if_pos hs, if_pos hs']
    exact ⟨rfl, rfl, ⟨rfl, fun _ _ => rfl⟩, ⟨rfl, fun _ _ => rfl⟩, rfl, ⟨rfl, fun _ _ => rfl⟩⟩
  · have hs' : ¬ a.skipsMembers { t with constructors := cs, methods := ms, properties := ps } =
      true := hs
    rw [typeNode, typeNode, if_neg hs, if_neg hs']
    exact ⟨rfl, rfl, a.sameWhereEqual_nodes hconstructors _, a.sameWhereEqual_nodes hmethods _, rfl,
      a.sameWhereEqual_nodes hproperties _⟩

variable {s s' : Surface}

theorem sameElsewhere_namespaceNode {ns : String} {ts us : List TypeInfo}
    (hts : (ns, ts) ∈ byNamespace s.publicTypes) (hus : (ns, us) ∈ byNamespace s'.publicTypes)
    (h : List.Forall₂ TypeInfo.SameButParameters ts us) :
    NamespaceNode.SameElsewhere s s' (a.namespaceNode (ns, ts)).aggregate
      (a.namespaceNode (ns, us)).aggregate where
  name := rfl
  summary := by cases h <;> rfl
  types := by
    have hkept := forall₂_mem (forall₂_unrepeated h (fun _ _ h => h.names.2) [])
    rw [types_namespaceNode, types_namespaceNode]
    exact forall₂_map_map (fun t u ⟨ht, hu, h⟩ => ⟨t, u, a.firstPublic?_typeNode hts ht,
      a.firstPublic?_typeNode hus hu, a.sameElsewhere_typeNode h⟩) hkept

/-- **Other parameters of some members make no difference elsewhere.** -/
theorem sameElsewhere_check (h : s.SameButParameters s') :
    List.Forall₂ (NamespaceNode.SameElsewhere s s') (a.check s).result.namespaces
      (a.check s').result.namespaces := by
  have hnames := map_fst_byNamespace_eq h.publicTypes fun _ _ ht => ht.names.1
  have hgroup {s : Surface} {ns : String} (hns : ns ∈ (byNamespace s.publicTypes).map Prod.fst) :
      (ns, s.publicTypes.filter (·.namespaceName = ns)) ∈ byNamespace s.publicTypes := by
    rw [byNamespace_eq_map]
    exact List.mem_map_of_mem hns
  rw [a.namespaces_check, a.namespaces_check, byNamespace_eq_map, byNamespace_eq_map s'.publicTypes]
  generalize hlist : (byNamespace s.publicTypes).map Prod.fst = names at hnames ⊢
  rw [← hnames, List.map_map, List.map_map]
  refine forall₂_map_map_same fun ns hns => ?_
  refine a.sameElsewhere_namespaceNode (hgroup (hlist ▸ hns)) (hgroup (hnames ▸ hns)) ?_
  refine List.rel_filter (fun t t' ht => ?_) h.publicTypes
  simp only [ht.names.1]

end Auditor

/-- **Members with unresolved parameter types have no id, and count as missing.** A type has no
spelling exactly if a part of it is unresolved, at any depth. So the id of a constructor, a method
or a property cannot be built exactly if one of its parameter types, for a property of those of its
getter, has such a part; the error names the member. In the tree of a check, whatever the
documentation and the options, these members count as missing, unless the members of their type are
left out. Other parameters in their place, resolved or not, change no summary but theirs: the nodes
of all other members are the same, and so are the summaries of all types and namespaces. -/
theorem unspellable_members (a : Auditor) (s : Surface) :
    (∀ t : TypeRef, t.spell = none ↔ t.HasUnresolved) ∧
    (∀ (owner : TypeInfo) (c : MethodInfo) (e : SynthesisError),
      owner.constructorId c = .error e ↔
        Unspellable c.parameters ∧ e = ⟨owner.ownerName ++ "." ++ c.displayName⟩) ∧
    (∀ (m : MethodInfo) (e : SynthesisError),
      m.key = .error e ↔ Unspellable m.parameters ∧ e = ⟨m.name⟩) ∧
    (∀ (p : PropertyInfo) (e : SynthesisError),
      p.key = .error e ↔ Unspellable p.indexParameters ∧ e = ⟨p.name⟩) ∧
    (∀ ns name t, s.firstPublic? ns name = some t →
      ¬ (a.options.skipDelegateMembers ∧ t.isDelegate) →
      ∃ n ∈ (a.check s).result.namespaces, n.name = ns ∧
        ∃ node ∈ n.types, node.name = name ∧ node.RecordsMissing t) ∧
    ∀ s', s.SameButParameters s' →
      List.Forall₂ (NamespaceNode.SameElsewhere s s') (a.check s).result.namespaces
        (a.check s').result.namespaces := by
  refine ⟨TypeRef.spell_eq_none_iff, fun _ _ _ => TypeInfo.constructorId_eq_error_iff,
    fun _ _ => MethodInfo.key_eq_error_iff, fun _ _ => PropertyInfo.key_eq_error_iff, ?_,
    fun _ => a.sameElsewhere_check⟩
  intro ns name t ht hs
  obtain ⟨n, hn, hname, hnode⟩ := a.exists_node s ht
  refine ⟨n, hn, hname, _, hnode, ?_, a.recordsMissing_typeNode ?_⟩
  · exact (a.name_typeNode t).trans (Surface.names_of_firstPublic? ht).2.2
  · rwa [a.skipsMembers_iff]

/-- A library in which a constructor takes a list of a type that could not be found. -/
def vendorLibrary : Surface where
  assembly := "Acme"
  types := [
    { ns := some "Acme", name := "Widget"
      constructors := [{
        name := ".ctor"
        parameters := [{ type := .named none "List`1" [] [.unresolved (some "Vendor.Blob")] }] }]
      methods := [{ name := "Run" }] }]

/-- The same library with that type. -/
def blobLibrary : Surface where
  assembly := "Acme"
  types := [
    { ns := some "Acme", name := "Widget"
      constructors := [{
        name := ".ctor"
        parameters := [{ type := .named none "List`1" [] [.named (some "Vendor") "Blob" [] []] }] }]
      methods := [{ name := "Run" }] }]

theorem sameButParameters_blobLibrary : vendorLibrary.SameButParameters blobLibrary :=
  ⟨rfl, rfl, .cons ⟨_, _, _, rfl, .cons ⟨_, rfl⟩ .nil, .cons ⟨_, rfl⟩ .nil, .nil⟩ .nil⟩

theorem unspellable_members_vendor :
    vendorLibrary.SameButParameters blobLibrary ∧
    List.Forall₂ (NamespaceNode.SameElsewhere vendorLibrary blobLibrary)
      (Auditor.check ⟨{ fragment := fun _ => none }, {}⟩ vendorLibrary).result.namespaces
      (Auditor.check ⟨{ fragment := fun _ => none }, {}⟩ blobLibrary).result.namespaces :=
  ⟨sameButParameters_blobLibrary,
    (unspellable_members _ vendorLibrary).2.2.2.2.2 _ sameButParameters_blobLibrary⟩

end DocAudit
