import DocAudit.Proofs.Inventory
import Mathlib.Data.List.TakeWhile
/-!
# What a library has to document

A check passes a library exactly when everything that its users can reach is documented.

* `DocIndex.Documented`: something is written under an id.
* `FullyDocumented`: everything that needs documentation has it.
* **`check_passes_iff`**: the verdict of a check.
-/

namespace DocAudit

namespace Text

theorem trimRight_eq_nil_iff (cs : List Char) :
    trimRight cs = [] ↔ ∀ c ∈ cs, isBlank c = true := by
  rw [trimRight, List.reverse_eq_nil_iff, List.dropWhile_eq_nil_iff]
  exact forall_congr' fun c => by rw [List.mem_reverse]

/-- Trimming leaves nothing exactly when all characters are blank. -/
theorem trim_eq_empty_iff (s : String) : trim s = "" ↔ ∀ c ∈ s.toList, isBlank c = true := by
  rw [trim, String.ofList_eq_empty_iff, trimRight_eq_nil_iff]
  refine ⟨fun h c hc => ?_, fun h c hc => h c ((List.dropWhile_suffix isBlank).mem hc)⟩
  rw [← List.takeWhile_append_dropWhile (p := isBlank) (l := s.toList), List.mem_append] at hc
  rcases hc with hc | hc
  · exact List.mem_takeWhile_imp hc
  · exact h c hc

end Text

/-- Something is written under an id: its block has a summary, and not all of that is blank. -/
def DocIndex.Documented (index : DocIndex) (id : String) : Prop :=
  ∃ f text, index.fragment id = some f ∧ f.summary = some text ∧
    ∃ c ∈ text.toList, Text.isBlank c = false

theorem Summary.isSatisfied_ofText (text : String) :
    (ofText text).isSatisfied = true ↔ text ≠ "" := by
  unfold ofText
  by_cases h : text = ""
  · rw [if_pos h]
    exact iff_of_false Bool.false_ne_true fun hne => hne h
  · rw [if_neg h]
    exact iff_of_true rfl h

theorem Fragment.text_ne_empty_iff (f : Fragment) :
    f.text ≠ "" ↔
      ∃ text, f.summary = some text ∧ ∃ c ∈ text.toList, Text.isBlank c = false := by
  obtain ⟨summary⟩ := f
  cases summary with
  | none => exact iff_of_false (fun h => h rfl) fun ⟨_, h, _⟩ => nomatch h
  | some text =>
    rw [show (Fragment.mk (some text)).text = Text.trim text from rfl, ne_eq,
      Text.trim_eq_empty_iff]
    simp

theorem DocIndex.isSatisfied_written (index : DocIndex) (id : String) :
    (index.written id).isSatisfied = true ↔ index.Documented id := by
  unfold written Documented
  cases index.fragment id with
  | none => exact iff_of_false Bool.false_ne_true fun ⟨_, _, h, _⟩ => nomatch h
  | some f =>
    rw [Summary.isSatisfied_ofText, Fragment.text_ne_empty_iff]
    simp

/-! ## What needs documentation -/

/-- Every member of a type that users can reach has an id and is documented under it. Constructors
without parameters need nothing. -/
structure TypeInfo.MembersDocumented (t : TypeInfo) (index : DocIndex) : Prop where
  constructors : ∀ c ∈ t.publicConstructors,
    c.parameters = [] ∨ ∃ id, t.constructorId c = .ok id ∧ index.Documented id
  methods : ∀ m ∈ t.publicMethods,
    ∃ k, m.key = .ok k ∧ index.Documented (k.qualify t.ownerName)
  fields : ∀ f ∈ t.publicFields, index.Documented (f.key.qualify t.ownerName)
  properties : ∀ p ∈ t.publicProperties,
    ∃ k, p.key = .ok k ∧ index.Documented (k.qualify t.ownerName)

/-- Some member of a type that users can reach has no id. -/
def TypeInfo.LacksId (t : TypeInfo) : Prop :=
  (∃ c ∈ t.publicConstructors, ∃ e, t.constructorId c = .error e) ∨
    (∃ m ∈ t.publicMethods, ∃ e, m.key = .error e) ∨
    ∃ p ∈ t.publicProperties, ∃ e, p.key = .error e

/-- Everything that users of a library can reach is documented: namespaces, types, and members. Of
the records with one namespace and name the first public one counts. -/
structure FullyDocumented (index : DocIndex) (o : AuditOptions) (s : Surface) : Prop where
  namespaces : ∀ t ∈ s.publicTypes, index.Documented ("N:" ++ t.namespaceName)
  types : ∀ ns name t, s.firstPublic? ns name = some t →
    index.Documented ("T:" ++ t.qualifiedName)
  members : ∀ ns name t, s.firstPublic? ns name = some t →
    ¬ (o.skipDelegateMembers ∧ t.isDelegate) → t.MembersDocumented index

theorem TypeInfo.MembersDocumented.not_lacksId {t : TypeInfo} {index : DocIndex}
    (h : t.MembersDocumented index) : ¬ t.LacksId := by
  rintro (⟨c, hc, e, he⟩ | ⟨m, hm, e, he⟩ | ⟨p, hp, e, he⟩)
  · rcases h.constructors c hc with hnil | ⟨id, hid, -⟩
    · rw [constructorId, hnil, spellSignature] at he
      cases he
    · rw [hid] at he
      cases he
  · obtain ⟨k, hk, -⟩ := h.methods m hm
    rw [hk] at he
    cases he
  · obtain ⟨k, hk, -⟩ := h.properties p hp
    rw [hk] at he
    cases he

/-! ## Groups and first records -/

namespace Surface

variable (s : Surface)

theorem forall_byNamespace_iff (P : String → Prop) :
    (∀ p ∈ byNamespace s.publicTypes, P p.1) ↔ ∀ t ∈ s.publicTypes, P t.namespaceName := by
  have hmem := (firstSeen_byNamespace s.publicTypes).mem_iff
  constructor
  · intro h t ht
    obtain ⟨p, hp, hpt⟩ := List.mem_map.mp ((hmem _).mpr (List.mem_map_of_mem ht))
    exact hpt ▸ h p hp
  · intro h p hp
    obtain ⟨t, ht, htp⟩ := List.mem_map.mp ((hmem _).mp (List.mem_map_of_mem hp))
    exact htp ▸ h t ht

theorem forall_unrepeated_iff (P : TypeInfo → Prop) :
    (∀ p ∈ byNamespace s.publicTypes, ∀ t ∈ unrepeated [] p.2, P t) ↔
      ∀ ns name t, s.firstPublic? ns name = some t → P t := by
  constructor
  · intro h ns name t ht
    obtain ⟨hpub, rfl, rfl⟩ := names_of_firstPublic? ht
    obtain ⟨p, hp, hpt⟩ := List.mem_map.mp
      (((firstSeen_byNamespace s.publicTypes).mem_iff _).mpr (List.mem_map_of_mem hpub))
    have hgroup : t ∈ p.2 := by
      rw [group_eq_filter hp]
      exact List.mem_filter.mpr ⟨hpub, decide_eq_true hpt.symm⟩
    obtain ⟨u, hu, hut⟩ := List.mem_map.mp
      (((firstSeen_unrepeated p.2).mem_iff _).mpr (List.mem_map_of_mem hgroup))
    -- the record that is kept under this name is the first one, which is `t`
    have hfirst := firstPublic?_of_mem_unrepeated hp hu
    rw [hpt, hut, ht] at hfirst
    exact Option.some.inj hfirst ▸ h p hp u hu
  · intro h p hp t ht
    exact h _ _ t (firstPublic?_of_mem_unrepeated hp ht)

theorem group_ne_nil {p : String × List TypeInfo} (hp : p ∈ byNamespace s.publicTypes) :
    p.2 ≠ [] := by
  obtain ⟨t, ht, htp⟩ := List.mem_map.mp
    (((firstSeen_byNamespace s.publicTypes).mem_iff _).mp (List.mem_map_of_mem hp))
  rw [group_eq_filter hp]
  exact List.ne_nil_of_mem (List.mem_filter.mpr ⟨ht, decide_eq_true htp⟩)

end Surface

/-! ## The verdict -/

namespace Auditor

variable (a : Auditor)

theorem isSatisfied_namespaceNode {p : String × List TypeInfo} (hp : p.2 ≠ []) :
    (a.namespaceNode p).summary.isSatisfied = true ↔ a.index.Documented ("N:" ++ p.1) := by
  rw [namespaceNode, List.isEmpty_eq_false_iff.mpr hp, if_neg Bool.false_ne_true]
  exact a.index.isSatisfied_written _

theorem isSatisfied_typeNode (t : TypeInfo) :
    (a.typeNode t).summary.isSatisfied = true ↔ a.index.Documented ("T:" ++ t.qualifiedName) := by
  rw [summary_typeNode, a.index.isSatisfied_written]
  rfl

theorem isSatisfied_memberNode (m : AuditedMember) :
    (a.memberNode m).summary.isSatisfied = true ↔
      m.mayBeEmpty = true ∨ ∃ id, m.id = .ok id ∧ a.index.Documented id := by
  have hfound : (a.found m).isSatisfied = true ↔ ∃ id, m.id = .ok id ∧ a.index.Documented id := by
    unfold found
    cases m.id with
    | ok id =>
      rw [a.index.isSatisfied_written]
      simp
    | error e => exact iff_of_false Bool.false_ne_true fun ⟨_, h, _⟩ => nomatch h
  rw [← hfound, memberNode]
  cases m.mayBeEmpty with
  | true =>
    refine iff_of_true ?_ (.inl rfl)
    rw [if_pos rfl, Summary.orExempt]
    cases h : (a.found m).isSatisfied with
    | true => exact h
    | false => rfl
  | false => simp

theorem exists_map_eq_ok {ε α β : Type} (e : Except ε α) (f : α → β) (P : β → Prop) :
    (∃ b, e.map f = .ok b ∧ P b) ↔ ∃ x, e = .ok x ∧ P (f x) := by
  cases e with
  | error e => exact iff_of_false (fun ⟨_, h, _⟩ => nomatch h) fun ⟨_, h, _⟩ => nomatch h
  | ok x => simp [Except.map]

theorem isSatisfied_members {t : TypeInfo} (h : ¬ a.skipsMembers t = true) :
    (∀ m ∈ (a.typeNode t).members, m.summary.isSatisfied = true) ↔
      t.MembersDocumented a.index := by
  rw [a.members_typeNode h, List.forall_mem_map]
  simp only [isSatisfied_memberNode, List.forall_mem_append, TypeInfo.auditedConstructors,
    TypeInfo.auditedMethods, TypeInfo.auditedFields, TypeInfo.auditedProperties,
    List.forall_mem_map, List.isEmpty_iff, Bool.false_eq_true, false_or, exists_map_eq_ok,
    Except.ok.injEq, exists_eq_left']
  exact ⟨fun ⟨⟨⟨hc, hm⟩, hf⟩, hp⟩ => ⟨hc, hm, hf, hp⟩,
    fun h => ⟨⟨⟨h.constructors, h.methods⟩, h.fields⟩, h.properties⟩⟩

theorem hasErrors_eq_false_iff (s : Surface) :
    (a.check s).result.hasErrors = false ↔ FullyDocumented a.index a.options s := by
  rw [result_check, Coverage.hasErrors_aggregate_eq_false, tree, List.forall_mem_map]
  have hnamespaces := s.forall_byNamespace_iff fun ns => a.index.Documented ("N:" ++ ns)
  have htypes := s.forall_unrepeated_iff fun t => a.index.Documented ("T:" ++ t.qualifiedName)
  have hmembers := s.forall_unrepeated_iff fun t =>
    ¬ (a.options.skipDelegateMembers ∧ t.isDelegate) → t.MembersDocumented a.index
  have hnode (t : TypeInfo) : (∀ m ∈ (a.typeNode t).members, m.summary.isSatisfied = true) ↔
      (¬ (a.options.skipDelegateMembers ∧ t.isDelegate) → t.MembersDocumented a.index) := by
    rw [← a.skipsMembers_iff]
    by_cases h : a.skipsMembers t = true
    · rw [a.members_typeNode_of_skips h]
      exact iff_of_true (fun _ hm => absurd hm List.not_mem_nil) fun hn => absurd h hn
    · rw [a.isSatisfied_members h]
      exact ⟨fun hm _ => hm, fun hm => hm h⟩
  constructor
  · intro h
    refine ⟨hnamespaces.mp fun p hp => ?_, htypes.mp fun p hp t ht => ?_,
      hmembers.mp fun p hp t ht => ?_⟩
    · exact (a.isSatisfied_namespaceNode (s.group_ne_nil hp)).mp (h p hp).1
    · exact (a.isSatisfied_typeNode t).mp ((h p hp).2 _ (List.mem_map_of_mem ht)).1
    · exact (hnode t).mp ((h p hp).2 _ (List.mem_map_of_mem ht)).2
  · intro h p hp
    have hns := (a.isSatisfied_namespaceNode (s.group_ne_nil hp)).mpr
      (hnamespaces.mpr h.namespaces p hp)
    refine ⟨hns, fun node hnode' => ?_⟩
    obtain ⟨t, ht, rfl⟩ := List.mem_map.mp hnode'
    exact ⟨(a.isSatisfied_typeNode t).mpr (htypes.mpr h.types p hp t ht),
      (hnode t).mpr (hmembers.mpr h.members p hp t ht)⟩

end Auditor

/-- **A library passes a check exactly when it is fully documented.** A member of which no id can
be built, because a parameter type is unresolved, fails the check. -/
theorem check_passes_iff (a : Auditor) (s : Surface) :
    ((a.check s).result.hasErrors = false ↔ FullyDocumented a.index a.options s) ∧
    ∀ ns name t, s.firstPublic? ns name = some t →
      ¬ (a.options.skipDelegateMembers ∧ t.isDelegate) → t.LacksId →
        (a.check s).result.hasErrors = true := by
  refine ⟨a.hasErrors_eq_false_iff s, fun ns name t ht hskip hlacks => ?_⟩
  by_contra hne
  have h := (a.hasErrors_eq_false_iff s).mp (Bool.eq_false_iff.mpr hne)
  exact (h.members ns name t ht hskip).not_lacksId hlacks

end DocAudit
