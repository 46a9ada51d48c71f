import DocAudit.Proofs.Interleaving
import DocAudit.Proofs.Inventory
import DocAudit.Proofs.Lookups
import DocAudit.Proofs.MoreDocumentation
/-!
# Every element is judged by its own id

Two checks of one library are compared that have the same documentation, except for what is written
under one id. They differ only in the elements with this id and in the counts above them.

* `DocIndex.AgreeExcept`: two indexes that may differ under one id.
* `AuditOptions.TypeHolds`, `AuditOptions.NamespaceHolds`: an id belongs to a part of a library.
* `Coverage.SameExcept`: two trees of one library, node by node.
* **`judged_by_own_id`**: the checks under two such indexes.
-/

namespace DocAudit

/-- The same is written in two indexes under any id but `x`. -/
def DocIndex.AgreeExcept (x : String) (d d₀ : DocIndex) : Prop :=
  ∀ id, id ≠ x → d.fragment id = d₀.fragment id

theorem DocIndex.AgreeExcept.written {x : String} {d d₀ : DocIndex} (h : d.AgreeExcept x d₀)
    {id : String} (hid : id ≠ x) : d.written id = d₀.written id := by
  rw [DocIndex.written, DocIndex.written, h id hid]

/-! ## Where an id belongs -/

theorem TypeInfo.id_eq (t : TypeInfo) : t.id = "T:" ++ t.qualifiedName := rfl

/-- A member with this key, if one can be built, has the id `x` in a type. -/
def TypeInfo.KeyHasId (t : TypeInfo) (key : Except SynthesisError MemberKey) (x : String) : Prop :=
  ∃ k, key = .ok k ∧ k.qualify t.ownerName = x

theorem TypeInfo.keyHasId_of_map {t : TypeInfo} {key : Except SynthesisError MemberKey} {x : String}
    (h : key.map (·.qualify t.ownerName) = .ok x) : t.KeyHasId key x := by
  cases key with
  | error e => cases h
  | ok k => exact ⟨k, rfl, Except.ok.inj h⟩

namespace AuditOptions

variable (o : AuditOptions)

/-- An id is that of a type, or of one of its public members that a check looks at. -/
inductive TypeHolds (t : TypeInfo) (x : String) : Prop
  | type (h : "T:" ++ t.qualifiedName = x)
  | constructor {c : MethodInfo} (hc : c ∈ o.visited t t.publicConstructors)
      (h : t.constructorId c = .ok x)
  | method {m : MethodInfo} (hm : m ∈ o.visited t t.publicMethods) (h : t.KeyHasId m.key x)
  | field {f : FieldInfo} (hf : f ∈ o.visited t t.publicFields)
      (h : f.key.qualify t.ownerName = x)
  | property {p : PropertyInfo} (hp : p ∈ o.visited t t.publicProperties)
      (h : t.KeyHasId p.key x)

/-- An id is that of a namespace, or of something in it. -/
def NamespaceHolds (s : Surface) (ns x : String) : Prop :=
  "N:" ++ ns = x ∨ ∃ name t, s.firstPublic? ns name = some t ∧ o.TypeHolds t x

end AuditOptions

/-! ## Trees beside each other -/

/-- Two nodes of a member, which are the same unless the id in question is its own. -/
structure MemberNode.SameExcept (kind : ElementKind) (name : String) (own : Prop)
    (n n₀ : MemberNode) : Prop where
  kind : n.kind = kind ∧ n₀.kind = kind
  name : n.name = name ∧ n₀.name = name
  same : ¬ own → n = n₀

/-- Two lists with a node for each of some members, in their order. -/
inductive MembersSameExcept {α : Type} (kind : ElementKind) (name : α → String) (own : α → Prop) :
    List α → List MemberNode → List MemberNode → Prop
  | nil : MembersSameExcept kind name own [] [] []
  | cons {m : α} {n n₀ : MemberNode} {ms : List α} {ns ns₀ : List MemberNode}
      (head : n.SameExcept kind (name m) (own m) n₀)
      (tail : MembersSameExcept kind name own ms ns ns₀) :
      MembersSameExcept kind name own (m :: ms) (n :: ns) (n₀ :: ns₀)

/-- Two nodes of a type. Its members are the same in both, and all of the nodes is the same if `x`
belongs neither to the type nor to a member. -/
structure TypeNode.SameExcept (o : AuditOptions) (x : String) (t : TypeInfo)
    (node node₀ : TypeNode) : Prop where
  name : node.name = node₀.name
  summary : "T:" ++ t.qualifiedName ≠ x → node.summary = node₀.summary
  constructors : MembersSameExcept .constructor MethodInfo.displayName
    (fun c => t.constructorId c = .ok x) (o.visited t t.publicConstructors)
    node.constructors node₀.constructors
  methods : MembersSameExcept .method MethodInfo.displayName (fun m => t.KeyHasId m.key x)
    (o.visited t t.publicMethods) node.methods node₀.methods
  fields : MembersSameExcept .field FieldInfo.name (fun f => f.key.qualify t.ownerName = x)
    (o.visited t t.publicFields) node.fields node₀.fields
  properties : MembersSameExcept .property PropertyInfo.displayName
    (fun p => t.KeyHasId p.key x) (o.visited t t.publicProperties)
    node.properties node₀.properties
  same : ¬ o.TypeHolds t x → node = node₀

/-- Two nodes of a namespace. Each of its types was built from the first public record. -/
structure NamespaceNode.SameExcept (o : AuditOptions) (x : String) (s : Surface)
    (n n₀ : NamespaceNode) : Prop where
  name : n.name = n₀.name
  summary : "N:" ++ n.name ≠ x → n.summary = n₀.summary
  types : List.Forall₂ (fun node node₀ => ∃ t, s.firstPublic? n.name node.name = some t ∧
    node.SameExcept o x t node₀) n.types n₀.types
  same : ¬ o.NamespaceHolds s n.name x → n = n₀

/-- Two trees of a library. They have the same namespaces, types and members. Nodes of elements with
another id than `x`, or with none, have the same summary, and where nothing at or below a node has
the id `x`, the nodes are the same with all that they count. -/
structure Coverage.SameExcept (o : AuditOptions) (x : String) (s : Surface) (c c₀ : Coverage) :
    Prop where
  assembly : c.assembly = c₀.assembly
  unresolved : c.unresolved = c₀.unresolved
  namespaces : List.Forall₂ (NamespaceNode.SameExcept o x s) c.namespaces c₀.namespaces
  same : (∀ n ∈ c.namespaces, ¬ o.NamespaceHolds s n.name x) → c = c₀

/-! ## One library under two indexes -/

namespace Auditor

variable {d d₀ : DocIndex} {x : String} (o : AuditOptions) (h : d.AgreeExcept x d₀)

include h

theorem memberNode_congr {m : AuditedMember} (hm : m.id ≠ .ok x) :
    memberNode ⟨d, o⟩ m = memberNode ⟨d₀, o⟩ m := by
  have hfound : found ⟨d, o⟩ m = found ⟨d₀, o⟩ m := by
    unfold found
    cases hid : m.id with
    | ok id =>
      rw [hid] at hm
      exact h.written fun e => hm (congrArg _ e)
    | error e => rfl
  rw [memberNode, memberNode, hfound]

section Members

variable {α : Type} {audited : α → AuditedMember} {own : α → Prop} {t : TypeInfo} {ms : List α}
  (hid : ∀ m, (audited m).id = .ok x → own m)

include hid

theorem memberNodes_congr (hms : ∀ m ∈ o.visited t ms, ¬ own m) :
    (o.visited t (ms.map audited)).map (memberNode ⟨d, o⟩) =
      (o.visited t (ms.map audited)).map (memberNode ⟨d₀, o⟩) := by
  rw [o.visited_map, List.map_map, List.map_map]
  exact List.map_congr_left fun m hm => memberNode_congr o h (mt (hid m) (hms m hm))

theorem membersSameExcept {kind : ElementKind} {name : α → String}
    (hkind : ∀ m, (audited m).kind = kind) (hname : ∀ m, (audited m).name = name m) :
    MembersSameExcept kind name own (o.visited t ms)
      (((o.visited t (ms.map audited)).map (memberNode ⟨d, o⟩)).map MemberNode.aggregate)
      (((o.visited t (ms.map audited)).map (memberNode ⟨d₀, o⟩)).map MemberNode.aggregate) := by
  rw [o.visited_map]
  induction o.visited t ms with
  | nil => exact .nil
  | cons m ms ih =>
    have hsame (hm : ¬ own m) := memberNode_congr o h (mt (hid m) hm)
    exact .cons ⟨⟨hkind m, hkind m⟩, ⟨hname m, hname m⟩, fun hm => congrArg _ (hsame hm)⟩ ih

end Members

theorem typeNode_congr {t : TypeInfo} (ht : ¬ o.TypeHolds t x) :
    typeNode ⟨d, o⟩ t = typeNode ⟨d₀, o⟩ t := by
  rw [typeNode_eq, typeNode_eq, t.id_eq, h.written fun hid => ht (.type hid)]
  congr 1
  · exact memberNodes_congr o h (fun _ hid => hid) fun _ hc hid => ht (.constructor hc hid)
  · exact memberNodes_congr o h (fun _ => TypeInfo.keyHasId_of_map)
      fun _ hm hid => ht (.method hm hid)
  · exact memberNodes_congr o h (fun _ => Except.ok.inj) fun _ hf hid => ht (.field hf hid)
  · exact memberNodes_congr o h (fun _ => TypeInfo.keyHasId_of_map)
      fun _ hp hid => ht (.property hp hid)

theorem typeNode_sameExcept (t : TypeInfo) :
    (typeNode ⟨d, o⟩ t).aggregate.SameExcept o x t (typeNode ⟨d₀, o⟩ t).aggregate where
  name := by
    show (typeNode ⟨d, o⟩ t).name = (typeNode ⟨d₀, o⟩ t).name
    rw [name_typeNode, name_typeNode]
  summary hid := by
    show (typeNode ⟨d, o⟩ t).summary = (typeNode ⟨d₀, o⟩ t).summary
    rw [summary_typeNode, summary_typeNode, t.id_eq, h.written hid]
  constructors := by
    rw [typeNode_eq, typeNode_eq]
    refine membersSameExcept o h (fun _ => ?_) (fun _ => rfl) fun _ => rfl
    exact id
  methods := by
    rw [typeNode_eq, typeNode_eq]
    exact membersSameExcept o h (fun _ => TypeInfo.keyHasId_of_map) (fun _ => rfl) fun _ => rfl
  fields := by
    rw [typeNode_eq, typeNode_eq]
    exact membersSameExcept o h (fun _ => Except.ok.inj) (fun _ => rfl) fun _ => rfl
  properties := by
    rw [typeNode_eq, typeNode_eq]
    exact membersSameExcept o h (fun _ => TypeInfo.keyHasId_of_map) (fun _ => rfl) fun _ => rfl
  same ht := congrArg _ (typeNode_congr o h ht)

section Groups

variable {s : Surface} {p : String × List TypeInfo} (hp : p ∈ byNamespace s.publicTypes)

include hp

theorem namespaceNode_congr (hx : ¬ o.NamespaceHolds s p.1 x) :
    namespaceNode ⟨d, o⟩ p = namespaceNode ⟨d₀, o⟩ p := by
  obtain ⟨hid, htypes⟩ := not_or.mp hx
  have hnodes : (unrepeated [] p.2).map (typeNode ⟨d, o⟩) =
      (unrepeated [] p.2).map (typeNode ⟨d₀, o⟩) :=
    List.map_congr_left fun t ht => typeNode_congr o h fun hx =>
      htypes ⟨_, t, Surface.firstPublic?_of_mem_unrepeated hp ht, hx⟩
  rw [namespaceNode, namespaceNode, hnodes, namespaceId, h.written hid]

theorem namespaceNode_sameExcept :
    (namespaceNode ⟨d, o⟩ p).aggregate.SameExcept o x s
      (namespaceNode ⟨d₀, o⟩ p).aggregate where
  name := rfl
  summary hid := by
    have hwritten : d.written ("N:" ++ p.1) = d₀.written ("N:" ++ p.1) := h.written hid
    show (namespaceNode ⟨d, o⟩ p).summary = (namespaceNode ⟨d₀, o⟩ p).summary
    rw [namespaceNode, namespaceNode, namespaceId, hwritten]
  types := by
    rw [types_namespaceNode, types_namespaceNode]
    exact forall₂_map_map_same fun t ht =>
      ⟨t, firstPublic?_typeNode _ hp ht, typeNode_sameExcept o h t⟩
  same hx := congrArg _ (namespaceNode_congr o h hp hx)

end Groups

theorem tree_congr {s : Surface}
    (hx : ∀ p ∈ byNamespace s.publicTypes, ¬ o.NamespaceHolds s p.1 x) :
    tree ⟨d, o⟩ s = tree ⟨d₀, o⟩ s := by
  have hnodes : (byNamespace s.publicTypes).map (namespaceNode ⟨d, o⟩) =
      (byNamespace s.publicTypes).map (namespaceNode ⟨d₀, o⟩) :=
    List.map_congr_left fun p hp => namespaceNode_congr o h hp (hx p hp)
  rw [tree, tree, hnodes]

end Auditor

/-- **Each element is judged by its own id only.** If two indexes differ in what is written under
one id, the checks of a library under them yield trees with the same elements. Every node of an
element with another id, or with none, has the same summary in both; and what is counted differs
only at elements with this id and above them. -/
theorem judged_by_own_id (o : AuditOptions) (s : Surface) {x : String} {d d₀ : DocIndex}
    (h : d.AgreeExcept x d₀) :
    (Auditor.check ⟨d, o⟩ s).result.SameExcept o x s (Auditor.check ⟨d₀, o⟩ s).result := by
  refine ⟨?_, ?_, ?_, fun hx => ?_⟩
  · rw [Auditor.result_check, Auditor.result_check]
    rfl
  · rw [Auditor.result_check, Auditor.result_check]
    rfl
  · rw [Auditor.namespaces_check, Auditor.namespaces_check]
    exact forall₂_map_map_same fun p hp => Auditor.namespaceNode_sameExcept o h hp
  · rw [Auditor.namespaces_check, List.forall_mem_map] at hx
    rw [Auditor.result_check, Auditor.result_check, Auditor.tree_congr o h hx]

/-- The early index with a summary of the size of the widget. -/
def sizedIndex : DocIndex where
  fragment id :=
    if id = "F:Acme.Widget.Size" then some ⟨some "Its size."⟩ else earlyIndex.fragment id
  mode := .strict

theorem judged_by_own_id_widget :
    sizedIndex.AgreeExcept "F:Acme.Widget.Size" earlyIndex ∧
    (Auditor.check ⟨sizedIndex, {}⟩ widgetLibrary).result.SameExcept {}
      "F:Acme.Widget.Size" widgetLibrary (Auditor.check ⟨earlyIndex, {}⟩ widgetLibrary).result :=
  ⟨fun _ hid => if_neg hid, judged_by_own_id {} widgetLibrary fun _ hid => if_neg hid⟩

end DocAudit
