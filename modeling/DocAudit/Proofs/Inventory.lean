import DocAudit.Proofs.Walk
/-!
# The tree has what users can reach, and nothing else

* `Surface.firstPublic?`: the record that stands for a type in the tree.
* `Inventory`: no public element is lost, invented, repeated or moved.
* **`inventory_check`**: the tree of every check is such an inventory.
-/

namespace DocAudit

namespace Surface

/-- The first public type with the given namespace and name. -/
def firstPublic? (s : Surface) (ns name : String) : Option TypeInfo :=
  s.types.find? fun t => t.visibility.isPublic && t.namespaceName = ns && t.displayName = name

variable {s : Surface} {ns name : String} {t : TypeInfo}

theorem firstPublic?_eq (s : Surface) (ns name : String) :
    s.firstPublic? ns name =
      (s.publicTypes.filter (·.namespaceName = ns)).find? (·.displayName = name) := by
  rw [firstPublic?, publicTypes, List.filter_filter, List.find?_filter]
  congr 1
  funext t
  rw [Bool.decide_and, Bool.decide_eq_true, Bool.decide_eq_true,
    Bool.and_comm t.visibility.isPublic]

theorem names_of_firstPublic? (h : s.firstPublic? ns name = some t) :
    t ∈ s.publicTypes ∧ t.namespaceName = ns ∧ t.displayName = name := by
  have hp := List.find?_some h
  simp only [Bool.and_eq_true, decide_eq_true_eq] at hp
  exact ⟨List.mem_filter.mpr ⟨List.mem_of_find?_eq_some h, hp.1.1⟩, hp.1.2, hp.2⟩

theorem firstPublic?_of_mem_unrepeated {p : String × List TypeInfo}
    (hp : p ∈ byNamespace s.publicTypes) (ht : t ∈ unrepeated [] p.2) :
    s.firstPublic? p.1 t.displayName = some t := by
  rw [firstPublic?_eq, ← group_eq_filter hp]
  exact (find?_of_mem_unrepeated p.2 ht).2

end Surface

/-! ## Inventories -/

/-- The kinds and names of the members in a list of nodes. -/
def entries (ms : List MemberNode) : List (ElementKind × String) := ms.map fun m => (m.kind, m.name)

/-- A node lists a type: one node for each member that users can reach, in declaration order. -/
structure TypeNode.Lists (node : TypeNode) (t : TypeInfo) : Prop where
  constructors :
    entries node.constructors = t.publicConstructors.map fun c => (.constructor, c.displayName)
  methods : entries node.methods = t.publicMethods.map fun m => (.method, m.displayName)
  fields : entries node.fields = t.publicFields.map fun f => (.field, f.name)
  properties : entries node.properties = t.publicProperties.map fun p => (.property, p.displayName)

/-- A tree has the elements of a library that its users can reach. Namespaces, and the types of
each, are in the order of first appearance. A type is listed as its first public record has it; the
members of delegates may be left out. -/
structure Inventory (o : AuditOptions) (s : Surface) (c : Coverage) : Prop where
  namespaces : FirstSeen (c.namespaces.map (·.name)) (s.publicTypes.map (·.namespaceName))
  types : ∀ n ∈ c.namespaces, FirstSeen (n.types.map (·.name))
    ((s.publicTypes.filter (·.namespaceName = n.name)).map (·.displayName))
  members : ∀ n ∈ c.namespaces, ∀ node ∈ n.types, ∃ t,
    s.firstPublic? n.name node.name = some t ∧
      if o.skipDelegateMembers ∧ t.isDelegate then node.members = [] else node.Lists t

/-! ## Counting keeps an inventory -/

theorem entries_map_aggregate (ms : List MemberNode) :
    entries (ms.map MemberNode.aggregate) = entries ms := by
  rw [entries, List.map_map]
  rfl

theorem TypeNode.Lists.aggregate {node : TypeNode} {t : TypeInfo} (h : node.Lists t) :
    node.aggregate.Lists t where
  constructors := (entries_map_aggregate _).trans h.constructors
  methods := (entries_map_aggregate _).trans h.methods
  fields := (entries_map_aggregate _).trans h.fields
  properties := (entries_map_aggregate _).trans h.properties

theorem NamespaceNode.names_aggregate (n : NamespaceNode) :
    n.aggregate.types.map (·.name) = n.types.map (·.name) := by
  show (n.types.map TypeNode.aggregate).map _ = _
  rw [List.map_map]
  rfl

theorem Inventory.aggregate {o : AuditOptions} {s : Surface} {c : Coverage}
    (h : Inventory o s c) : Inventory o s c.aggregate where
  namespaces := by
    show FirstSeen ((c.namespaces.map NamespaceNode.aggregate).map _) _
    rw [List.map_map]
    exact h.namespaces
  types n' hn' := by
    obtain ⟨n, hn, rfl⟩ := List.mem_map.mp hn'
    rw [n.names_aggregate]
    exact h.types n hn
  members n' hn' node' hnode' := by
    obtain ⟨n, hn, rfl⟩ := List.mem_map.mp hn'
    obtain ⟨node, hnode, rfl⟩ := List.mem_map.mp hnode'
    obtain ⟨t, hfirst, hlists⟩ := h.members n hn node hnode
    refine ⟨t, hfirst, ?_⟩
    by_cases hs : o.skipDelegateMembers ∧ t.isDelegate
    · rw [if_pos hs] at hlists ⊢
      rw [node.members_aggregate, hlists, List.map_nil]
    · rw [if_neg hs] at hlists ⊢
      exact hlists.aggregate

/-! ## The tree of a library -/

/-- Those of some members of a type that are looked at: none if it is a delegate and members of
delegates are skipped. -/
def AuditOptions.visited {α : Type} (o : AuditOptions) (t : TypeInfo) (members : List α) :
    List α :=
  if o.skipDelegateMembers ∧ t.isDelegate then [] else members

theorem AuditOptions.visited_map {α β : Type} (o : AuditOptions) (t : TypeInfo) (f : α → β)
    (members : List α) : o.visited t (members.map f) = (o.visited t members).map f := by
  unfold visited
  split <;> rfl

namespace Auditor

variable (a : Auditor)

theorem name_typeNode (t : TypeInfo) : (a.typeNode t).name = t.displayName := by
  unfold typeNode
  split <;> rfl

theorem summary_typeNode (t : TypeInfo) : (a.typeNode t).summary = a.index.written t.id := by
  unfold typeNode
  split <;> rfl

theorem skipsMembers_iff (t : TypeInfo) :
    a.skipsMembers t = true ↔ a.options.skipDelegateMembers ∧ t.isDelegate := Bool.and_eq_true_iff

theorem members_typeNode_of_skips {t : TypeInfo} (h : a.skipsMembers t = true) :
    (a.typeNode t).members = [] := by
  rw [typeNode, if_pos h]
  rfl

theorem members_typeNode {t : TypeInfo} (h : ¬ a.skipsMembers t = true) :
    (a.typeNode t).members =
      (t.auditedConstructors ++ t.auditedMethods ++ t.auditedFields ++
        t.auditedProperties).map a.memberNode := by
  rw [typeNode, if_neg h, List.map_append, List.map_append, List.map_append]
  rfl

theorem typeNode_eq (t : TypeInfo) :
    a.typeNode t =
      { name := t.displayName
        summary := a.index.written t.id
        constructors := (a.options.visited t t.auditedConstructors).map a.memberNode
        methods := (a.options.visited t t.auditedMethods).map a.memberNode
        fields := (a.options.visited t t.auditedFields).map a.memberNode
        properties := (a.options.visited t t.auditedProperties).map a.memberNode } := by
  unfold typeNode AuditOptions.visited
  simp only [← a.skipsMembers_iff]
  split <;> rfl

theorem lists_typeNode {t : TypeInfo} (h : ¬ a.skipsMembers t = true) :
    (a.typeNode t).Lists t := by
  rw [typeNode, if_neg h]
  refine ⟨?_, ?_, ?_, ?_⟩ <;>
    · rw [entries, List.map_map]
      exact List.map_map

theorem types_namespaceNode (p : String × List TypeInfo) :
    (a.namespaceNode p).aggregate.types =
      (unrepeated [] p.2).map fun t => (a.typeNode t).aggregate :=
  List.map_map

theorem firstPublic?_typeNode {s : Surface} {p : String × List TypeInfo} {t : TypeInfo}
    (hp : p ∈ byNamespace s.publicTypes) (ht : t ∈ unrepeated [] p.2) :
    s.firstPublic? p.1 (a.typeNode t).aggregate.name = some t := by
  show s.firstPublic? p.1 (a.typeNode t).name = some t
  rw [name_typeNode]
  exact Surface.firstPublic?_of_mem_unrepeated hp ht

theorem inventory_tree (s : Surface) : Inventory a.options s (a.tree s) where
  namespaces := by
    show FirstSeen (((byNamespace s.publicTypes).map a.namespaceNode).map _) _
    rw [List.map_map]
    exact firstSeen_byNamespace s.publicTypes
  types n hn := by
    obtain ⟨p, hp, rfl⟩ := List.mem_map.mp hn
    show FirstSeen (((unrepeated [] p.2).map a.typeNode).map _)
      ((s.publicTypes.filter (·.namespaceName = p.1)).map _)
    rw [List.map_map, ← group_eq_filter hp]
    have hname : (·.name) ∘ a.typeNode = (·.displayName) := funext a.name_typeNode
    rw [hname]
    exact firstSeen_unrepeated p.2
  members n hn node hnode := by
    obtain ⟨p, hp, rfl⟩ := List.mem_map.mp hn
    obtain ⟨t, ht, rfl⟩ := List.mem_map.mp hnode
    refine ⟨t, ?_, ?_⟩
    · rw [name_typeNode]
      exact Surface.firstPublic?_of_mem_unrepeated hp ht
    · by_cases h : a.options.skipDelegateMembers ∧ t.isDelegate
      · rw [if_pos h]
        exact a.members_typeNode_of_skips ((a.skipsMembers_iff t).mpr h)
      · rw [if_neg h]
        exact a.lists_typeNode fun hs => h ((a.skipsMembers_iff t).mp hs)

end Auditor

/-- **No public element is lost, invented, repeated or moved**, whether or not all types of the
library could be resolved. -/
theorem inventory_check (a : Auditor) (s : Surface) :
    Inventory a.options s (a.check s).result := by
  rw [a.result_check]
  exact (a.inventory_tree s).aggregate

end DocAudit
