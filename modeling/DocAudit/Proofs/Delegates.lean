import DocAudit.Proofs.Interleaving
import DocAudit.Proofs.Inventory
import DocAudit.Proofs.MoreDocumentation
import DocAudit.Proofs.Tallies
/-!
# Leaving out the members of delegates

A check may look at delegates without looking at their members. Beside a check that looks at all
members it loses the members of delegates, and nothing else.

* `Coverage.withoutMembersOf`: a tree without the members of some of its types.
* `Coverage.marked`: the findings in a tree, with a mark on those about such members.
* **`Auditor.tree_skipping`**: the trees of the two checks.
* **`Coverage.findings_withoutMembersOf`**: the findings that are left.
* **`skipping_touches_delegate_members`**: the two checks, side by side.
-/

namespace DocAudit

/-- Whether the type that stands for a name in a namespace is a delegate. -/
def Surface.isDelegateAt (s : Surface) (ns name : String) : Bool :=
  (s.firstPublic? ns name).any (·.isDelegate)

/-- The same check, with or without the members of delegates. -/
def Auditor.skipping (skip : Bool) (a : Auditor) : Auditor :=
  { a with options.skipDelegateMembers := skip }

/-! ## Trees without some members -/

def TypeNode.withoutMembers (t : TypeNode) : TypeNode :=
  { t with constructors := [], methods := [], fields := [], properties := [] }

/-- A namespace without the members of the types with selected names. -/
def NamespaceNode.withoutMembersOf (selected : String → Bool) (n : NamespaceNode) :
    NamespaceNode :=
  { n with types := n.types.map fun t => if selected t.name then t.withoutMembers else t }

/-- A tree without the members of the types that are selected by namespace and name. All tallies
stay as they are. -/
def Coverage.withoutMembersOf (selected : String → String → Bool) (c : Coverage) : Coverage :=
  { c with namespaces := c.namespaces.map fun n => n.withoutMembersOf (selected n.name) }

theorem NamespaceNode.bare_withoutMembersOf (selected : String → Bool) (n : NamespaceNode) :
    (n.withoutMembersOf selected).bare = n.bare.withoutMembersOf selected := by
  simp only [bare, withoutMembersOf, List.map_map]
  congr 2
  funext t
  show (if selected t.name then t.withoutMembers else t).bare =
    if selected t.name then t.bare.withoutMembers else t.bare
  split <;> rfl

theorem Coverage.bare_withoutMembersOf (selected : String → String → Bool) (c : Coverage) :
    (c.withoutMembersOf selected).bare = c.bare.withoutMembersOf selected := by
  simp only [bare, withoutMembersOf, List.map_map]
  congr 2
  funext n
  exact n.bare_withoutMembersOf (selected n.name)

/-- **Deleting members and counting again does not need the old counts.** -/
theorem Coverage.aggregate_withoutMembersOf (selected : String → String → Bool) (c : Coverage) :
    (c.aggregate.withoutMembersOf selected).aggregate =
      (c.withoutMembersOf selected).aggregate := by
  rw [← aggregate_bare, bare_withoutMembersOf, bare_aggregate, ← bare_withoutMembersOf,
    aggregate_bare]

/-! ## Findings about some members -/

/-- The findings about a type and its members, with the given mark on the members. -/
def TypeNode.marked (ns : String) (mark : Bool) (t : TypeNode) : List (Bool × Finding) :=
  (false, ⟨.type, nameIn ns t.name, t.summary.reported⟩) ::
    t.members.map fun m => (mark, m.finding (nameIn ns t.name))

def NamespaceNode.marked (selected : String → Bool) (n : NamespaceNode) : List (Bool × Finding) :=
  (false, ⟨.namespace, n.name, n.summary.reported⟩) ::
    n.types.flatMap fun t => t.marked n.name (selected t.name)

/-- The findings about all nodes of a tree; those about members of selected types are marked. -/
def Coverage.marked (selected : String → String → Bool) (c : Coverage) : List (Bool × Finding) :=
  c.namespaces.flatMap fun n => n.marked (selected n.name)

theorem TypeNode.map_marked (ns : String) (mark : Bool) (t : TypeNode) :
    (t.marked ns mark).map (·.2) = t.findings ns := by
  rw [marked, findings, List.map_cons, List.map_map]
  rfl

theorem NamespaceNode.map_marked (selected : String → Bool) (n : NamespaceNode) :
    (n.marked selected).map (·.2) = n.findings := by
  simp only [marked, findings, List.map_cons, List.map_flatMap, TypeNode.map_marked]

theorem Coverage.map_marked (selected : String → String → Bool) (c : Coverage) :
    (c.marked selected).map (·.2) = c.findings := by
  simp only [marked, findings, List.map_flatMap, NamespaceNode.map_marked]

theorem TypeNode.findings_withoutMembers (ns : String) (mark : Bool) (t : TypeNode) :
    (if mark then t.withoutMembers else t).findings ns =
      ((t.marked ns mark).filter (!·.1)).map (·.2) := by
  cases mark with
  | true => simp [marked, findings, withoutMembers, members]
  | false =>
    have hall : (t.marked ns false).filter (!·.1) = t.marked ns false := by
      refine List.filter_eq_self.mpr fun m hm => ?_
      rcases List.mem_cons.mp hm with rfl | hm
      · rfl
      · obtain ⟨m₀, -, rfl⟩ := List.mem_map.mp hm
        rfl
    rw [hall, map_marked]
    rfl

theorem NamespaceNode.findings_withoutMembersOf (selected : String → Bool) (n : NamespaceNode) :
    (n.withoutMembersOf selected).findings = ((n.marked selected).filter (!·.1)).map (·.2) := by
  rw [findings, marked, List.filter_cons_of_pos rfl, List.map_cons, List.filter_flatMap,
    List.map_flatMap]
  simp only [withoutMembersOf, List.flatMap_map, TypeNode.findings_withoutMembers]

/-- **Without the members of some types their findings are gone, and all others are left.** -/
theorem Coverage.findings_withoutMembersOf (selected : String → String → Bool) (c : Coverage) :
    (c.withoutMembersOf selected).findings =
      ((c.marked selected).filter (!·.1)).map (·.2) := by
  simp only [withoutMembersOf, findings, marked, List.flatMap_map, List.filter_flatMap,
    List.map_flatMap, NamespaceNode.findings_withoutMembersOf]

/-! ## The tree of a check that skips members -/

namespace Auditor

variable (a : Auditor)

theorem typeNode_skipping (t : TypeInfo) :
    (a.skipping true).typeNode t =
      if t.isDelegate then ((a.skipping false).typeNode t).withoutMembers
      else (a.skipping false).typeNode t := by
  have hon : (a.skipping true).skipsMembers t = t.isDelegate := rfl
  have hoff : (a.skipping false).skipsMembers t = false := rfl
  simp only [typeNode, hon, hoff]
  cases t.isDelegate <;> rfl

theorem namespaceNode_skipping {s : Surface} {p : String × List TypeInfo}
    (hp : p ∈ byNamespace s.publicTypes) :
    (a.skipping true).namespaceNode p =
      ((a.skipping false).namespaceNode p).withoutMembersOf (s.isDelegateAt p.1) := by
  have htypes : (unrepeated [] p.2).map (a.skipping true).typeNode =
      ((unrepeated [] p.2).map (a.skipping false).typeNode).map fun t =>
        if s.isDelegateAt p.1 t.name then t.withoutMembers else t := by
    rw [List.map_map]
    refine List.map_congr_left fun t ht => ?_
    have hdelegate : s.isDelegateAt p.1 t.displayName = t.isDelegate := by
      rw [Surface.isDelegateAt, Surface.firstPublic?_of_mem_unrepeated hp ht]
      rfl
    rw [Function.comp_apply, name_typeNode, hdelegate, typeNode_skipping]
  rw [namespaceNode, htypes]
  rfl

/-- **The tree of a check that skips members is the full tree without the members of
delegates.** -/
theorem tree_skipping (s : Surface) :
    (a.skipping true).tree s = ((a.skipping false).tree s).withoutMembersOf s.isDelegateAt := by
  have hnamespaces : (byNamespace s.publicTypes).map (a.skipping true).namespaceNode =
      ((byNamespace s.publicTypes).map (a.skipping false).namespaceNode).map fun n =>
        n.withoutMembersOf (s.isDelegateAt n.name) := by
    rw [List.map_map]
    exact List.map_congr_left fun p hp => a.namespaceNode_skipping hp
  rw [tree, hnamespaces]
  rfl

end Auditor

/-! ## Two checks side by side -/

/-- The node of a type in a check that skips the members of delegates, beside its node in a check
that does not. -/
structure TypeNode.Skips (index : DocIndex) (t : TypeInfo) (node full : TypeNode) : Prop where
  name : node.name = full.name
  summary : node.summary = full.summary
  written : node.summary = index.written ("T:" ++ t.qualifiedName)
  ordinary : t.isDelegate = false → node = full
  delegate : t.isDelegate = true → node.members = []

/-- A namespace in a check that skips the members of delegates, beside the same namespace in a check
that does not. Each type was built from its first public record. -/
structure NamespaceNode.Skips (index : DocIndex) (s : Surface) (n full : NamespaceNode) : Prop where
  name : n.name = full.name
  summary : n.summary = full.summary
  types : List.Forall₂ (fun node fullNode => ∃ t, s.firstPublic? n.name node.name = some t ∧
    TypeNode.Skips index t node fullNode) n.types full.types

namespace Auditor

variable (a : Auditor)

theorem skips_typeNode (t : TypeInfo) :
    TypeNode.Skips a.index t ((a.skipping true).typeNode t).aggregate
      ((a.skipping false).typeNode t).aggregate where
  name := ((a.skipping true).name_typeNode t).trans ((a.skipping false).name_typeNode t).symm
  summary :=
    ((a.skipping true).summary_typeNode t).trans ((a.skipping false).summary_typeNode t).symm
  written := (a.skipping true).summary_typeNode t
  ordinary h := by rw [typeNode_skipping, h, if_neg Bool.false_ne_true]
  delegate h := by
    have hskips : (a.skipping true).skipsMembers t = true := h
    rw [TypeNode.members_aggregate, members_typeNode_of_skips _ hskips, List.map_nil]

theorem skips_namespaceNode {s : Surface} {p : String × List TypeInfo}
    (hp : p ∈ byNamespace s.publicTypes) :
    NamespaceNode.Skips a.index s ((a.skipping true).namespaceNode p).aggregate
      ((a.skipping false).namespaceNode p).aggregate where
  name := rfl
  summary := rfl
  types := by
    show List.Forall₂ _ (((unrepeated [] p.2).map (a.skipping true).typeNode).map _)
      (((unrepeated [] p.2).map (a.skipping false).typeNode).map _)
    rw [List.map_map, List.map_map]
    refine forall₂_map_map_same fun t ht => ⟨t, ?_, a.skips_typeNode t⟩
    show s.firstPublic? p.1 ((a.skipping true).typeNode t).name = some t
    rw [name_typeNode]
    exact Surface.firstPublic?_of_mem_unrepeated hp ht

end Auditor

/-- **Skipping touches the members of delegates only.** Both checks yield the same namespaces and
types with the same names and summaries; the node of a type that is no delegate is the same in
both, and that of a delegate has no members but still its own summary. The tallies are those of the
full tree, counted again without the members of delegates. The findings about these members are
gone, and all others are left, in their order. -/
theorem skipping_touches_delegate_members (a : Auditor) (s : Surface) :
    let skipped := (a.skipping true).check s
    let full := (a.skipping false).check s
    let marked := (full.result.marked s.isDelegateAt).filter fun m => a.options.reports m.2
    List.Forall₂ (NamespaceNode.Skips a.index s) skipped.result.namespaces
      full.result.namespaces ∧
    skipped.result = (full.result.withoutMembersOf s.isDelegateAt).aggregate ∧
    full.findings = marked.map (·.2) ∧
    skipped.findings = (marked.filter (!·.1)).map (·.2) := by
  intro skipped full marked
  have htree : skipped.result = (full.result.withoutMembersOf s.isDelegateAt).aggregate := by
    show ((a.skipping true).check s).result =
      (((a.skipping false).check s).result.withoutMembersOf _).aggregate
    rw [Auditor.result_check, Auditor.result_check, a.tree_skipping,
      Coverage.aggregate_withoutMembersOf]
  refine ⟨?_, htree, ?_, ?_⟩
  · show List.Forall₂ _ ((a.skipping true).check s).result.namespaces
      ((a.skipping false).check s).result.namespaces
    rw [Auditor.namespaces_check, Auditor.namespaces_check]
    exact forall₂_map_map_same fun p hp => a.skips_namespaceNode hp
  · show ((a.skipping false).check s).findings = _
    rw [Auditor.findings_check, ← Coverage.map_marked s.isDelegateAt, List.filter_map]
    rfl
  · show ((a.skipping true).check s).findings = _
    rw [Auditor.findings_check]
    show skipped.result.findings.filter a.options.reports = _
    rw [htree, Coverage.findings_aggregate, Coverage.findings_withoutMembersOf, List.filter_map,
      List.filter_comm]
    rfl

end DocAudit
