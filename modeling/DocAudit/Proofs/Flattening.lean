import DocAudit.Coverage.Tally
import DocAudit.Finding
/-!
# The findings in a coverage tree

A tree can be told as a list of findings, each node before the nodes below it.

* `Summary.reported`: the text reported of a summary, if it is not missing.
* `Coverage.findings`: this list, with the full names rebuilt from the names in the tree.
* **`Coverage.hasErrors_aggregate`**: a tree has errors when one of its findings is missing.
* **`Coverage.errors_aggregate_le`**: it has no more errors than missing findings.
-/

namespace DocAudit

/-- The text reported of a summary: its own, or the note that none is needed. -/
def Summary.reported : Summary → Option String
  | missing => none
  | present text => some text
  | exempt => some exemptNote

@[simp] theorem Finding.isMissing_reported (kind : ElementKind) (name : String) (s : Summary) :
    (Finding.mk kind name s.reported).isMissing = !s.isSatisfied := by
  cases s <;> rfl

/-- The full name of a type in a namespace. -/
def nameIn (ns name : String) : String := if ns = "" then name else ns ++ "." ++ name

/-- The finding about a member of the type with the given full name. -/
def MemberNode.finding (owner : String) (m : MemberNode) : Finding :=
  ⟨m.kind, owner ++ "::" ++ m.name, m.summary.reported⟩

/-- The findings about a type of a namespace and its members. -/
def TypeNode.findings (ns : String) (t : TypeNode) : List Finding :=
  ⟨.type, nameIn ns t.name, t.summary.reported⟩ :: t.members.map (·.finding (nameIn ns t.name))

/-- The findings about a namespace and its types. -/
def NamespaceNode.findings (n : NamespaceNode) : List Finding :=
  ⟨.namespace, n.name, n.summary.reported⟩ :: n.types.flatMap (·.findings n.name)

/-- The findings about all nodes of a tree. -/
def Coverage.findings (c : Coverage) : List Finding := c.namespaces.flatMap (·.findings)

/-! ## Tallies leave the findings alone -/

theorem TypeNode.members_aggregate (t : TypeNode) :
    t.aggregate.members = t.members.map MemberNode.aggregate := by
  simp [aggregate, members]

theorem TypeNode.findings_aggregate (ns : String) (t : TypeNode) :
    t.aggregate.findings ns = t.findings ns := by
  rw [findings, members_aggregate, List.map_map]
  rfl

theorem NamespaceNode.findings_aggregate (n : NamespaceNode) :
    n.aggregate.findings = n.findings := by
  simp only [findings, aggregate, List.flatMap_map, TypeNode.findings_aggregate]

/-- **Counting changes no finding.** -/
theorem Coverage.findings_aggregate (c : Coverage) : c.aggregate.findings = c.findings := by
  simp only [findings, aggregate, List.flatMap_map, NamespaceNode.findings_aggregate]

/-! ## Errors and missing findings -/

theorem Tally.hasErrors_rollUp (satisfied : Bool) (children : List Bool) :
    (rollUp satisfied children).hasErrors = (!satisfied || children.any id) := by
  show decide (0 < (if satisfied then 0 else 1) + children.countP (·)) = _
  rw [Bool.eq_iff_iff, decide_eq_true_eq, Bool.or_eq_true, List.any_eq_true]
  cases satisfied with
  | false => exact iff_of_true (Nat.lt_add_right _ Nat.one_pos) (.inl rfl)
  | true =>
    rw [if_pos rfl, Nat.zero_add, List.countP_pos_iff]
    exact ⟨.inr, fun h => h.resolve_left Bool.false_ne_true⟩

theorem TypeNode.hasErrors_aggregate (ns : String) (t : TypeNode) :
    t.aggregate.tally.hasErrors = (t.findings ns).any Finding.isMissing := by
  have h : t.aggregate.tally =
      Tally.rollUp t.summary.isSatisfied (t.aggregate.members.map (·.tally.hasErrors)) := rfl
  rw [h, Tally.hasErrors_rollUp, members_aggregate, findings, List.any_cons,
    Finding.isMissing_reported, List.map_map, List.any_map, List.any_map]
  congr 2
  funext m
  show (Tally.rollUp m.summary.isSatisfied []).hasErrors = _
  rw [Tally.hasErrors_rollUp, Function.comp_apply, MemberNode.finding, Finding.isMissing_reported]
  exact Bool.or_false _

theorem NamespaceNode.tally_aggregate (n : NamespaceNode) :
    n.aggregate.tally =
      Tally.rollUp n.summary.isSatisfied
        (n.types.map fun t => (t.findings n.name).any (·.isMissing)) := by
  show Tally.rollUp _ ((n.types.map TypeNode.aggregate).map (·.tally.hasErrors)) = _
  rw [List.map_map]
  congr 2
  funext t
  exact t.hasErrors_aggregate n.name

theorem NamespaceNode.hasErrors_aggregate (n : NamespaceNode) :
    n.aggregate.tally.hasErrors = n.findings.any Finding.isMissing := by
  rw [tally_aggregate, Tally.hasErrors_rollUp, findings, List.any_cons,
    Finding.isMissing_reported, List.any_map, List.any_flatMap]
  rfl

/-- **A tree has errors exactly when one of its findings is missing.** -/
theorem Coverage.hasErrors_aggregate (c : Coverage) :
    c.aggregate.hasErrors = c.findings.any Finding.isMissing := by
  rw [findings, List.any_flatMap]
  show (c.namespaces.map NamespaceNode.aggregate).any _ = _
  rw [List.any_map]
  congr 1
  funext n
  exact n.hasErrors_aggregate

/-- **A tree has no errors exactly when every node has the summary it needs.** -/
theorem Coverage.hasErrors_aggregate_eq_false (c : Coverage) :
    c.aggregate.hasErrors = false ↔
      ∀ n ∈ c.namespaces, n.summary.isSatisfied = true ∧
        ∀ t ∈ n.types, t.summary.isSatisfied = true ∧
          ∀ m ∈ t.members, m.summary.isSatisfied = true := by
  rw [hasErrors_aggregate, List.any_eq_false]
  simp only [findings, NamespaceNode.findings, TypeNode.findings, MemberNode.finding,
    List.mem_flatMap, List.mem_cons, List.mem_map]
  constructor
  · intro h n hn
    refine ⟨?_, fun t ht => ⟨?_, fun m hm => ?_⟩⟩
    · simpa using h _ ⟨n, hn, .inl rfl⟩
    · simpa using h _ ⟨n, hn, .inr ⟨t, ht, .inl rfl⟩⟩
    · simpa using h _ ⟨n, hn, .inr ⟨t, ht, .inr ⟨m, hm, rfl⟩⟩⟩
  · rintro h f ⟨n, hn, rfl | ⟨t, ht, rfl | ⟨m, hm, rfl⟩⟩⟩
    · simpa using (h n hn).1
    · simpa using ((h n hn).2 t ht).1
    · simpa using ((h n hn).2 t ht).2 m hm

theorem countP_any_le {α : Type} (f : α → List Finding) (xs : List α) :
    xs.countP (fun x => (f x).any (·.isMissing)) ≤ (xs.flatMap f).countP (·.isMissing) := by
  induction xs with
  | nil => exact Nat.le_refl 0
  | cons x xs ih =>
    rw [List.countP_cons, List.flatMap_cons, List.countP_append, Nat.add_comm]
    refine Nat.add_le_add ?_ ih
    by_cases h : (f x).any (·.isMissing) = true
    · rw [if_pos h]
      exact List.countP_pos_iff.mpr (List.any_eq_true.mp h)
    · rw [if_neg h]
      exact Nat.zero_le _

theorem NamespaceNode.errors_aggregate_le (n : NamespaceNode) :
    n.aggregate.tally.errors ≤ n.findings.countP (·.isMissing) := by
  rw [tally_aggregate, Tally.rollUp, findings, List.countP_cons, List.countP_map,
    Finding.isMissing_reported, Nat.add_comm]
  refine Nat.add_le_add (countP_any_le _ _) ?_
  cases n.summary.isSatisfied <;> exact Nat.le_refl _

/-- **A tree has no more errors than missing findings.** -/
theorem Coverage.errors_aggregate_le (c : Coverage) :
    c.aggregate.errors ≤ c.findings.countP (·.isMissing) := by
  show ((c.namespaces.map NamespaceNode.aggregate).map (·.tally.errors)).sum ≤ _
  rw [findings]
  induction c.namespaces with
  | nil => exact Nat.le_refl 0
  | cons n ns ih =>
    rw [List.map_cons, List.map_cons, List.sum_cons, List.flatMap_cons, List.countP_append]
    exact Nat.add_le_add n.errors_aggregate_le ih

end DocAudit
