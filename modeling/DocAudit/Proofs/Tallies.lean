import DocAudit.Proofs.Flattening
/-!
# What the tallies of a tree count

Counting fills in the tallies of a tree, whatever they were before. Afterwards each of them tells of
the summaries at and below its node, and the tree without its tallies is the same.

* `Coverage.bare`: a tree without its tallies; `Coverage.aggregate_bare`, `Coverage.bare_aggregate`.
* `Coverage.HasMissing`: some node of a tree lacks its summary.
* `Coverage.Tallied`: the tally of every node is what its own summary and its children make of it.
* **`Coverage.tallied_aggregate`**, **`Coverage.Tallied.aggregate_eq`**: counting makes such a tree,
  and leaves one as it is.
* **`Coverage.Tallied.hasErrors_iff`**, **`Coverage.Tallied.errors_eq`**: what the root tells.
-/

namespace DocAudit

/-! ## Trees without tallies -/

def MemberNode.bare (m : MemberNode) : MemberNode := { m with tally := {} }

/-- A type without the tallies of its members and its own. -/
def TypeNode.bare (t : TypeNode) : TypeNode where
  name := t.name
  summary := t.summary
  constructors := t.constructors.map MemberNode.bare
  methods := t.methods.map MemberNode.bare
  fields := t.fields.map MemberNode.bare
  properties := t.properties.map MemberNode.bare

/-- A namespace without the tallies of its types and its own. -/
def NamespaceNode.bare (n : NamespaceNode) : NamespaceNode where
  name := n.name
  summary := n.summary
  types := n.types.map TypeNode.bare

/-- A tree without its tallies. -/
def Coverage.bare (c : Coverage) : Coverage where
  assembly := c.assembly
  namespaces := c.namespaces.map NamespaceNode.bare
  unresolved := c.unresolved

theorem TypeNode.bare_aggregate (t : TypeNode) : t.aggregate.bare = t.bare := by
  simp only [bare, aggregate, List.map_map]
  rfl

theorem NamespaceNode.bare_aggregate (n : NamespaceNode) : n.aggregate.bare = n.bare := by
  have h : TypeNode.bare ∘ TypeNode.aggregate = TypeNode.bare := funext TypeNode.bare_aggregate
  simp only [bare, aggregate, List.map_map, h]

/-- **Counting changes nothing but the tallies.** -/
theorem Coverage.bare_aggregate (c : Coverage) : c.aggregate.bare = c.bare := by
  have h : NamespaceNode.bare ∘ NamespaceNode.aggregate = NamespaceNode.bare :=
    funext NamespaceNode.bare_aggregate
  simp only [bare, aggregate, List.map_map, h]

theorem TypeNode.aggregate_bare (t : TypeNode) : t.bare.aggregate = t.aggregate := by
  simp only [bare, aggregate, List.map_map]
  rfl

theorem NamespaceNode.aggregate_bare (n : NamespaceNode) : n.bare.aggregate = n.aggregate := by
  have h : TypeNode.aggregate ∘ TypeNode.bare = TypeNode.aggregate := funext TypeNode.aggregate_bare
  simp only [bare, aggregate, List.map_map, h]

/-- **Counting does not look at the tallies that are there.** -/
theorem Coverage.aggregate_bare (c : Coverage) : c.bare.aggregate = c.aggregate := by
  have h : NamespaceNode.aggregate ∘ NamespaceNode.bare = NamespaceNode.aggregate :=
    funext NamespaceNode.aggregate_bare
  simp only [bare, aggregate, List.map_map, h]

/-! ## Missing summaries -/

/-- How many errors a summary is: one if it is missing. -/
def Summary.ownErrors (s : Summary) : Nat := if s = .missing then 1 else 0

/-- The type or one of its members lacks its summary. -/
def TypeNode.HasMissing (t : TypeNode) : Prop :=
  t.summary = .missing ∨ ∃ m ∈ t.members, m.summary = .missing

/-- The namespace, one of its types or a member of one lacks its summary. -/
def NamespaceNode.HasMissing (n : NamespaceNode) : Prop :=
  n.summary = .missing ∨ ∃ t ∈ n.types, t.HasMissing

/-- Some node of the tree lacks its summary. -/
def Coverage.HasMissing (c : Coverage) : Prop := ∃ n ∈ c.namespaces, n.HasMissing

instance (t : TypeNode) : Decidable t.HasMissing := inferInstanceAs (Decidable (_ ∨ _))

namespace Summary

theorem ownErrors_eq (s : Summary) : s.ownErrors = if s.isSatisfied then 0 else 1 := by
  cases s <;> rfl

theorem ownErrors_pos_iff (s : Summary) : 0 < s.ownErrors ↔ s = .missing := by
  rw [ownErrors]
  split <;> simp_all

end Summary

/-! ## Trees with correct tallies -/

/-- A member counts one error if its summary is missing. -/
structure MemberNode.Tallied (m : MemberNode) : Prop where
  errors : m.tally.errors = m.summary.ownErrors
  pos_iff : m.tally.hasErrors = true ↔ 0 < m.tally.errors

/-- A type counts its own missing summary and its members with errors. -/
structure TypeNode.Tallied (t : TypeNode) : Prop where
  members : ∀ m ∈ t.members, m.Tallied
  errors : t.tally.errors = t.summary.ownErrors + t.members.countP (·.tally.hasErrors)
  pos_iff : t.tally.hasErrors = true ↔ 0 < t.tally.errors

/-- A namespace counts its own missing summary and its types with errors, each of them once. -/
structure NamespaceNode.Tallied (n : NamespaceNode) : Prop where
  types : ∀ t ∈ n.types, t.Tallied
  errors : n.tally.errors = n.summary.ownErrors + n.types.countP (·.tally.hasErrors)
  pos_iff : n.tally.hasErrors = true ↔ 0 < n.tally.errors

/-- A tree adds up the counts of its namespaces. -/
structure Coverage.Tallied (c : Coverage) : Prop where
  namespaces : ∀ n ∈ c.namespaces, n.Tallied
  errors : c.errors = (c.namespaces.map (·.tally.errors)).foldr (· + ·) 0
  hasErrors : c.hasErrors = c.namespaces.any (·.tally.hasErrors)

/-! ## Counting makes correct tallies -/

namespace Tally

theorem errors_rollUp (s : Summary) (children : List Bool) :
    (rollUp s.isSatisfied children).errors = s.ownErrors + children.countP (·) := by
  rw [Summary.ownErrors_eq]
  rfl

theorem pos_rollUp (satisfied : Bool) (children : List Bool) :
    (rollUp satisfied children).hasErrors = true ↔ 0 < (rollUp satisfied children).errors :=
  decide_eq_true_iff

theorem eq_of_errors {t u : Tally} (ht : t.hasErrors = true ↔ 0 < t.errors)
    (hu : u.hasErrors = true ↔ 0 < u.errors) (h : t.errors = u.errors) : t = u := by
  obtain ⟨tHas, tErrors⟩ := t
  obtain ⟨uHas, uErrors⟩ := u
  obtain rfl : tErrors = uErrors := h
  obtain rfl : tHas = uHas := Bool.eq_iff_iff.mpr (ht.trans hu.symm)
  rfl

end Tally

theorem MemberNode.tallied_aggregate (m : MemberNode) : m.aggregate.Tallied where
  errors := Tally.errors_rollUp m.summary []
  pos_iff := Tally.pos_rollUp _ _

theorem TypeNode.tallied_aggregate (t : TypeNode) : t.aggregate.Tallied where
  members m hm := by
    rw [members_aggregate] at hm
    obtain ⟨m₀, -, rfl⟩ := List.mem_map.mp hm
    exact m₀.tallied_aggregate
  errors := by
    refine (Tally.errors_rollUp t.summary (t.aggregate.members.map (·.tally.hasErrors))).trans ?_
    rw [List.countP_map]
    rfl
  pos_iff := Tally.pos_rollUp _ _

theorem NamespaceNode.tallied_aggregate (n : NamespaceNode) : n.aggregate.Tallied where
  types t ht := by
    obtain ⟨t₀, -, rfl⟩ := List.mem_map.mp ht
    exact t₀.tallied_aggregate
  errors := by
    refine (Tally.errors_rollUp n.summary (n.aggregate.types.map (·.tally.hasErrors))).trans ?_
    rw [List.countP_map]
    rfl
  pos_iff := Tally.pos_rollUp _ _

/-- **Counting makes all tallies correct.** -/
theorem Coverage.tallied_aggregate (c : Coverage) : c.aggregate.Tallied where
  namespaces n hn := by
    obtain ⟨n₀, -, rfl⟩ := List.mem_map.mp hn
    exact n₀.tallied_aggregate
  errors := rfl
  hasErrors := rfl

/-! ## Correct tallies stay -/

theorem map_eq_self {α : Type} {f : α → α} {xs : List α} (h : ∀ x ∈ xs, f x = x) :
    xs.map f = xs := (List.map_congr_left h).trans (List.map_id' xs)

theorem MemberNode.Tallied.aggregate_eq {m : MemberNode} (h : m.Tallied) : m.aggregate = m := by
  have htally : m.aggregate.tally = m.tally :=
    Tally.eq_of_errors m.tallied_aggregate.pos_iff h.pos_iff
      (m.tallied_aggregate.errors.trans h.errors.symm)
  show { m with tally := m.aggregate.tally } = m
  rw [htally]

theorem TypeNode.Tallied.aggregate_eq {t : TypeNode} (h : t.Tallied) : t.aggregate = t := by
  have hmembers (ms : List MemberNode) (hms : ms ⊆ t.members) :
      ms.map MemberNode.aggregate = ms :=
    map_eq_self fun m hm => (h.members m (hms hm)).aggregate_eq
  have hall : t.aggregate.members = t.members :=
    t.members_aggregate.trans (hmembers _ (List.Subset.refl _))
  have htally : t.aggregate.tally = t.tally := by
    refine Tally.eq_of_errors t.tallied_aggregate.pos_iff h.pos_iff ?_
    rw [t.tallied_aggregate.errors, h.errors, hall]
    rfl
  show { t with
    constructors := t.constructors.map MemberNode.aggregate
    methods := t.methods.map MemberNode.aggregate
    fields := t.fields.map MemberNode.aggregate
    properties := t.properties.map MemberNode.aggregate
    tally := t.aggregate.tally } = t
  rw [htally, hmembers t.constructors, hmembers t.methods, hmembers t.fields,
    hmembers t.properties]
  all_goals
    intro m hm
    simp [TypeNode.members, hm]

theorem NamespaceNode.Tallied.aggregate_eq {n : NamespaceNode} (h : n.Tallied) :
    n.aggregate = n := by
  have htypes : n.aggregate.types = n.types := map_eq_self fun t ht => (h.types t ht).aggregate_eq
  have htally : n.aggregate.tally = n.tally := by
    refine Tally.eq_of_errors n.tallied_aggregate.pos_iff h.pos_iff ?_
    rw [n.tallied_aggregate.errors, h.errors, htypes]
    rfl
  show { n with types := n.aggregate.types, tally := n.aggregate.tally } = n
  rw [htypes, htally]

/-- **A tree with correct tallies stays as it is.** -/
theorem Coverage.Tallied.aggregate_eq {c : Coverage} (h : c.Tallied) : c.aggregate = c := by
  have hnamespaces : c.aggregate.namespaces = c.namespaces :=
    map_eq_self fun n hn => (h.namespaces n hn).aggregate_eq
  have htally : c.aggregate.tally = c.tally := by
    show Tally.mk c.aggregate.hasErrors c.aggregate.errors = Tally.mk c.hasErrors c.errors
    rw [c.tallied_aggregate.hasErrors, c.tallied_aggregate.errors, hnamespaces, h.hasErrors,
      h.errors]
  show { c with namespaces := c.aggregate.namespaces, tally := c.aggregate.tally } = c
  rw [hnamespaces, htally]

/-! ## What correct tallies tell -/

theorem MemberNode.Tallied.hasErrors_iff {m : MemberNode} (h : m.Tallied) :
    m.tally.hasErrors = true ↔ m.summary = .missing := by
  rw [h.pos_iff, h.errors, Summary.ownErrors_pos_iff]

theorem TypeNode.Tallied.hasErrors_iff {t : TypeNode} (h : t.Tallied) :
    t.tally.hasErrors = true ↔ t.HasMissing := by
  rw [h.pos_iff, h.errors, Nat.add_pos_iff_pos_or_pos, Summary.ownErrors_pos_iff,
    List.countP_pos_iff]
  exact or_congr_right (exists_congr fun m => and_congr_right fun hm =>
    (h.members m hm).hasErrors_iff)

theorem NamespaceNode.Tallied.hasErrors_iff {n : NamespaceNode} (h : n.Tallied) :
    n.tally.hasErrors = true ↔ n.HasMissing := by
  rw [h.pos_iff, h.errors, Nat.add_pos_iff_pos_or_pos, Summary.ownErrors_pos_iff,
    List.countP_pos_iff]
  exact or_congr_right (exists_congr fun t => and_congr_right fun ht =>
    (h.types t ht).hasErrors_iff)

namespace Coverage.Tallied

variable {c : Coverage} (h : c.Tallied)

include h

/-- **A tree has errors when something in it lacks its summary.** -/
theorem hasErrors_iff : c.hasErrors = true ↔ c.HasMissing := by
  rw [h.hasErrors, List.any_eq_true]
  exact exists_congr fun n => and_congr_right fun hn => (h.namespaces n hn).hasErrors_iff

theorem pos_iff : c.hasErrors = true ↔ 0 < c.errors := by
  rw [h.hasErrors, h.errors, List.any_eq_true, ← List.sum_eq_foldr,
    List.sum_pos_iff_exists_pos_nat]
  constructor
  · rintro ⟨n, hn, herrors⟩
    exact ⟨_, List.mem_map_of_mem hn, (h.namespaces n hn).pos_iff.mp herrors⟩
  · rintro ⟨_, hmem, hpos⟩
    obtain ⟨n, hn, rfl⟩ := List.mem_map.mp hmem
    exact ⟨n, hn, (h.namespaces n hn).pos_iff.mpr hpos⟩

end Coverage.Tallied

end DocAudit
