import DocAudit.Proofs.Reporting
import DocAudit.Proofs.Verdict
import Mathlib.Algebra.Order.BigOperators.Group.List
import Mathlib.Algebra.Order.Group.Nat
/-!
# Writing documentation never makes a check worse

Two trees of one shape are compared node by node. Where every element that is documented in one
index is documented in another, the tree under the second is no worse than that under the first.

* `Coverage.NoWorse`: the same elements, nowhere a new missing summary, and no larger tally.
* **`Coverage.NoWorse.aggregate`**: counting keeps this relation.
* **`Coverage.NoWorse.missing_sublist`**: no new finding is missing.
* **`Auditor.noWorse_tree`**: the trees of a library under two indexes.
* **`more_documentation_no_worse`**: the checks of a library under two indexes.
-/

namespace DocAudit

/-! ## Trees that are no worse -/

/-- A tally that has no more errors than another one. -/
structure Tally.AtMost (t u : Tally) : Prop where
  hasErrors : t.hasErrors = true → u.hasErrors = true
  errors : t.errors ≤ u.errors

/-- A summary that is fine if another one is. -/
def Summary.NoWorse (s s₀ : Summary) : Prop := s₀.isSatisfied = true → s.isSatisfied = true

structure MemberNode.NoWorse (m m₀ : MemberNode) : Prop where
  kind : m.kind = m₀.kind
  name : m.name = m₀.name
  summary : m.summary.NoWorse m₀.summary
  tally : m.tally.AtMost m₀.tally

structure TypeNode.NoWorse (t t₀ : TypeNode) : Prop where
  name : t.name = t₀.name
  summary : t.summary.NoWorse t₀.summary
  constructors : List.Forall₂ MemberNode.NoWorse t.constructors t₀.constructors
  methods : List.Forall₂ MemberNode.NoWorse t.methods t₀.methods
  fields : List.Forall₂ MemberNode.NoWorse t.fields t₀.fields
  properties : List.Forall₂ MemberNode.NoWorse t.properties t₀.properties
  tally : t.tally.AtMost t₀.tally

structure NamespaceNode.NoWorse (n n₀ : NamespaceNode) : Prop where
  name : n.name = n₀.name
  summary : n.summary.NoWorse n₀.summary
  types : List.Forall₂ TypeNode.NoWorse n.types n₀.types
  tally : n.tally.AtMost n₀.tally

/-- A tree has the same elements as another one in the same places, no summary is missing in it
alone, and no node of it counts more errors. -/
structure Coverage.NoWorse (c c₀ : Coverage) : Prop where
  assembly : c.assembly = c₀.assembly
  namespaces : List.Forall₂ NamespaceNode.NoWorse c.namespaces c₀.namespaces
  unresolved : c.unresolved = c₀.unresolved
  tally : c.tally.AtMost c₀.tally

theorem TypeNode.NoWorse.members {t t₀ : TypeNode} (h : t.NoWorse t₀) :
    List.Forall₂ MemberNode.NoWorse t.members t₀.members :=
  List.rel_append (List.rel_append (List.rel_append h.constructors h.methods) h.fields)
    h.properties

/-! ## Lists compared item by item -/

section Lists

variable {α β γ δ : Type} {R : α → β → Prop} {xs : List α} {ys : List β}

theorem countP_le_of_forall₂ {p : α → Bool} {q : β → Bool}
    (hpq : ∀ x y, R x y → p x = true → q y = true) (h : List.Forall₂ R xs ys) :
    xs.countP p ≤ ys.countP q := by
  induction h with
  | nil => exact Nat.le_refl 0
  | @cons x y xs ys hxy _ ih =>
    rw [List.countP_cons, List.countP_cons]
    refine Nat.add_le_add ih ?_
    by_cases hx : p x = true
    · rw [if_pos hx, if_pos (hpq x y hxy hx)]
    · rw [if_neg hx]
      exact Nat.zero_le _

theorem flatMap_sublist_of_forall₂ {f : α → List γ} {g : β → List γ}
    (hfg : ∀ x y, R x y → (f x).Sublist (g y)) (h : List.Forall₂ R xs ys) :
    (xs.flatMap f).Sublist (ys.flatMap g) := by
  induction h with
  | nil => exact List.Sublist.refl []
  | @cons x y xs ys hxy _ ih =>
    rw [List.flatMap_cons, List.flatMap_cons]
    exact (hfg x y hxy).append ih

theorem forall₂_map_map {P : γ → δ → Prop} {f : α → γ} {g : β → δ}
    (hfg : ∀ x y, R x y → P (f x) (g y)) (h : List.Forall₂ R xs ys) :
    List.Forall₂ P (xs.map f) (ys.map g) :=
  List.forall₂_map_left_iff.mpr (List.forall₂_map_right_iff.mpr (h.imp hfg))

theorem forall₂_map_map_same {P : γ → δ → Prop} {f : α → γ} {g : α → δ}
    (hfg : ∀ x ∈ xs, P (f x) (g x)) : List.Forall₂ P (xs.map f) (xs.map g) :=
  List.forall₂_map_left_iff.mpr (List.forall₂_map_right_iff.mpr (List.forall₂_same.mpr hfg))

end Lists

/-! ## Counting -/

theorem Tally.AtMost.refl (t : Tally) : t.AtMost t := ⟨id, Nat.le_refl _⟩

/-- A node counts no more errors if its summary is no worse and no child has errors that had
none. -/
theorem Tally.atMost_rollUp {s s₀ : Summary} {children children₀ : List Bool}
    (hs : s.NoWorse s₀)
    (hchildren : List.Forall₂ (fun b b₀ => b = true → b₀ = true) children children₀) :
    (rollUp s.isSatisfied children).AtMost (rollUp s₀.isSatisfied children₀) := by
  have hcount := countP_le_of_forall₂ (fun _ _ h => h) hchildren
  have hown : (if s.isSatisfied then 0 else 1) ≤ if s₀.isSatisfied then 0 else 1 := by
    by_cases h : s₀.isSatisfied = true
    · rw [if_pos h, if_pos (hs h)]
    · rw [if_neg h]
      split <;> decide
  have herrors := Nat.add_le_add hown hcount
  refine ⟨fun h => ?_, herrors⟩
  exact decide_eq_true (Nat.lt_of_lt_of_le (of_decide_eq_true h) herrors)

theorem MemberNode.NoWorse.aggregate {m m₀ : MemberNode} (h : m.NoWorse m₀) :
    m.aggregate.NoWorse m₀.aggregate :=
  { h with tally := Tally.atMost_rollUp h.summary .nil }

theorem TypeNode.NoWorse.aggregate {t t₀ : TypeNode} (h : t.NoWorse t₀) :
    t.aggregate.NoWorse t₀.aggregate where
  name := h.name
  summary := h.summary
  constructors := forall₂_map_map (fun _ _ hm => hm.aggregate) h.constructors
  methods := forall₂_map_map (fun _ _ hm => hm.aggregate) h.methods
  fields := forall₂_map_map (fun _ _ hm => hm.aggregate) h.fields
  properties := forall₂_map_map (fun _ _ hm => hm.aggregate) h.properties
  tally := by
    show (Tally.rollUp _ (t.aggregate.members.map (·.tally.hasErrors))).AtMost
      (Tally.rollUp _ (t₀.aggregate.members.map (·.tally.hasErrors)))
    refine Tally.atMost_rollUp h.summary ?_
    rw [t.members_aggregate, t₀.members_aggregate, List.map_map, List.map_map]
    exact forall₂_map_map (fun _ _ hm => hm.aggregate.tally.hasErrors) h.members

theorem NamespaceNode.NoWorse.aggregate {n n₀ : NamespaceNode} (h : n.NoWorse n₀) :
    n.aggregate.NoWorse n₀.aggregate := by
  have htypes := forall₂_map_map (fun _ _ ht => ht.aggregate) h.types
  exact
    { name := h.name
      summary := h.summary
      types := htypes
      tally := Tally.atMost_rollUp h.summary
        (forall₂_map_map (fun _ _ ht => ht.tally.hasErrors) htypes) }

/-- **Counting keeps a tree no worse than another one.** -/
theorem Coverage.NoWorse.aggregate {c c₀ : Coverage} (h : c.NoWorse c₀) :
    c.aggregate.NoWorse c₀.aggregate := by
  have hnamespaces := forall₂_map_map (fun _ _ hn => hn.aggregate) h.namespaces
  have htally : c.aggregate.tally.AtMost c₀.aggregate.tally := by
    constructor
    · intro hany
      obtain ⟨n, hn, herrors⟩ := List.any_eq_true.mp hany
      have hpos := countP_le_of_forall₂ (fun _ _ hn => hn.tally.hasErrors) hnamespaces
      exact List.any_eq_true.mpr (List.countP_pos_iff.mp
        (Nat.lt_of_lt_of_le (List.countP_pos_iff.mpr ⟨n, hn, herrors⟩) hpos))
    · exact (forall₂_map_map (fun _ _ hn => hn.tally.errors) hnamespaces).sum_le_sum
  exact ⟨h.assembly, hnamespaces, h.unresolved, htally⟩

/-! ## Missing findings -/

theorem Summary.NoWorse.missing_sublist {s s₀ : Summary} (h : s.NoWorse s₀) (kind : ElementKind)
    (name : String) {fs fs₀ : List Finding}
    (hfs : (fs.filter (·.isMissing)).Sublist (fs₀.filter (·.isMissing))) :
    ((Finding.mk kind name s.reported :: fs).filter (·.isMissing)).Sublist
      ((Finding.mk kind name s₀.reported :: fs₀).filter (·.isMissing)) := by
  have hlater := hfs.trans ((List.sublist_cons_self ⟨kind, name, s₀.reported⟩ fs₀).filter _)
  cases s with
  | missing =>
    cases s₀ with
    | missing => exact hfs.cons_cons _
    | present text => exact absurd (h rfl) Bool.false_ne_true
    | exempt => exact absurd (h rfl) Bool.false_ne_true
  | present text => exact hlater
  | exempt => exact hlater

theorem TypeNode.NoWorse.missing_sublist {t t₀ : TypeNode} (h : t.NoWorse t₀) (ns : String) :
    ((t.findings ns).filter (·.isMissing)).Sublist ((t₀.findings ns).filter (·.isMissing)) := by
  rw [TypeNode.findings, TypeNode.findings, h.name]
  refine h.summary.missing_sublist _ _ ?_
  rw [List.map_eq_flatMap, List.map_eq_flatMap, List.filter_flatMap, List.filter_flatMap]
  refine flatMap_sublist_of_forall₂ (fun m m₀ hm => ?_) h.members
  rw [MemberNode.finding, MemberNode.finding, hm.kind, hm.name]
  exact hm.summary.missing_sublist _ _ (List.Sublist.refl _)

theorem NamespaceNode.NoWorse.missing_sublist {n n₀ : NamespaceNode} (h : n.NoWorse n₀) :
    (n.findings.filter (·.isMissing)).Sublist (n₀.findings.filter (·.isMissing)) := by
  rw [NamespaceNode.findings, NamespaceNode.findings, h.name]
  refine h.summary.missing_sublist _ _ ?_
  rw [List.filter_flatMap, List.filter_flatMap]
  exact flatMap_sublist_of_forall₂ (fun t t₀ ht => ht.missing_sublist _) h.types

/-- **What is missing in a tree that is no worse is missing in the other one**, in the same
order. -/
theorem Coverage.NoWorse.missing_sublist {c c₀ : Coverage} (h : c.NoWorse c₀) :
    (c.findings.filter (·.isMissing)).Sublist (c₀.findings.filter (·.isMissing)) := by
  rw [Coverage.findings, Coverage.findings, List.filter_flatMap, List.filter_flatMap]
  exact flatMap_sublist_of_forall₂ (fun n n₀ hn => hn.missing_sublist) h.namespaces

/-! ## One library under two indexes -/

namespace Auditor

variable {d d₀ : DocIndex} (o : AuditOptions) (h : ∀ id, d₀.Documented id → d.Documented id)

include h

theorem noWorse_memberNode (m : AuditedMember) :
    (memberNode ⟨d, o⟩ m).NoWorse (memberNode ⟨d₀, o⟩ m) where
  kind := rfl
  name := rfl
  summary := by
    intro hm
    rw [isSatisfied_memberNode] at hm ⊢
    exact hm.imp_right fun ⟨id, hid, hdoc⟩ => ⟨id, hid, h id hdoc⟩
  tally := .refl _

theorem noWorse_typeNode (t : TypeInfo) : (typeNode ⟨d, o⟩ t).NoWorse (typeNode ⟨d₀, o⟩ t) := by
  have hsummary : (typeNode ⟨d, o⟩ t).summary.NoWorse (typeNode ⟨d₀, o⟩ t).summary := by
    intro ht
    rw [isSatisfied_typeNode] at ht ⊢
    exact h _ ht
  have hmembers (ms : List AuditedMember) : List.Forall₂ MemberNode.NoWorse
      (ms.map (memberNode ⟨d, o⟩)) (ms.map (memberNode ⟨d₀, o⟩)) :=
    forall₂_map_map_same fun m _ => noWorse_memberNode o h m
  have hskips : skipsMembers ⟨d, o⟩ t = skipsMembers ⟨d₀, o⟩ t := rfl
  by_cases hs : skipsMembers ⟨d₀, o⟩ t = true
  · simp only [typeNode, hskips, if_pos hs] at hsummary ⊢
    exact ⟨rfl, hsummary, .nil, .nil, .nil, .nil, .refl _⟩
  · simp only [typeNode, hskips, if_neg hs] at hsummary ⊢
    exact ⟨rfl, hsummary, hmembers _, hmembers _, hmembers _, hmembers _, .refl _⟩

theorem noWorse_namespaceNode {s : Surface} {p : String × List TypeInfo}
    (hp : p ∈ byNamespace s.publicTypes) :
    (namespaceNode ⟨d, o⟩ p).NoWorse (namespaceNode ⟨d₀, o⟩ p) where
  name := rfl
  summary := by
    intro hn
    rw [isSatisfied_namespaceNode _ (s.group_ne_nil hp)] at hn ⊢
    exact h _ hn
  types := forall₂_map_map_same fun t _ => noWorse_typeNode o h t
  tally := .refl _

/-- **A library is no worse under an index in which more is documented.** -/
theorem noWorse_tree (s : Surface) : (tree ⟨d, o⟩ s).NoWorse (tree ⟨d₀, o⟩ s) where
  assembly := rfl
  namespaces := forall₂_map_map_same fun _ hp => noWorse_namespaceNode o h hp
  unresolved := rfl
  tally := .refl _

end Auditor

/-- **Writing documentation never makes a check worse.** If all that is documented in one index is
documented in another one, the tree under the other one has the same elements, no node of it has
errors or counts more of them than before, and its missing findings are among those from before,
in the same order. -/
theorem more_documentation_no_worse (o : AuditOptions) (s : Surface) {d d₀ : DocIndex}
    (h : ∀ id, d₀.Documented id → d.Documented id) :
    (Auditor.check ⟨d, o⟩ s).result.NoWorse (Auditor.check ⟨d₀, o⟩ s).result ∧
    ((Auditor.check ⟨d, o⟩ s).findings.filter (·.isMissing)).Sublist
      ((Auditor.check ⟨d₀, o⟩ s).findings.filter (·.isMissing)) := by
  have htree : (Auditor.check ⟨d, o⟩ s).result.NoWorse (Auditor.check ⟨d₀, o⟩ s).result := by
    rw [Auditor.result_check, Auditor.result_check]
    exact (Auditor.noWorse_tree o h s).aggregate
  have hmissing (a : Auditor) : (a.check s).findings.filter (·.isMissing) =
      (a.check s).result.findings.filter (·.isMissing) := by
    rw [a.findings_check, List.filter_filter]
    exact List.filter_congr fun f _ => a.options.isMissing_and_reports f
  refine ⟨htree, ?_⟩
  rw [hmissing, hmissing]
  exact htree.missing_sublist

/-- A library with a widget. Some of its members share an id, and its name comes twice. -/
def widgetLibrary : Surface where
  assembly := "Acme"
  types := [
    { ns := some "Acme", name := "Widget"
      constructors := [{ name := ".ctor" },
        { name := ".ctor", parameters := [{ type := .unresolved none }] }]
      fields := [{ name := "Size" }, { name := "Size" }] },
    { ns := some "Acme", name := "Widget" }]
  unresolved := 1

/-- The widget has a summary, and that of its size is blank. -/
def earlyIndex : DocIndex where
  fragment id :=
    if id = "T:Acme.Widget" then some ⟨some "A widget."⟩
    else if id = "F:Acme.Widget.Size" then some ⟨some " "⟩
    else none

/-- The widget has another summary, its size has one, and so has the constructor that needs none. -/
def lateIndex : DocIndex where
  fragment id :=
    if id = "T:Acme.Widget" then some ⟨some "The widget."⟩
    else if id = "F:Acme.Widget.Size" then some ⟨some "Its size."⟩
    else if id = "M:Acme.Widget.#ctor" then some ⟨some "Makes one."⟩
    else none
  mode := .strict

theorem documented_lateIndex {id : String} (h : earlyIndex.Documented id) :
    lateIndex.Documented id := by
  obtain ⟨f, text, hf, htext, c, hc, hblank⟩ := h
  by_cases hid : id = "T:Acme.Widget"
  · exact ⟨_, "The widget.", if_pos hid, rfl, 'T', by decide, by decide⟩
  · simp only [earlyIndex, if_neg hid] at hf
    split at hf
    · obtain rfl := Option.some.inj hf
      obtain rfl := Option.some.inj htext
      obtain rfl : c = ' ' := by simpa using hc
      exact absurd hblank (by decide)
    · cases hf

theorem more_documentation_no_worse_widget :
    (∀ id, earlyIndex.Documented id → lateIndex.Documented id) ∧
    (Auditor.check ⟨lateIndex, {}⟩ widgetLibrary).result.NoWorse
      (Auditor.check ⟨earlyIndex, {}⟩ widgetLibrary).result ∧
    ((Auditor.check ⟨lateIndex, {}⟩ widgetLibrary).findings.filter (·.isMissing)).Sublist
      ((Auditor.check ⟨earlyIndex, {}⟩ widgetLibrary).findings.filter (·.isMissing)) :=
  ⟨fun _ => documented_lateIndex,
    more_documentation_no_worse {} widgetLibrary fun _ => documented_lateIndex⟩

end DocAudit
