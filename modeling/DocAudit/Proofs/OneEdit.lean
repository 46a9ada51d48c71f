import DocAudit.Proofs.Tallies
import Mathlib.Algebra.GroupWithZero.Nat
/-!
# One summary changes

A child with errors counts once, however many it has. So when the summary of one node becomes
another one, the count of a node above it moves by at most one, whatever its other children are, and
so does the sum at the top of the tree.

* `Coverage.Place`: where a node stands in a tree; `Coverage.Place.LeadsTo`: it is above another one
  or the same.
* `Coverage.withSummary`: the tree with another summary at a place.
* `Summary.Moves`: what may become of a count when one summary becomes another.
* **`TypeNode.moved_aggregate`**, **`NamespaceNode.moved_aggregate`**: what becomes of the tally of
  a type and of a namespace.
* **`one_edit_moves_its_path`**: what becomes of all tallies.
-/

namespace DocAudit

/-! ## Places -/

/-- The four lists of members of a type. -/
inductive MemberList where
  | constructors
  | methods
  | fields
  | properties
deriving DecidableEq, Repr

/-- What a node of a tree tells. -/
structure NodeState where
  summary : Summary
  tally : Tally
deriving DecidableEq, Repr

namespace TypeNode

/-- The type itself, or the member at a position in one of its lists. -/
inductive Place where
  | itself
  | member (l : MemberList) (position : Nat)
deriving DecidableEq, Repr

/-- A place is above another one, or the same. -/
def Place.LeadsTo : Place → Place → Prop
  | itself, _ => True
  | member l i, p => p = member l i

def list (t : TypeNode) : MemberList → List MemberNode
  | .constructors => t.constructors
  | .methods => t.methods
  | .fields => t.fields
  | .properties => t.properties

/-- The type with one of its lists changed. -/
def modifyList (t : TypeNode) (f : List MemberNode → List MemberNode) : MemberList → TypeNode
  | .constructors => { t with constructors := f t.constructors }
  | .methods => { t with methods := f t.methods }
  | .fields => { t with fields := f t.fields }
  | .properties => { t with properties := f t.properties }

/-- What the node at a place tells. -/
def at? (t : TypeNode) : Place → Option NodeState
  | .itself => some ⟨t.summary, t.tally⟩
  | .member l i => (t.list l)[i]?.map fun m => ⟨m.summary, m.tally⟩

/-- The type with another summary at a place. -/
def withSummary (s : Summary) (t : TypeNode) : Place → TypeNode
  | .itself => { t with summary := s }
  | .member l i => t.modifyList (fun ms => ms.modify i fun m => { m with summary := s }) l

end TypeNode

namespace NamespaceNode

/-- The namespace itself, or a place in the type at a position. -/
inductive Place where
  | itself
  | type (position : Nat) (place : TypeNode.Place)
deriving DecidableEq, Repr

/-- A place is above another one, or the same. -/
def Place.LeadsTo : Place → Place → Prop
  | itself, _ => True
  | type _ _, itself => False
  | type i q, type j p => i = j ∧ q.LeadsTo p

/-- What the node at a place tells. -/
def at? (n : NamespaceNode) : Place → Option NodeState
  | .itself => some ⟨n.summary, n.tally⟩
  | .type i p => n.types[i]?.bind fun t => t.at? p

/-- The namespace with another summary at a place. -/
def withSummary (s : Summary) (n : NamespaceNode) : Place → NamespaceNode
  | .itself => { n with summary := s }
  | .type i p => { n with types := n.types.modify i fun t => t.withSummary s p }

end NamespaceNode

namespace Coverage

/-- A place in the namespace at a position. -/
structure Place where
  position : Nat
  place : NamespaceNode.Place
deriving DecidableEq, Repr

/-- A place is above another one, or the same. -/
def Place.LeadsTo (q p : Place) : Prop := q.position = p.position ∧ q.place.LeadsTo p.place

/-- What the node at a place tells. -/
def at? (c : Coverage) (p : Place) : Option NodeState :=
  c.namespaces[p.position]?.bind fun n => n.at? p.place

/-- The tree with another summary at a place. -/
def withSummary (s : Summary) (c : Coverage) (p : Place) : Coverage :=
  { c with namespaces := c.namespaces.modify p.position fun n => n.withSummary s p.place }

end Coverage

/-! ## Counts that move by one -/

/-- What may become of a count when one summary becomes `s`: it moves by at most one, and not up
if `s` is fine. -/
structure Summary.Moves (s : Summary) (n n' : Nat) : Prop where
  up : n' ≤ n + 1
  down : n ≤ n' + 1
  notUp : s.isSatisfied = true → n' ≤ n

namespace Summary.Moves

variable {s : Summary} {n n' : Nat}

theorem refl (s : Summary) (n : Nat) : s.Moves n n :=
  ⟨Nat.le_succ n, Nat.le_succ n, fun _ => Nat.le_refl n⟩

theorem add_left (h : s.Moves n n') (k : Nat) : s.Moves (k + n) (k + n') where
  up := Nat.add_le_add_left h.up k
  down := Nat.add_le_add_left h.down k
  notUp hs := Nat.add_le_add_left (h.notUp hs) k

theorem add_right (h : s.Moves n n') (k : Nat) : s.Moves (n + k) (n' + k) := by
  rw [Nat.add_comm n, Nat.add_comm n']
  exact h.add_left k

theorem of_le_one (hn : n ≤ 1) (hn' : n' ≤ 1) (h : s.isSatisfied = true → n' ≤ n) :
    s.Moves n n' :=
  ⟨Nat.le_add_left_of_le hn', Nat.le_add_left_of_le hn, h⟩

theorem ownErrors (s s₀ : Summary) : s.Moves s₀.ownErrors s.ownErrors := by
  have hone (u : Summary) : u.ownErrors ≤ 1 := by
    rw [Summary.ownErrors]
    split <;> decide
  refine .of_le_one (hone s₀) (hone s) fun hs => ?_
  rw [s.ownErrors_eq, if_pos hs]
  exact Nat.zero_le _

section Lists

variable {α : Type} {f : α → α}

theorem modify_cases (f : α → α) (i : Nat) (xs : List α) : xs.modify i f = xs ∨
    ∃ before x after, xs = before ++ x :: after ∧ xs.modify i f = before ++ f x :: after := by
  by_cases h : i < xs.length
  · obtain ⟨before, x, after, hxs, -, hmodify⟩ := List.exists_of_modify f h
    exact .inr ⟨before, x, after, hxs, hmodify⟩
  · exact .inl (List.modify_eq_self (Nat.le_of_not_lt h))

theorem sum {g : α → Nat} (hg : ∀ x, s.Moves (g x) (g (f x))) (i : Nat) (xs : List α) :
    s.Moves (xs.map g).sum ((xs.modify i f).map g).sum := by
  rcases modify_cases f i xs with h | ⟨before, x, after, rfl, h⟩
  · rw [h]
    exact .refl s _
  · rw [h, List.map_append, List.map_append, List.sum_append, List.sum_append, List.map_cons,
      List.map_cons, List.sum_cons, List.sum_cons]
    exact ((hg x).add_right _).add_left _

theorem countP {p : α → Bool} (hp : ∀ x, s.isSatisfied = true → p (f x) = true → p x = true)
    (i : Nat) (xs : List α) : s.Moves (xs.countP p) ((xs.modify i f).countP p) := by
  rcases modify_cases f i xs with h | ⟨before, x, after, rfl, h⟩
  · rw [h]
    exact .refl s _
  · have hone : s.Moves (if p x then 1 else 0) (if p (f x) then 1 else 0) := by
      refine .of_le_one (by split <;> decide) (by split <;> decide) fun hs => ?_
      by_cases hx : p (f x) = true
      · exact Nat.le_of_eq (by rw [if_pos hx, if_pos (hp x hs hx)])
      · rw [if_neg hx]
        exact Nat.zero_le _
    rw [h, List.countP_append, List.countP_append, List.countP_cons, List.countP_cons]
    exact (hone.add_left _).add_left _

end Lists

end Summary.Moves

/-- What may become of a tally when one summary becomes `s`. -/
structure Tally.Moved (s : Summary) (t t' : Tally) : Prop where
  errors : s.Moves t.errors t'.errors
  hasErrors : s.isSatisfied = true → t'.hasErrors = true → t.hasErrors = true

/-- What may become of a node when one summary becomes `s`: its own one if it is the edited node,
and its tally. -/
structure NodeState.Moved (s : Summary) (edited : Prop) (x x' : NodeState) : Prop where
  summary : edited → x'.summary = s
  others : ¬ edited → x'.summary = x.summary
  tally : x.tally.Moved s x'.tally

theorem Tally.moved_of_pos_iff {s : Summary} {t t' : Tally}
    (ht : t.hasErrors = true ↔ 0 < t.errors) (ht' : t'.hasErrors = true ↔ 0 < t'.errors)
    (h : s.Moves t.errors t'.errors) : t.Moved s t' where
  errors := h
  hasErrors hs hhas := ht.mpr (Nat.lt_of_lt_of_le (ht'.mp hhas) (h.notUp hs))

/-! ## Members and types -/

/-- **A member moves its tally with its summary.** -/
theorem MemberNode.moved_aggregate (m : MemberNode) (s : Summary) :
    m.aggregate.tally.Moved s { m with summary := s }.aggregate.tally := by
  have h := m.tallied_aggregate
  have h' := { m with summary := s }.tallied_aggregate
  refine Tally.moved_of_pos_iff h.pos_iff h'.pos_iff ?_
  rw [h.errors, h'.errors]
  exact .ownErrors s m.summary

namespace TypeNode

variable (t : TypeNode) (s : Summary)

theorem list_aggregate (l : MemberList) :
    t.aggregate.list l = (t.list l).map MemberNode.aggregate := by
  cases l <;> rfl

theorem list_modifyList (f : List MemberNode → List MemberNode) (l l' : MemberList) :
    (t.modifyList f l).list l' = if l' = l then f (t.list l') else t.list l' := by
  cases l <;> cases l' <;> rfl

theorem summary_modifyList (f : List MemberNode → List MemberNode) (l : MemberList) :
    (t.modifyList f l).summary = t.summary := by
  cases l <;> rfl

theorem moves_members {s : Summary} {p : MemberNode → Bool} {f : List MemberNode → List MemberNode}
    (h : ∀ ms, s.Moves (ms.countP p) ((f ms).countP p)) (l : MemberList) :
    s.Moves (t.members.countP p) ((t.modifyList f l).members.countP p) := by
  have hcount (u : TypeNode) : u.members.countP p = u.constructors.countP p +
      u.methods.countP p + u.fields.countP p + u.properties.countP p := by
    simp only [members, List.countP_append]
  rw [hcount, hcount]
  cases l with
  | constructors => exact (((h t.constructors).add_right _).add_right _).add_right _
  | methods => exact (((h t.methods).add_left _).add_right _).add_right _
  | fields => exact ((h t.fields).add_left _).add_right _
  | properties => exact (h t.properties).add_left _

theorem countP_members_aggregate : t.aggregate.members.countP (·.tally.hasErrors) =
    t.members.countP (·.aggregate.tally.hasErrors) := by
  rw [members_aggregate, List.countP_map]
  rfl

/-- **A type moves its tally by at most one.** -/
theorem moved_aggregate (p : Place) :
    t.aggregate.tally.Moved s (t.withSummary s p).aggregate.tally := by
  have h := t.tallied_aggregate
  have h' := (t.withSummary s p).tallied_aggregate
  refine Tally.moved_of_pos_iff h.pos_iff h'.pos_iff ?_
  rw [h.errors, h'.errors, countP_members_aggregate, countP_members_aggregate]
  cases p with
  | itself => exact (Summary.Moves.ownErrors s t.summary).add_right _
  | member l i =>
    have hsummary : (t.withSummary s (.member l i)).aggregate.summary = t.aggregate.summary :=
      t.summary_modifyList _ l
    rw [hsummary]
    exact (t.moves_members (.countP (fun m => (m.moved_aggregate s).hasErrors) i) l).add_left _

theorem at?_aggregate_member (l : MemberList) (i : Nat) : t.aggregate.at? (.member l i) =
    (t.list l)[i]?.map fun m => ⟨m.summary, m.aggregate.tally⟩ := by
  rw [at?, list_aggregate, List.getElem?_map, Option.map_map]
  rfl

theorem at?_withSummary_of_not {p q : Place} (h : ¬ q.LeadsTo p) :
    (t.withSummary s p).aggregate.at? q = t.aggregate.at? q := by
  cases q with
  | itself => exact absurd trivial h
  | member l i =>
    rw [at?_aggregate_member, at?_aggregate_member]
    cases p with
    | itself => cases l <;> rfl
    | member l' j =>
      rw [withSummary, list_modifyList]
      split
      · next hl =>
        have hij : j ≠ i := fun hj => h (by rw [hl, hj]; rfl)
        rw [List.getElem?_modify_ne _ _ hij]
      · rfl

theorem at?_withSummary_of_leadsTo {p q : Place} (h : q.LeadsTo p) :
    Option.Rel (NodeState.Moved s (q = p)) (t.aggregate.at? q)
      ((t.withSummary s p).aggregate.at? q) := by
  cases q with
  | itself =>
    refine .some ⟨?_, fun hp => ?_, t.moved_aggregate s p⟩
    · rintro rfl
      rfl
    · cases p with
      | itself => exact absurd rfl hp
      | member l i => exact t.summary_modifyList _ l
  | member l i =>
    obtain rfl : p = .member l i := h
    rw [at?_aggregate_member, at?_aggregate_member, withSummary, list_modifyList, if_pos rfl,
      List.getElem?_modify_eq]
    cases (t.list l)[i]? with
    | none => exact .none
    | some m => exact .some ⟨fun _ => rfl, fun hp => absurd rfl hp, m.moved_aggregate s⟩

end TypeNode

/-! ## Namespaces and trees -/

namespace NamespaceNode

variable (n : NamespaceNode) (s : Summary)

theorem countP_types_aggregate : n.aggregate.types.countP (·.tally.hasErrors) =
    n.types.countP (·.aggregate.tally.hasErrors) := by
  show (n.types.map TypeNode.aggregate).countP _ = _
  rw [List.countP_map]
  rfl

/-- **A namespace moves its tally by at most one**: the type with the edit counts once. -/
theorem moved_aggregate (p : Place) :
    n.aggregate.tally.Moved s (n.withSummary s p).aggregate.tally := by
  have h := n.tallied_aggregate
  have h' := (n.withSummary s p).tallied_aggregate
  refine Tally.moved_of_pos_iff h.pos_iff h'.pos_iff ?_
  rw [h.errors, h'.errors, countP_types_aggregate, countP_types_aggregate]
  cases p with
  | itself => exact (Summary.Moves.ownErrors s n.summary).add_right _
  | type i p =>
    have htypes : s.Moves (n.types.countP (·.aggregate.tally.hasErrors))
        ((n.types.modify i (·.withSummary s p)).countP (·.aggregate.tally.hasErrors)) :=
      .countP (fun t => (t.moved_aggregate s p).hasErrors) i n.types
    exact htypes.add_left _

theorem at?_aggregate_type (i : Nat) (p : TypeNode.Place) : n.aggregate.at? (.type i p) =
    n.types[i]?.bind fun t => t.aggregate.at? p := by
  show (n.types.map TypeNode.aggregate)[i]?.bind _ = _
  rw [List.getElem?_map, Option.bind_map]
  rfl

theorem at?_withSummary_of_not {p q : Place} (h : ¬ q.LeadsTo p) :
    (n.withSummary s p).aggregate.at? q = n.aggregate.at? q := by
  cases q with
  | itself => exact absurd trivial h
  | type i q =>
    rw [at?_aggregate_type, at?_aggregate_type]
    cases p with
    | itself => rfl
    | type j p =>
      show ((n.types.modify j _)[i]?.bind _) = _
      by_cases hij : j = i
      · subst hij
        have hq : ¬ q.LeadsTo p := fun hq => h ⟨rfl, hq⟩
        rw [List.getElem?_modify_eq]
        cases n.types[j]? with
        | none => rfl
        | some t => exact t.at?_withSummary_of_not s hq
      · rw [List.getElem?_modify_ne _ _ hij]

theorem at?_withSummary_of_leadsTo {p q : Place} (h : q.LeadsTo p) :
    Option.Rel (NodeState.Moved s (q = p)) (n.aggregate.at? q)
      ((n.withSummary s p).aggregate.at? q) := by
  cases q with
  | itself =>
    refine .some ⟨?_, fun hp => ?_, n.moved_aggregate s p⟩
    · rintro rfl
      rfl
    · cases p with
      | itself => exact absurd rfl hp
      | type i p => rfl
  | type i q =>
    cases p with
    | itself => exact h.elim
    | type j p =>
      obtain ⟨rfl, hq⟩ := h
      rw [at?_aggregate_type, at?_aggregate_type]
      show Option.Rel _ _ ((n.types.modify i _)[i]?.bind _)
      rw [List.getElem?_modify_eq, Place.type.injEq, eq_self, true_and]
      cases n.types[i]? with
      | none => exact .none
      | some t => exact t.at?_withSummary_of_leadsTo s hq

end NamespaceNode

namespace Coverage

variable (c : Coverage) (s : Summary) (p : Place)

theorem at?_aggregate (q : Place) : c.aggregate.at? q =
    c.namespaces[q.position]?.bind fun n => n.aggregate.at? q.place := by
  show (c.namespaces.map NamespaceNode.aggregate)[q.position]?.bind _ = _
  rw [List.getElem?_map, Option.bind_map]
  rfl

/-- **The tree as a whole moves its tally by at most one**: one number in the sum moves. -/
theorem moved_aggregate : c.aggregate.tally.Moved s (c.withSummary s p).aggregate.tally := by
  have h := c.tallied_aggregate
  have h' := (c.withSummary s p).tallied_aggregate
  refine Tally.moved_of_pos_iff h.pos_iff h'.pos_iff ?_
  show s.Moves c.aggregate.errors (c.withSummary s p).aggregate.errors
  rw [h.errors, h'.errors, ← List.sum_eq_foldr, ← List.sum_eq_foldr]
  show s.Moves ((c.namespaces.map NamespaceNode.aggregate).map _).sum
    (((c.namespaces.modify p.position _).map NamespaceNode.aggregate).map _).sum
  rw [List.map_map, List.map_map]
  exact .sum (fun n => (n.moved_aggregate s p.place).errors) p.position c.namespaces

theorem namespaces_withSummary (i : Nat) : (c.withSummary s p).namespaces[i]? =
    if i = p.position then c.namespaces[i]?.map fun n => n.withSummary s p.place
    else c.namespaces[i]? := by
  show (c.namespaces.modify p.position _)[i]? = _
  split
  · next hi =>
    rw [hi, List.getElem?_modify_eq]
    rfl
  · next hi => rw [List.getElem?_modify_ne _ _ (Ne.symm hi)]

theorem at?_withSummary_of_not {p q : Place} (h : ¬ q.LeadsTo p) :
    (c.withSummary s p).aggregate.at? q = c.aggregate.at? q := by
  rw [at?_aggregate, at?_aggregate, namespaces_withSummary]
  split
  · next hposition =>
    have hplace : ¬ q.place.LeadsTo p.place := fun hplace => h ⟨hposition, hplace⟩
    cases c.namespaces[q.position]? with
    | none => rfl
    | some n => exact n.at?_withSummary_of_not s hplace
  · rfl

theorem at?_withSummary_of_leadsTo {p q : Place} (h : q.LeadsTo p) :
    Option.Rel (NodeState.Moved s (q = p)) (c.aggregate.at? q)
      ((c.withSummary s p).aggregate.at? q) := by
  obtain ⟨i, q⟩ := q
  obtain ⟨j, p⟩ := p
  obtain ⟨hposition, hplace⟩ := h
  obtain rfl : i = j := hposition
  rw [at?_aggregate, at?_aggregate, namespaces_withSummary, if_pos rfl, Place.mk.injEq, eq_self,
    true_and]
  dsimp only
  cases c.namespaces[i]? with
  | none => exact .none
  | some n => exact n.at?_withSummary_of_leadsTo s hplace

end Coverage

/-- **One edit moves the tallies on its path by at most one.** Let the summary of a node become
another one. All nodes that are neither this node nor above it are as before. The node, which has
its new summary, those above it and the tree as a whole have at most one error more or less. If the
new summary is fine, none of them has more errors than before, or has errors that had none. -/
theorem one_edit_moves_its_path (c : Coverage) (p : Coverage.Place) (s : Summary) :
    let before := c.aggregate
    let after := (c.withSummary s p).aggregate
    (∀ q, ¬ q.LeadsTo p → after.at? q = before.at? q) ∧
    (∀ q, q.LeadsTo p →
      Option.Rel (NodeState.Moved s (q = p)) (before.at? q) (after.at? q)) ∧
    before.tally.Moved s after.tally :=
  ⟨fun _ => c.at?_withSummary_of_not s, fun _ => c.at?_withSummary_of_leadsTo s,
    c.moved_aggregate s p⟩

end DocAudit
