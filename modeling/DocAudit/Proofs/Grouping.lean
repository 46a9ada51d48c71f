import DocAudit.Audit.Grouping
import Mathlib.Data.List.Nodup
/-!
# Grouping keeps every type and its place

* `FirstSeen xs ys`: `xs` has the items of `ys`, each once, in the order of their first appearance.
* `Grouping.Holds`: the invariant of the pass over the types; `Grouping.Holds.add` is its step.
* **`firstSeen_byNamespace`**, **`group_eq_filter`**: the groups of a list of types.
* `unrepeated`: the types of which the name has not come before.
-/

namespace DocAudit

/-- `xs` has the items of `ys`, each once, in the order of their first appearance. -/
structure FirstSeen {α : Type} [BEq α] (xs ys : List α) : Prop where
  nodup : xs.Nodup
  mem_iff : ∀ x, x ∈ xs ↔ x ∈ ys
  ordered : xs.Pairwise fun x y => ys.idxOf x < ys.idxOf y

namespace FirstSeen

variable {α : Type} [BEq α] [LawfulBEq α] {xs ys : List α} {y : α}

omit [LawfulBEq α] in
theorem nil : FirstSeen ([] : List α) [] := ⟨List.nodup_nil, fun _ => Iff.rfl, List.Pairwise.nil⟩

theorem idxOf_snoc (hy : y ∈ ys) (z : α) : (ys ++ [z]).idxOf y = ys.idxOf y := by
  rw [List.idxOf_append, if_pos hy]

theorem ordered_snoc (h : FirstSeen xs ys) (z : α) :
    xs.Pairwise fun x y => (ys ++ [z]).idxOf x < (ys ++ [z]).idxOf y := by
  refine h.ordered.imp_of_mem fun {a b} ha hb hab => ?_
  rw [idxOf_snoc ((h.mem_iff a).mp ha), idxOf_snoc ((h.mem_iff b).mp hb)]
  exact hab

theorem again (h : FirstSeen xs ys) (hy : y ∈ ys) : FirstSeen xs (ys ++ [y]) where
  nodup := h.nodup
  mem_iff x := by
    rw [h.mem_iff, List.mem_append, List.mem_singleton]
    exact ⟨Or.inl, fun hx => hx.elim id fun e => e ▸ hy⟩
  ordered := h.ordered_snoc y

theorem fresh (h : FirstSeen xs ys) (hy : y ∉ ys) : FirstSeen (xs ++ [y]) (ys ++ [y]) where
  nodup := by
    rw [List.nodup_append]
    refine ⟨h.nodup, List.nodup_cons.mpr ⟨List.not_mem_nil, List.nodup_nil⟩, ?_⟩
    intro a ha b hb e
    rw [List.mem_singleton] at hb
    exact hy ((h.mem_iff y).mp (hb ▸ e ▸ ha))
  mem_iff x := by rw [List.mem_append, List.mem_append, h.mem_iff]
  ordered := by
    rw [List.pairwise_append]
    refine ⟨h.ordered_snoc y, List.pairwise_singleton _ _, ?_⟩
    intro a ha b hb
    rw [List.mem_singleton] at hb
    have ha := (h.mem_iff a).mp ha
    rw [hb, idxOf_snoc ha, List.idxOf_append, if_neg hy, List.idxOf_cons_self]
    exact Nat.lt_of_lt_of_le (List.idxOf_lt_length_of_mem ha) (Nat.le_add_left _ _)

omit [LawfulBEq α] in
/-- What comes in the order of first appearance comes in no other one. -/
theorem unique {zs : List α} (h : FirstSeen xs ys) (h' : FirstSeen zs ys) : xs = zs := by
  have hperm : xs.Perm zs := (List.perm_ext_iff_of_nodup h.nodup h'.nodup).mpr fun x =>
    (h.mem_iff x).trans (h'.mem_iff x).symm
  exact hperm.eq_of_pairwise (fun _ _ _ _ hlt hgt => absurd hlt (Nat.lt_asymm hgt)) h.ordered
    h'.ordered

end FirstSeen

/-! ## The pass over the types -/

namespace Grouping

/-- The groups hold the types `ts`, and the slot of a namespace is the position of its group. -/
structure Holds (g : Grouping) (ts : List TypeInfo) : Prop where
  names : FirstSeen (g.groups.map Prod.fst) (ts.map (·.namespaceName))
  slots : ∀ ns, g.slots.lookup ns = (g.groups.map Prod.fst).idxOf? ns
  members : ∀ p ∈ g.groups, p.2 = ts.filter (·.namespaceName = p.1)

theorem holds_empty : Holds {} [] := ⟨.nil, fun _ => rfl, fun _ h => absurd h List.not_mem_nil⟩

/-- What `add` does to the group in its slot. -/
def push (t : TypeInfo) (p : String × List TypeInfo) : String × List TypeInfo := (p.1, p.2 ++ [t])

variable {g : Grouping} {ts : List TypeInfo}

theorem add_of_lookup {t : TypeInfo} {slot : Nat} (h : g.slots.lookup t.namespaceName = some slot) :
    g.add t = { g with groups := g.groups.modify slot (push t) } := by
  rw [add, reserve, h]
  rfl

theorem modify_snoc {α : Type} (xs : List α) (x : α) (f : α → α) :
    (xs ++ [x]).modify xs.length f = xs ++ [f x] := by
  induction xs with
  | nil => rfl
  | cons y ys ih => rw [List.cons_append, List.length_cons, List.modify_succ_cons, ih]; rfl

theorem idxOf?_snoc (xs : List String) (x y : String) :
    (xs ++ [x]).idxOf? y = (xs.idxOf? y).or (if x = y then some xs.length else none) := by
  rw [List.idxOf?, List.findIdx?_append]
  by_cases h : x = y <;> simp [h]

theorem add_of_lookup_none {t : TypeInfo} (h : g.slots.lookup t.namespaceName = none) :
    g.add t = { groups := g.groups ++ [(t.namespaceName, [t])],
                slots := (t.namespaceName, g.groups.length) :: g.slots } := by
  rw [add, reserve, h]
  show Grouping.mk _ _ = _
  rw [modify_snoc]
  rfl

theorem map_fst_modify (gs : List (String × List TypeInfo)) (slot : Nat) (t : TypeInfo) :
    (gs.modify slot (push t)).map Prod.fst = gs.map Prod.fst := by
  refine List.ext_getElem? fun i => ?_
  rw [List.getElem?_map, List.getElem?_map, List.getElem?_modify]
  cases gs[i]? with
  | none => rfl
  | some p => by_cases h : slot = i <;> simp [h, push]

theorem filter_snoc (ts : List TypeInfo) (t : TypeInfo) (ns : String) :
    (ts ++ [t]).filter (·.namespaceName = ns) =
      ts.filter (·.namespaceName = ns) ++ if t.namespaceName = ns then [t] else [] := by
  rw [List.filter_append]
  by_cases h : t.namespaceName = ns <;> simp [h]

namespace Holds

variable (h : g.Holds ts) (t : TypeInfo)

include h

theorem add_known {slot : Nat} (hs : g.slots.lookup t.namespaceName = some slot) :
    (g.add t).Holds (ts ++ [t]) := by
  rw [add_of_lookup hs]
  rw [h.slots] at hs
  obtain ⟨hlt, hslot, -⟩ := List.idxOf?_eq_some_iff.mp hs
  have hname : (g.groups.map Prod.fst)[slot]? = some t.namespaceName := by
    rw [List.getElem?_eq_getElem hlt, hslot]
  refine ⟨?_, ?_, ?_⟩
  · rw [map_fst_modify, List.map_append]
    exact h.names.again ((h.names.mem_iff _).mp (List.mem_of_getElem? hname))
  · intro ns
    rw [map_fst_modify]
    exact h.slots ns
  · intro p hp
    obtain ⟨i, hi⟩ := List.mem_iff_getElem?.mp hp
    rw [List.getElem?_modify, Option.map_eq_map, Option.map_eq_some_iff] at hi
    obtain ⟨q, hq, rfl⟩ := hi
    have hmem := h.members q (List.mem_of_getElem? hq)
    have hqname : (g.groups.map Prod.fst)[i]? = some q.1 := by rw [List.getElem?_map, hq]; rfl
    by_cases hi : slot = i
    · -- the group in the slot is the one of the namespace
      subst hi
      have : t.namespaceName = q.1 := Option.some.inj (hname.symm.trans hqname)
      rw [if_pos rfl, push, filter_snoc, if_pos this, hmem]
    · -- two groups have different namespaces
      have : t.namespaceName ≠ q.1 := by
        intro e
        rw [← e, ← hname] at hqname
        exact hi ((List.getElem?_inj hlt h.names.nodup).mp hqname.symm)
      rw [if_neg hi, filter_snoc, if_neg this, List.append_nil]
      exact hmem

theorem add_new (hs : g.slots.lookup t.namespaceName = none) : (g.add t).Holds (ts ++ [t]) := by
  rw [add_of_lookup_none hs]
  have hnone := (h.slots _).symm.trans hs
  have hfst := List.idxOf?_eq_none_iff.mp hnone
  have hnew : t.namespaceName ∉ ts.map (·.namespaceName) := fun hm =>
    hfst ((h.names.mem_iff _).mpr hm)
  refine ⟨?_, ?_, ?_⟩
  · rw [List.map_append, List.map_append]
    exact h.names.fresh hnew
  · intro ns
    show List.lookup ns ((t.namespaceName, g.groups.length) :: g.slots) = _
    rw [List.lookup_cons, List.map_append, List.map_singleton, idxOf?_snoc, List.length_map,
      h.slots]
    by_cases e : ns = t.namespaceName
    · subst e
      rw [hnone, beq_self_eq_true, if_pos rfl]
      rfl
    · rw [beq_false_of_ne e, if_neg (Ne.symm e), Option.or_none]
  · intro p hp
    rw [List.mem_append, List.mem_singleton] at hp
    rcases hp with hp | rfl
    · have : t.namespaceName ≠ p.1 := fun e => hfst (e ▸ List.mem_map_of_mem hp)
      rw [filter_snoc, if_neg this, List.append_nil]
      exact h.members p hp
    · have : ts.filter (·.namespaceName = t.namespaceName) = [] := by
        rw [List.filter_eq_nil_iff]
        intro u hu e
        exact hnew (List.mem_map.mpr ⟨u, hu, of_decide_eq_true e⟩)
      rw [filter_snoc, this, if_pos rfl]
      rfl

/-- **One more type keeps the invariant.** -/
theorem add : (g.add t).Holds (ts ++ [t]) := by
  cases hs : g.slots.lookup t.namespaceName with
  | some slot => exact h.add_known t hs
  | none => exact h.add_new t hs

end Holds

theorem holds_foldl (ts : List TypeInfo) : ∀ {g : Grouping} {before : List TypeInfo},
    g.Holds before → (ts.foldl Grouping.add g).Holds (before ++ ts) := by
  induction ts with
  | nil =>
    intro g before h
    rw [List.append_nil]
    exact h
  | cons t ts ih =>
    intro g before h
    have := ih (h.add t)
    rwa [List.append_assoc] at this

end Grouping

theorem holds_byNamespace (ts : List TypeInfo) : (ts.foldl Grouping.add {}).Holds ts :=
  Grouping.holds_foldl ts Grouping.holds_empty

/-- **Every namespace has one group, in the order of first appearance.** -/
theorem firstSeen_byNamespace (ts : List TypeInfo) :
    FirstSeen ((byNamespace ts).map Prod.fst) (ts.map (·.namespaceName)) :=
  (holds_byNamespace ts).names

/-- **A group holds the types of its namespace, in order.** -/
theorem group_eq_filter {ts : List TypeInfo} {p : String × List TypeInfo}
    (hp : p ∈ byNamespace ts) : p.2 = ts.filter (·.namespaceName = p.1) :=
  (holds_byNamespace ts).members p hp

theorem byNamespace_eq_map (ts : List TypeInfo) :
    byNamespace ts = ((byNamespace ts).map Prod.fst).map fun ns =>
      (ns, ts.filter (·.namespaceName = ns)) := by
  rw [List.map_map]
  exact (List.map_id _).symm.trans
    (List.map_congr_left fun p hp => Prod.ext rfl (group_eq_filter hp))

/-! ## Types without repeated names -/

/-- The types of which the name is neither in `seen` nor that of an earlier type. -/
def unrepeated (seen : List String) : List TypeInfo → List TypeInfo
  | [] => []
  | t :: ts =>
    if t.displayName ∈ seen then unrepeated seen ts
    else t :: unrepeated (t.displayName :: seen) ts

theorem firstSeen_append_unrepeated (ts : List TypeInfo) : ∀ {seen xs ys : List String},
    FirstSeen xs ys → (∀ x, x ∈ seen ↔ x ∈ xs) →
      FirstSeen (xs ++ (unrepeated seen ts).map (·.displayName))
        (ys ++ ts.map (·.displayName)) := by
  induction ts with
  | nil =>
    intro seen xs ys h _
    rw [unrepeated, List.map_nil, List.append_nil, List.append_nil]
    exact h
  | cons t ts ih =>
    intro seen xs ys h hseen
    rw [unrepeated, List.map_cons, List.append_cons ys]
    by_cases ht : t.displayName ∈ seen
    · rw [if_pos ht]
      exact ih (h.again ((h.mem_iff _).mp ((hseen _).mp ht))) hseen
    · rw [if_neg ht, List.map_cons, List.append_cons xs]
      refine ih (h.fresh fun hy => ht ((hseen _).mpr ((h.mem_iff _).mpr hy))) fun x => ?_
      rw [List.mem_cons, List.mem_append, List.mem_singleton, hseen, or_comm]

/-- **Each name is kept once, in the order of first appearance.** -/
theorem firstSeen_unrepeated (ts : List TypeInfo) :
    FirstSeen ((unrepeated [] ts).map (·.displayName)) (ts.map (·.displayName)) := by
  have := firstSeen_append_unrepeated ts FirstSeen.nil fun x => (Iff.rfl : x ∈ [] ↔ x ∈ [])
  rwa [List.nil_append, List.nil_append] at this

/-- **The first type with a name is the one that is kept.** -/
theorem find?_of_mem_unrepeated {t : TypeInfo} (ts : List TypeInfo) : ∀ {seen : List String},
    t ∈ unrepeated seen ts →
      t.displayName ∉ seen ∧ ts.find? (·.displayName = t.displayName) = some t := by
  induction ts with
  | nil => exact fun h => absurd h List.not_mem_nil
  | cons u ts ih =>
    intro seen h
    rw [unrepeated] at h
    by_cases hu : u.displayName ∈ seen
    · rw [if_pos hu] at h
      obtain ⟨hseen, hfind⟩ := ih h
      have hne : u.displayName ≠ t.displayName := fun e => hseen (e ▸ hu)
      exact ⟨hseen, by rw [List.find?_cons_of_neg (by simpa using hne), hfind]⟩
    · rw [if_neg hu, List.mem_cons] at h
      rcases h with rfl | h
      · exact ⟨hu, List.find?_cons_of_pos (by simp)⟩
      · obtain ⟨hseen, hfind⟩ := ih h
        rw [List.mem_cons, not_or] at hseen
        have hne : u.displayName ≠ t.displayName := Ne.symm hseen.1
        exact ⟨hseen.2, by rw [List.find?_cons_of_neg (by simpa using hne), hfind]⟩

end DocAudit
