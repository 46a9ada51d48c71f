import DocAudit.Proofs.Walk
import Mathlib.Data.List.Nodup
/-!
# The order between namespaces does not matter

Types may come in any order, as long as those of each namespace keep theirs: a check then yields
the same namespaces and reports the same about each of them, only in another order.

* `SameWithinNamespaces`: two lists of types that differ in the order between namespaces only.
* **`byNamespace_perm`**: such lists have the same groups.
* `Auditor.block`: what is reported about a namespace, in one piece.
* **`interleaving_plays_no_part`**: the two checks, side by side.
-/

namespace DocAudit

/-! ## The groups -/

/-- Two lists of types with the same types of each namespace, in the same order. -/
def SameWithinNamespaces (ts us : List TypeInfo) : Prop :=
  ∀ ns, ts.filter (·.namespaceName = ns) = us.filter (·.namespaceName = ns)

theorem mem_byNamespace_iff {ts : List TypeInfo} {p : String × List TypeInfo} :
    p ∈ byNamespace ts ↔ p.2 ≠ [] ∧ p.2 = ts.filter (·.namespaceName = p.1) := by
  constructor
  · intro hp
    refine ⟨?_, group_eq_filter hp⟩
    obtain ⟨t, ht, hns⟩ := List.mem_map.mp
      (((firstSeen_byNamespace ts).mem_iff p.1).mp (List.mem_map_of_mem hp))
    rw [group_eq_filter hp]
    exact List.ne_nil_of_mem (List.mem_filter.mpr ⟨ht, decide_eq_true hns⟩)
  · rintro ⟨hne, hfilter⟩
    obtain ⟨t, ht⟩ := List.exists_mem_of_ne_nil _ hne
    rw [hfilter, List.mem_filter, decide_eq_true_eq] at ht
    have hname := ((firstSeen_byNamespace ts).mem_iff p.1).mpr (List.mem_map.mpr ⟨t, ht⟩)
    obtain ⟨q, hq, hqp⟩ := List.mem_map.mp hname
    have hgroup := group_eq_filter hq
    rw [hqp, ← hfilter] at hgroup
    rwa [← Prod.ext hqp hgroup]

theorem nodup_byNamespace (ts : List TypeInfo) : (byNamespace ts).Nodup :=
  List.Nodup.of_map Prod.fst (firstSeen_byNamespace ts).nodup

/-- **Lists with the same types of each namespace have the same groups.** -/
theorem byNamespace_perm {ts us : List TypeInfo} (h : SameWithinNamespaces ts us) :
    (byNamespace ts).Perm (byNamespace us) := by
  rw [List.perm_ext_iff_of_nodup (nodup_byNamespace ts) (nodup_byNamespace us)]
  intro p
  rw [mem_byNamespace_iff, mem_byNamespace_iff, h p.1]

/-! ## The trees -/

theorem Coverage.tally_aggregate_of_perm {c d : Coverage}
    (h : c.aggregate.namespaces.Perm d.aggregate.namespaces) :
    c.aggregate.tally = d.aggregate.tally := by
  have hflags := h.any_eq (f := (·.tally.hasErrors))
  have herrors : (c.aggregate.namespaces.map (·.tally.errors)).foldr (· + ·) 0 =
      (d.aggregate.namespaces.map (·.tally.errors)).foldr (· + ·) 0 :=
    (h.map _).foldr_eq' (fun x _ y _ z => Nat.add_left_comm y x z) 0
  exact congrArg₂ Tally.mk hflags herrors

namespace Auditor

variable (a : Auditor)

/-- What is reported about a namespace: the findings in its node that the options ask for. -/
def block (n : NamespaceNode) : List Finding := n.findings.filter a.options.reports

theorem findings_eq_flatMap_block (s : Surface) :
    (a.check s).findings = (a.check s).result.namespaces.flatMap a.block := by
  rw [findings_check, Coverage.findings, List.filter_flatMap]
  rfl

theorem namespaces_check (s : Surface) :
    (a.check s).result.namespaces =
      (byNamespace s.publicTypes).map fun p => (a.namespaceNode p).aggregate := by
  rw [result_check]
  exact List.map_map

theorem nodup_names_check (s : Surface) :
    ((a.check s).result.namespaces.map (·.name)).Nodup := by
  rw [namespaces_check, List.map_map]
  exact (firstSeen_byNamespace s.publicTypes).nodup

end Auditor

/-! ## Two checks side by side -/

/-- Two visits to a library that come to the same, except for the order of the namespaces. Each
namespace has one node, and what is reported about it is in one piece. -/
structure SameUpToOrder (block : NamespaceNode → List Finding) (v w : Visit Coverage) : Prop where
  namespaces : v.result.namespaces.Perm w.result.namespaces
  names_nodup : (v.result.namespaces.map (·.name)).Nodup
  assembly : v.result.assembly = w.result.assembly
  unresolved : v.result.unresolved = w.result.unresolved
  hasErrors : v.result.hasErrors = w.result.hasErrors
  errors : v.result.errors = w.result.errors
  findings_left : v.findings = v.result.namespaces.flatMap block
  findings_right : w.findings = w.result.namespaces.flatMap block

/-- **The order between namespaces plays no part.** Two libraries with the same name, the same
number of unresolved types and the same public types of each namespace have the same nodes and the
same counts, and the same is reported about each namespace. -/
theorem interleaving_plays_no_part (a : Auditor) {s s' : Surface}
    (hassembly : s.assembly = s'.assembly) (hunresolved : s.unresolved = s'.unresolved)
    (htypes : SameWithinNamespaces s.publicTypes s'.publicTypes) :
    SameUpToOrder a.block (a.check s) (a.check s') := by
  have hnamespaces : (a.check s).result.namespaces.Perm (a.check s').result.namespaces := by
    rw [a.namespaces_check, a.namespaces_check]
    exact (byNamespace_perm htypes).map _
  have htally : (a.check s).result.tally = (a.check s').result.tally := by
    rw [a.result_check, a.result_check] at hnamespaces ⊢
    exact Coverage.tally_aggregate_of_perm hnamespaces
  exact {
    namespaces := hnamespaces
    names_nodup := a.nodup_names_check s
    assembly := by
      rw [a.result_check, a.result_check]
      exact hassembly
    unresolved := by
      rw [a.result_check, a.result_check]
      exact hunresolved
    hasErrors := congrArg Tally.hasErrors htally
    errors := congrArg Tally.errors htally
    findings_left := a.findings_eq_flatMap_block s
    findings_right := a.findings_eq_flatMap_block s' }

/-- Two colours and a brush between them; one of the colours has a hidden namesake. -/
def paintLibrary : Surface where
  assembly := "Acme"
  types := [
    { ns := some "Acme.Paint", name := "Red", visibility := .internal },
    { ns := some "Acme.Paint", name := "Red", fields := [{ name := "Depth" }] },
    { ns := some "Acme.Tools", name := "Brush" },
    { ns := some "Acme.Paint", name := "Blue" }]
  unresolved := 2

/-- The same library with the brush first. -/
def toolsLibrary : Surface where
  assembly := "Acme"
  types := [
    { ns := some "Acme.Tools", name := "Brush" },
    { ns := some "Acme.Paint", name := "Red", fields := [{ name := "Depth" }] },
    { ns := some "Acme.Paint", name := "Blue" }]
  unresolved := 2

theorem sameWithinNamespaces_paintLibrary :
    SameWithinNamespaces paintLibrary.publicTypes toolsLibrary.publicTypes := by
  intro ns
  have hpaint : paintLibrary.publicTypes = paintLibrary.types.tail := rfl
  have htools : toolsLibrary.publicTypes = toolsLibrary.types := rfl
  rw [hpaint, htools]
  by_cases h : "Acme.Tools" = ns
  · subst h
    rfl
  · simp [paintLibrary, toolsLibrary, TypeInfo.namespaceName, List.filter_cons, h]

theorem interleaving_plays_no_part_paint :
    paintLibrary.assembly = toolsLibrary.assembly ∧
    paintLibrary.unresolved = toolsLibrary.unresolved ∧
    SameWithinNamespaces paintLibrary.publicTypes toolsLibrary.publicTypes ∧
    SameUpToOrder (Auditor.block ⟨{ fragment := fun _ => none }, {}⟩)
      (Auditor.check ⟨{ fragment := fun _ => none }, {}⟩ paintLibrary)
      (Auditor.check ⟨{ fragment := fun _ => none }, {}⟩ toolsLibrary) :=
  ⟨rfl, rfl, sameWithinNamespaces_paintLibrary,
    interleaving_plays_no_part _ rfl rfl sameWithinNamespaces_paintLibrary⟩

end DocAudit
