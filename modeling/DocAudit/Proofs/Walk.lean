import DocAudit.Audit.Check
import DocAudit.Proofs.Flattening
import DocAudit.Proofs.Grouping
/-!
# The tree behind a visit

A check builds its tree and reports its findings on one walk. Here the tree is written down
without the walk, level by level, and the findings are read off it.

* `DocIndex.written`: the summary under an id.
* `Auditor.memberNode`, `Auditor.typeNode`, `Auditor.namespaceNode`, `Auditor.tree`: the nodes.
* **`Auditor.result_check`**: a check yields this tree, with all errors counted.
* **`Auditor.findings_check`**: it reports the findings in this tree that the options ask for.
-/

namespace DocAudit

/-- The summary under an id; to a strict index, too, an absent id is just a missing summary. -/
def DocIndex.written (index : DocIndex) (id : String) : Summary :=
  match index.fragment id with
  | some f => .ofText f.text
  | none => .missing

/-- The types that users of the library can reach. -/
def Surface.publicTypes (s : Surface) : List TypeInfo := s.types.filter (·.visibility.isPublic)

/-- Whether a finding is reported. -/
def AuditOptions.reports (o : AuditOptions) (f : Finding) : Bool := !o.onlyMissing || f.isMissing

theorem AuditOptions.filter_reports (o : AuditOptions) (fs : List Finding) :
    fs.filter o.reports = if o.onlyMissing then fs.filter (·.isMissing) else fs := by
  rw [show o.reports = fun f => !o.onlyMissing || f.isMissing from rfl]
  cases o.onlyMissing with
  | true => simp only [Bool.not_true, Bool.false_or, if_true]
  | false => simp

namespace Auditor

variable (a : Auditor)

/-! ## The nodes -/

/-- The summary of a member; a member without id has none. -/
def found (m : AuditedMember) : Summary :=
  match m.id with
  | .ok id => a.index.written id
  | .error _ => .missing

def memberNode (m : AuditedMember) : MemberNode where
  kind := m.kind
  name := m.name
  summary := if m.mayBeEmpty then (a.found m).orExempt else a.found m

def typeNode (t : TypeInfo) : TypeNode :=
  let node : TypeNode := { name := t.displayName, summary := a.index.written t.id }
  if a.skipsMembers t then node
  else
    { node with
      constructors := t.auditedConstructors.map a.memberNode
      methods := t.auditedMethods.map a.memberNode
      fields := t.auditedFields.map a.memberNode
      properties := t.auditedProperties.map a.memberNode }

/-- The node of a group of types: of the types with one name only the first counts. -/
def namespaceNode (p : String × List TypeInfo) : NamespaceNode where
  name := p.1
  summary := if p.2.isEmpty then .missing else a.index.written (namespaceId p.1)
  types := (unrepeated [] p.2).map a.typeNode

/-- The tree of a library, with no errors counted. -/
def tree (s : Surface) : Coverage where
  assembly := s.assembly
  namespaces := (byNamespace s.publicTypes).map a.namespaceNode
  unresolved := s.unresolved

/-! ## Summaries and reports -/

theorem result_summary (element id : String) :
    (a.summary element id).result = a.index.written id := by
  unfold summary DocIndex.lookup DocIndex.written
  cases a.index.fragment id with
  | some f => rfl
  | none => cases a.index.mode <;> rfl

theorem findings_summary (element id : String) : (a.summary element id).findings = [] := by
  unfold summary
  split <;> rfl

theorem result_memberSummary (m : AuditedMember) : (a.memberSummary m).result = a.found m := by
  unfold memberSummary found
  cases m.id with
  | ok id => exact a.result_summary id id
  | error e => rfl

theorem findings_memberSummary (m : AuditedMember) : (a.memberSummary m).findings = [] := by
  unfold memberSummary
  cases m.id with
  | ok id => exact a.findings_summary id id
  | error e => rfl

theorem findings_report (kind : ElementKind) (name : String) (s : Summary) :
    (a.report kind name s).findings =
      [Finding.mk kind name s.reported].filter a.options.reports := by
  rw [AuditOptions.filter_reports]
  unfold report
  cases s <;> cases a.options.onlyMissing <;> rfl

/-! ## Members and types -/

theorem result_member (owner : String) (m : AuditedMember) :
    (a.member owner m).result = a.memberNode m := by
  simp only [member, Visit.result_bind, Visit.result_pure, result_memberSummary, memberNode]

theorem findings_member (owner : String) (m : AuditedMember) :
    (a.member owner m).findings =
      [(a.memberNode m).finding owner].filter a.options.reports := by
  simp only [member, Visit.findings_bind, Visit.findings_pure, findings_memberSummary,
    result_memberSummary, findings_report, List.nil_append, List.append_nil]
  rfl

theorem findings_members (owner : String) (ms : List AuditedMember) :
    (Visit.forEach (a.member owner) ms).findings =
      ((ms.map a.memberNode).map (·.finding owner)).filter a.options.reports := by
  rw [Visit.findings_forEach]
  induction ms with
  | nil => rfl
  | cons m ms ih =>
    rw [List.flatMap_cons, ih, findings_member, ← List.filter_append]
    rfl

theorem result_type (t : TypeInfo) : (a.type t).result = a.typeNode t := by
  simp only [type, typeNode, Visit.result_bind, result_summary]
  by_cases h : a.skipsMembers t = true
  · rw [if_pos h, if_pos h]
    rfl
  · rw [if_neg h, if_neg h]
    simp only [Visit.result_bind, Visit.result_pure, Visit.result_forEach, result_member]

theorem findings_type (t : TypeInfo) :
    (a.type t).findings =
      ((a.typeNode t).findings t.namespaceName).filter a.options.reports := by
  simp only [type, Visit.findings_bind, findings_summary, findings_report, result_summary,
    List.nil_append]
  by_cases h : a.skipsMembers t = true
  · rw [typeNode, if_pos h, if_pos h]
    exact List.append_nil _
  · rw [typeNode, if_neg h, if_neg h]
    simp only [Visit.findings_bind, Visit.findings_pure, findings_members, List.append_nil]
    rw [← List.filter_append, ← List.filter_append, ← List.filter_append, ← List.filter_append,
      TypeNode.findings, TypeNode.members, List.map_append, List.map_append, List.map_append]
    simp only [List.append_assoc]
    rfl

/-! ## Namespaces and the whole library -/

theorem result_types (ns : String) (count : Nat) (ts : List TypeInfo) :
    ∀ (position : Nat) (seen : List String),
      (a.types ns count position seen ts).result = (unrepeated seen ts).map a.typeNode := by
  induction ts with
  | nil => exact fun _ _ => rfl
  | cons t ts ih =>
    intro position seen
    rw [types, unrepeated]
    by_cases h : t.displayName ∈ seen
    · rw [if_pos h, if_pos h, Visit.result_bind, ih]
    · rw [if_neg h, if_neg h, List.map_cons]
      simp only [Visit.result_bind, Visit.result_pure, result_type, ih]

/-- All types of a group belong to its namespace, so the name that a finding gets from its type is
the name that the tree gives it. -/
theorem findings_types (ns : String) (count : Nat) (ts : List TypeInfo) :
    ∀ (position : Nat) (seen : List String), (∀ t ∈ ts, t.namespaceName = ns) →
      (a.types ns count position seen ts).findings =
        (((unrepeated seen ts).map a.typeNode).flatMap (·.findings ns)).filter
          a.options.reports := by
  induction ts with
  | nil => exact fun _ _ _ => rfl
  | cons t ts ih =>
    intro position seen hns
    have hts : ∀ u ∈ ts, u.namespaceName = ns := fun u hu => hns u (List.mem_cons_of_mem t hu)
    rw [types, unrepeated]
    by_cases h : t.displayName ∈ seen
    · rw [if_pos h, if_pos h, Visit.findings_bind, ih _ _ hts]
      rfl
    · rw [if_neg h, if_neg h, List.map_cons, List.flatMap_cons, List.filter_append]
      simp only [Visit.findings_bind, Visit.findings_pure, Visit.findings_note, findings_type,
        List.nil_append, List.append_nil]
      rw [hns t List.mem_cons_self, ih _ _ hts]

theorem result_namespaceSummary (ns : String) (ts : List TypeInfo) :
    (a.namespaceSummary ns ts).result =
      if ts.isEmpty then .missing else a.index.written (namespaceId ns) := by
  cases ts with
  | nil => rfl
  | cons t ts => exact a.result_summary ns (namespaceId ns)

theorem findings_namespaceSummary (ns : String) (ts : List TypeInfo) :
    (a.namespaceSummary ns ts).findings = [] := by
  cases ts with
  | nil => rfl
  | cons t ts => exact a.findings_summary ns (namespaceId ns)

theorem result_namespace (ns : String) (ts : List TypeInfo) :
    (a.namespace ns ts).result = a.namespaceNode (ns, ts) := by
  simp only [«namespace», Visit.result_bind, Visit.result_pure, result_types,
    result_namespaceSummary, namespaceNode]

theorem findings_namespace (ns : String) (ts : List TypeInfo)
    (h : ∀ t ∈ ts, t.namespaceName = ns) :
    (a.namespace ns ts).findings =
      (a.namespaceNode (ns, ts)).findings.filter a.options.reports := by
  simp only [«namespace», Visit.findings_bind, Visit.findings_pure, findings_namespaceSummary,
    result_namespaceSummary, findings_report, List.nil_append, List.append_nil]
  rw [a.findings_types ns _ ts _ _ h, ← List.filter_append]
  rfl

theorem result_namespaces (count : Nat) (groups : List (String × List TypeInfo)) :
    ∀ position : Nat,
      (a.namespaces count position groups).result = groups.map a.namespaceNode := by
  induction groups with
  | nil => exact fun _ => rfl
  | cons p groups ih =>
    intro position
    simp only [namespaces, Visit.result_bind, Visit.result_pure, result_namespace, ih,
      List.map_cons]

theorem findings_namespaces (count : Nat) (groups : List (String × List TypeInfo)) :
    ∀ position : Nat, (∀ p ∈ groups, ∀ t ∈ p.2, t.namespaceName = p.1) →
      (a.namespaces count position groups).findings =
        ((groups.map a.namespaceNode).flatMap (·.findings)).filter a.options.reports := by
  induction groups with
  | nil => exact fun _ _ => rfl
  | cons p groups ih =>
    intro position h
    simp only [namespaces, Visit.findings_bind, Visit.findings_pure, Visit.findings_note,
      List.nil_append, List.append_nil]
    rw [findings_namespace a p.1 p.2 (h p List.mem_cons_self),
      ih _ fun q hq => h q (List.mem_cons_of_mem p hq), ← List.filter_append]
    rfl

theorem findings_noteUnresolved (s : Surface) : (noteUnresolved s).findings = [] := by
  unfold noteUnresolved
  split <;> rfl

/-- **A check yields the tree of the library with all errors counted.** -/
theorem result_check (s : Surface) : (a.check s).result = (a.tree s).aggregate := by
  simp only [check, Visit.result_bind, Visit.result_pure, result_namespaces, tree,
    Surface.publicTypes]

/-- **A check reports the findings in its tree that the options ask for.** -/
theorem findings_check (s : Surface) :
    (a.check s).findings = (a.check s).result.findings.filter a.options.reports := by
  rw [result_check, Coverage.findings_aggregate]
  simp only [check, Visit.findings_bind, Visit.findings_pure, Visit.findings_note,
    findings_noteUnresolved, List.nil_append, List.append_nil]
  refine a.findings_namespaces _ _ _ fun p hp t ht => ?_
  rw [group_eq_filter hp] at ht
  exact of_decide_eq_true (List.mem_filter.mp ht).2

end Auditor

end DocAudit
