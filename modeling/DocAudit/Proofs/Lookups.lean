import DocAudit.Proofs.Walk
/-!
# What a check looks up

A check makes one look-up for each element that has an id. To a strict index an absent id is an
error, to a lenient one an answer; the check goes on in either case, and tells of the errors.

* `Auditor.lookups`: the look-ups of a check, in order.
* `Visit.failures`: the failed look-ups that the log of a visit tells of.
* **`Auditor.failures_check`**: they are the look-ups that the index answers with an error.
* **`Auditor.withoutFailures_check`**: apart from them a strict index changes nothing.
* **`raised_absence_is_data`**: the two kinds of index, side by side.
-/

namespace DocAudit

/-! ## Look-ups -/

/-- A look-up: for which element it is made, and the id. -/
structure Lookup where
  element : String
  id : String
deriving DecidableEq, Repr

/-- The look-up for a member; one without id is not looked up. -/
def AuditedMember.lookups (m : AuditedMember) : List Lookup :=
  match m.id with
  | .ok id => [⟨id, id⟩]
  | .error _ => []

namespace Auditor

variable (a : Auditor)

/-- The members of a type that are looked at. -/
def auditedMembers (t : TypeInfo) : List AuditedMember :=
  if a.skipsMembers t then []
  else t.auditedConstructors ++ t.auditedMethods ++ t.auditedFields ++ t.auditedProperties

/-- The look-ups for a type and its members. -/
def typeLookups (t : TypeInfo) : List Lookup :=
  [⟨t.qualifiedName, t.id⟩] ++ (a.auditedMembers t).flatMap AuditedMember.lookups

/-- The look-ups for a group of types. -/
def namespaceLookups (p : String × List TypeInfo) : List Lookup :=
  (if p.2.isEmpty then [] else [⟨p.1, namespaceId p.1⟩]) ++
    (unrepeated [] p.2).flatMap a.typeLookups

/-- The look-ups of a check. -/
def lookups (s : Surface) : List Lookup := (byNamespace s.publicTypes).flatMap a.namespaceLookups

end Auditor

/-! ## Failures in the log -/

/-- A look-up that failed, with its error. -/
structure LookupFailure where
  element : String
  error : NotDocumented
deriving DecidableEq, Repr

/-- The failed look-up that an event tells of. -/
def Event.failure? : Event → Option LookupFailure
  | .lookupFailed element e => some ⟨element, e⟩
  | _ => none

/-- The error with which an index answers a look-up, if it does. -/
def DocIndex.failure? (index : DocIndex) (l : Lookup) : Option LookupFailure :=
  match index.lookup l.id with
  | .error e => some ⟨l.element, e⟩
  | .ok _ => none

namespace Visit

/-- The failed look-ups that a visit tells of. -/
def failures {α : Type} (v : Visit α) : List LookupFailure := v.log.filterMap Event.failure?

/-- The visit without telling of failed look-ups. -/
def withoutFailures {α : Type} (v : Visit α) : Visit α :=
  { v with log := v.log.filter (·.failure?.isNone) }

section Laws

variable {α β : Type} (b : α) (v : Visit α) (f : α → Visit β)

@[simp] theorem failures_pure : (pure b : Visit α).failures = [] := rfl

@[simp] theorem failures_bind : (v >>= f).failures = v.failures ++ (f v.result).failures := by
  rw [failures, log_bind, List.filterMap_append]
  rfl

@[simp] theorem failures_note (e : Event) : (note e).failures = e.failure?.toList := by
  show [e].filterMap Event.failure? = _
  cases h : e.failure? <;> simp [h]

@[simp] theorem withoutFailures_pure :
    (pure b : Visit α).withoutFailures = pure b := rfl

@[simp] theorem withoutFailures_bind :
    (v >>= f).withoutFailures = v.withoutFailures >>= fun c => (f c).withoutFailures := by
  show Visit.mk _ _ _ = Visit.mk _ _ _
  congr 1
  exact List.filter_append ..

end Laws

section ForEach

variable {α β : Type} (f : α → Visit β) (xs : List α)

@[simp] theorem failures_forEach :
    (forEach f xs).failures = xs.flatMap fun x => (f x).failures := by
  induction xs with
  | nil => rfl
  | cons x xs ih => simp [forEach, ih]

@[simp] theorem withoutFailures_forEach :
    (forEach f xs).withoutFailures = forEach (fun x => (f x).withoutFailures) xs := by
  induction xs with
  | nil => rfl
  | cons x xs ih => simp [forEach, ih]

end ForEach

end Visit

/-! ## The failures of a check -/

namespace Auditor

variable (a : Auditor)

theorem failures_summary (element id : String) :
    (a.summary element id).failures = [Lookup.mk element id].filterMap a.index.failure? := by
  unfold summary
  cases h : a.index.lookup id with
  | error e => simp [Event.failure?, DocIndex.failure?, h]
  | ok found => cases found <;> simp [DocIndex.failure?, h]

theorem failures_report (kind : ElementKind) (name : String) (s : Summary) :
    (a.report kind name s).failures = [] := by
  unfold report
  cases s <;> cases a.options.onlyMissing <;> rfl

theorem failures_member (owner : String) (m : AuditedMember) :
    (a.member owner m).failures = m.lookups.filterMap a.index.failure? := by
  simp only [member, Visit.failures_bind, Visit.failures_pure, failures_report, List.append_nil]
  unfold memberSummary AuditedMember.lookups
  cases m.id with
  | error e => rfl
  | ok id => exact a.failures_summary id id

theorem failures_members (owner : String) (ms : List AuditedMember) :
    (Visit.forEach (a.member owner) ms).failures =
      (ms.flatMap AuditedMember.lookups).filterMap a.index.failure? := by
  simp only [Visit.failures_forEach, failures_member, List.filterMap_flatMap]

theorem failures_type (t : TypeInfo) :
    (a.type t).failures = (a.typeLookups t).filterMap a.index.failure? := by
  simp only [type, Visit.failures_bind, failures_summary, failures_report,
    List.nil_append]
  rw [typeLookups, List.filterMap_append, auditedMembers]
  congr 1
  by_cases h : a.skipsMembers t = true
  · rw [if_pos h, if_pos h]
    rfl
  · rw [if_neg h, if_neg h]
    simp only [Visit.failures_bind, Visit.failures_pure, failures_members, List.append_nil,
      List.flatMap_append, List.filterMap_append, List.append_assoc]

theorem failures_types (ns : String) (count : Nat) (ts : List TypeInfo) :
    ∀ (position : Nat) (seen : List String),
      (a.types ns count position seen ts).failures =
        ((unrepeated seen ts).flatMap a.typeLookups).filterMap a.index.failure? := by
  induction ts with
  | nil => exact fun _ _ => rfl
  | cons t ts ih =>
    intro position seen
    rw [types, unrepeated]
    by_cases h : t.displayName ∈ seen
    · rw [if_pos h, if_pos h, Visit.failures_bind, ih]
      rfl
    · rw [if_neg h, if_neg h, List.flatMap_cons, List.filterMap_append]
      simp only [Visit.failures_bind, Visit.failures_pure, failures_type, ih, List.append_nil]
      rfl

theorem failures_namespaceSummary (ns : String) (ts : List TypeInfo) :
    (a.namespaceSummary ns ts).failures =
      (if ts.isEmpty then [] else [Lookup.mk ns (namespaceId ns)]).filterMap a.index.failure? := by
  cases ts with
  | nil => rfl
  | cons t ts => exact a.failures_summary ns (namespaceId ns)

theorem failures_namespace (ns : String) (ts : List TypeInfo) :
    (a.namespace ns ts).failures =
      (a.namespaceLookups (ns, ts)).filterMap a.index.failure? := by
  simp only [«namespace», Visit.failures_bind, Visit.failures_pure, failures_namespaceSummary,
    failures_report, failures_types, namespaceLookups, List.filterMap_append, List.nil_append,
    List.append_nil]

theorem failures_namespaces (count : Nat) (groups : List (String × List TypeInfo)) :
    ∀ position : Nat,
      (a.namespaces count position groups).failures =
        (groups.flatMap a.namespaceLookups).filterMap a.index.failure? := by
  induction groups with
  | nil => exact fun _ => rfl
  | cons p groups ih =>
    intro position
    simp only [namespaces, Visit.failures_bind, Visit.failures_pure, failures_namespace, ih,
      List.flatMap_cons, List.filterMap_append, List.append_nil]
    rfl

theorem failures_noteUnresolved (s : Surface) : (noteUnresolved s).failures = [] := by
  unfold noteUnresolved
  split <;> rfl

/-- **A check tells of the look-ups that fail**, in order and each with its error. -/
theorem failures_check (s : Surface) :
    (a.check s).failures = (a.lookups s).filterMap a.index.failure? := by
  simp only [check, Visit.failures_bind, Visit.failures_pure, Visit.failures_note, Event.failure?,
    Option.toList_none, failures_noteUnresolved, failures_namespaces, List.nil_append,
    List.append_nil, lookups, Surface.publicTypes]

end Auditor

/-! ## Strict and lenient indexes -/

namespace DocIndex

variable (index : DocIndex)

/-- The same documentation, with absent ids as answers. -/
def lenient : DocIndex := { index with mode := .lenient }

theorem lookup_lenient (id : String) : index.lenient.lookup id = .ok (index.fragment id) := by
  simp only [lookup, lenient]
  cases index.fragment id <;> rfl

theorem lookup_strict (id : String) :
    index.strict.lookup id =
      match index.fragment id with
      | some f => .ok (some f)
      | none => .error ⟨id⟩ := by
  simp only [lookup, strict]
  cases index.fragment id <;> rfl

theorem lookup_lenient_eq_some_iff (id : String) (f : Fragment) :
    index.lenient.lookup id = .ok (some f) ↔ index.fragment id = some f := by
  rw [lookup_lenient, Except.ok.injEq]

/-- **A strict look-up fails exactly where a lenient one finds nothing**, and its error names the
id. -/
theorem lookup_strict_eq_error_iff (id : String) (e : NotDocumented) :
    index.strict.lookup id = .error e ↔ index.lenient.lookup id = .ok none ∧ e = ⟨id⟩ := by
  rw [lookup_lenient, lookup_strict]
  cases index.fragment id with
  | none => simp [eq_comm]
  | some f => simp

/-- **What is found is the same for both.** -/
theorem lookup_strict_eq_ok_iff (id : String) (found : Option Fragment) :
    index.strict.lookup id = .ok found ↔
      index.lenient.lookup id = .ok found ∧ found.isSome = true := by
  rw [lookup_lenient, lookup_strict]
  cases index.fragment id with
  | none => cases found <;> simp
  | some f => cases found <;> simp

theorem lookup_strict_eq_some_iff (id : String) (f : Fragment) :
    index.strict.lookup id = .ok (some f) ↔ index.fragment id = some f := by
  rw [lookup_strict_eq_ok_iff, lookup_lenient_eq_some_iff]
  exact and_iff_left rfl

end DocIndex

namespace Auditor

variable (index : DocIndex) (o : AuditOptions)

theorem withoutFailures_summary (element id : String) :
    (summary ⟨index.strict, o⟩ element id).withoutFailures =
      summary ⟨index.lenient, o⟩ element id := by
  unfold summary
  rw [DocIndex.lookup_lenient, DocIndex.lookup_strict]
  cases index.fragment id <;> rfl

theorem withoutFailures_report (kind : ElementKind) (name : String) (s : Summary) :
    (report ⟨index.strict, o⟩ kind name s).withoutFailures =
      report ⟨index.lenient, o⟩ kind name s := by
  unfold report
  cases s <;> cases o.onlyMissing <;> rfl

theorem withoutFailures_member (owner : String) (m : AuditedMember) :
    (member ⟨index.strict, o⟩ owner m).withoutFailures =
      member ⟨index.lenient, o⟩ owner m := by
  have hfound : (memberSummary ⟨index.strict, o⟩ m).withoutFailures =
      memberSummary ⟨index.lenient, o⟩ m := by
    unfold memberSummary
    cases m.id with
    | ok id => exact withoutFailures_summary index o id id
    | error e => rfl
  simp only [member, Visit.withoutFailures_bind, Visit.withoutFailures_pure, hfound,
    withoutFailures_report]

theorem withoutFailures_type (t : TypeInfo) :
    (type ⟨index.strict, o⟩ t).withoutFailures = type ⟨index.lenient, o⟩ t := by
  have hskips : skipsMembers ⟨index.strict, o⟩ t = skipsMembers ⟨index.lenient, o⟩ t := rfl
  simp only [type, Visit.withoutFailures_bind, withoutFailures_summary, withoutFailures_report,
    hskips]
  by_cases h : skipsMembers ⟨index.lenient, o⟩ t = true
  · simp only [if_pos h]
    rfl
  · simp only [if_neg h, Visit.withoutFailures_bind, Visit.withoutFailures_pure,
      Visit.withoutFailures_forEach, withoutFailures_member]

theorem withoutFailures_types (ns : String) (count : Nat) (ts : List TypeInfo) :
    ∀ (position : Nat) (seen : List String),
      (types ⟨index.strict, o⟩ ns count position seen ts).withoutFailures =
        types ⟨index.lenient, o⟩ ns count position seen ts := by
  induction ts with
  | nil => exact fun _ _ => rfl
  | cons t ts ih =>
    intro position seen
    rw [types, types]
    by_cases h : t.displayName ∈ seen
    · rw [if_pos h, if_pos h, Visit.withoutFailures_bind, ih]
      rfl
    · rw [if_neg h, if_neg h]
      simp only [Visit.withoutFailures_bind, Visit.withoutFailures_pure, withoutFailures_type, ih]
      rfl

theorem withoutFailures_namespace (ns : String) (ts : List TypeInfo) :
    («namespace» ⟨index.strict, o⟩ ns ts).withoutFailures =
      «namespace» ⟨index.lenient, o⟩ ns ts := by
  have hsummary : (namespaceSummary ⟨index.strict, o⟩ ns ts).withoutFailures =
      namespaceSummary ⟨index.lenient, o⟩ ns ts := by
    cases ts with
    | nil => rfl
    | cons t ts =>
      simp only [namespaceSummary, Visit.withoutFailures_bind, withoutFailures_summary]
      rfl
  simp only [«namespace», Visit.withoutFailures_bind, Visit.withoutFailures_pure, hsummary,
    withoutFailures_report, withoutFailures_types]

theorem withoutFailures_namespaces (count : Nat) (groups : List (String × List TypeInfo)) :
    ∀ position : Nat,
      (namespaces ⟨index.strict, o⟩ count position groups).withoutFailures =
        namespaces ⟨index.lenient, o⟩ count position groups := by
  induction groups with
  | nil => exact fun _ => rfl
  | cons p groups ih =>
    intro position
    simp only [namespaces, Visit.withoutFailures_bind, Visit.withoutFailures_pure,
      withoutFailures_namespace, ih]
    rfl

/-- **With a strict index a check comes to the same as with a lenient one**, once its log does not
tell of failed look-ups. -/
theorem withoutFailures_check (s : Surface) :
    (check ⟨index.strict, o⟩ s).withoutFailures = check ⟨index.lenient, o⟩ s := by
  have hunresolved : (noteUnresolved s).withoutFailures = noteUnresolved s := by
    unfold noteUnresolved
    split <;> rfl
  simp only [check, Visit.withoutFailures_bind, Visit.withoutFailures_pure, hunresolved,
    withoutFailures_namespaces]
  rfl

end Auditor

theorem DocIndex.failure?_strict (index : DocIndex) (l : Lookup) :
    index.strict.failure? l =
      if (index.fragment l.id).isNone then some ⟨l.element, ⟨l.id⟩⟩ else none := by
  rw [failure?, lookup_strict]
  cases index.fragment l.id <;> rfl

/-- **Absence raised as an error is absence returned as an answer.** Over the same documentation a
strict look-up fails exactly where a lenient one finds nothing, with an error that names the id, and
what is found is the same for both: what is written under the id, with or without a summary. A check
with strict look-ups yields the same tree and the same findings as one with lenient look-ups; only
its log tells of each look-up of an absent id, too. -/
theorem raised_absence_is_data (index : DocIndex) (o : AuditOptions) (s : Surface) :
    let strict : Auditor := ⟨index.strict, o⟩
    let lenient : Auditor := ⟨index.lenient, o⟩
    (∀ id e, strict.index.lookup id = .error e ↔
      lenient.index.lookup id = .ok none ∧ e = ⟨id⟩) ∧
    (∀ id found, strict.index.lookup id = .ok found ↔
      lenient.index.lookup id = .ok found ∧ found.isSome = true) ∧
    (∀ id f, (strict.index.lookup id = .ok (some f) ↔ index.fragment id = some f) ∧
      (lenient.index.lookup id = .ok (some f) ↔ index.fragment id = some f)) ∧
    (strict.check s).result = (lenient.check s).result ∧
    (strict.check s).findings = (lenient.check s).findings ∧
    (strict.check s).log.filter (·.failure?.isNone) = (lenient.check s).log ∧
    (strict.check s).failures =
      ((strict.lookups s).filter fun l => (index.fragment l.id).isNone).map fun l =>
        ⟨l.element, ⟨l.id⟩⟩ := by
  intro strict lenient
  have hcheck : (strict.check s).withoutFailures = lenient.check s :=
    Auditor.withoutFailures_check index o s
  refine ⟨index.lookup_strict_eq_error_iff, index.lookup_strict_eq_ok_iff, fun id f =>
    ⟨index.lookup_strict_eq_some_iff id f, index.lookup_lenient_eq_some_iff id f⟩, ?_⟩
  rw [← hcheck, Auditor.failures_check, ← List.filterMap_eq_map, List.filterMap_filter]
  exact ⟨rfl, rfl, rfl, congrArg (List.filterMap · _) (funext index.failure?_strict)⟩

end DocAudit
