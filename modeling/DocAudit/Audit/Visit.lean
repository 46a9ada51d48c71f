import DocAudit.Finding
import DocAudit.Log
/-!
# Visits

A `Visit` is what comes out of looking at a part of a library: a result, the findings, and the
events of the log, both in the order in which they came up. Visits form a monad.

* `Visit.forEach`: a visit to each item of a list in turn.
-/

namespace DocAudit

/-- A result with the findings and the events on the way to it. -/
structure Visit (α : Type) where
  result : α
  findings : List Finding := []
  log : List Event := []

namespace Visit

instance : Monad Visit where
  pure a := { result := a }
  bind v f :=
    { result := (f v.result).result
      findings := v.findings ++ (f v.result).findings
      log := v.log ++ (f v.result).log }

section Laws

variable {α β : Type} (a : α) (v : Visit α) (f : α → Visit β)

@[simp] theorem result_pure : (pure a : Visit α).result = a := rfl
@[simp] theorem findings_pure : (pure a : Visit α).findings = [] := rfl
@[simp] theorem log_pure : (pure a : Visit α).log = [] := rfl
@[simp] theorem result_bind : (v >>= f).result = (f v.result).result := rfl
@[simp] theorem findings_bind :
    (v >>= f).findings = v.findings ++ (f v.result).findings := rfl
@[simp] theorem log_bind : (v >>= f).log = v.log ++ (f v.result).log := rfl

end Laws

/-- Adds an event to the log. -/
def note (e : Event) : Visit Unit := { result := (), log := [e] }

@[simp] theorem findings_note (e : Event) : (note e).findings = [] := rfl

/-- Reports a finding. -/
def report (f : Finding) : Visit Unit := { result := (), findings := [f] }

/-- Visits each item of a list in turn. -/
def forEach {α β : Type} (f : α → Visit β) : List α → Visit (List β)
  | [] => pure []
  | a :: as => do
    let b ← f a
    let bs ← forEach f as
    pure (b :: bs)

section ForEach

variable {α β : Type} (f : α → Visit β) (as : List α)

@[simp] theorem result_forEach : (forEach f as).result = as.map fun a => (f a).result := by
  induction as with
  | nil => rfl
  | cons a as ih => simp [forEach, ih]

@[simp] theorem findings_forEach :
    (forEach f as).findings = as.flatMap fun a => (f a).findings := by
  induction as with
  | nil => rfl
  | cons a as ih => simp [forEach, ih]

end ForEach

end Visit

end DocAudit
