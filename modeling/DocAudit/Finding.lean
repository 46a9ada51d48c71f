import DocAudit.Coverage.Tree
/-!
# Findings

A `Finding` tells of one element whether it has a summary, and which.
-/

namespace DocAudit

/-- The text reported for a constructor without parameters that has no summary. -/
def exemptNote : String := "Default constructor is allowed to have empty summary description"

/-- What was found out about one element. A finding without summary is a missing one. -/
structure Finding where
  kind : ElementKind
  name : String
  summary : Option String
deriving DecidableEq, Repr

namespace Finding

def isMissing (f : Finding) : Bool := f.summary.isNone

/-- The finding about an element with the given summary. -/
def ofSummary (kind : ElementKind) (name : String) : Summary → Finding
  | .missing => ⟨kind, name, none⟩
  | .present text => ⟨kind, name, some text⟩
  | .exempt => ⟨kind, name, some exemptNote⟩

end Finding

end DocAudit
