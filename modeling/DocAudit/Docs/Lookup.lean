import DocAudit.DocId.Synthesis
import DocAudit.Failure
import DocAudit.Text.Blank
/-!
# Looking up documentation

A `DocIndex` finds what is written about an element under its documentation id.

* `Fragment.text`: the summary without the blanks around it, empty if there is none.
* `DocIndex.lookup`: what is written under an id. An absent id is no error to a lenient index.
-/

namespace DocAudit

/-- What is written about one element; without a summary there is still the element's block. -/
structure Fragment where
  summary : Option String
deriving DecidableEq, Repr

/-- The summary without the blanks around it, empty if there is none. -/
def Fragment.text (f : Fragment) : String :=
  match f.summary with
  | some s => Text.trim s
  | none => ""

/-- What a look-up makes of an absent id. -/
inductive LookupMode where
  /-- It is an answer. -/
  | lenient
  /-- It is an error. -/
  | strict
deriving DecidableEq, Repr

/-- Documentation by id. -/
structure DocIndex where
  fragment : String → Option Fragment
  mode : LookupMode := .lenient

namespace DocIndex

/-- What is written under an id. -/
def lookup (index : DocIndex) (id : String) : Except NotDocumented (Option Fragment) :=
  match index.fragment id, index.mode with
  | some f, _ => .ok (some f)
  | none, .lenient => .ok none
  | none, .strict => .error ⟨id⟩

/-- The same documentation, with absent ids as errors. -/
def strict (index : DocIndex) : DocIndex := { index with mode := .strict }

end DocIndex

end DocAudit
