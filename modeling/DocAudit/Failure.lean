import DocAudit.Files
/-!
# What can go wrong

Only a companion file that cannot be used stops the check of a library. A missing piece of
documentation is an error just for callers that ask for strict look-ups.

* `LoadError`: a companion file that cannot be used, with the reason.
* `NotDocumented`: an id without documentation.
-/

namespace DocAudit

/-- Stands in messages for the description of what is wrong inside a text. -/
def detailMark : String := "<detail>"

/-- Why a companion file cannot be used. -/
inductive LoadReason where
  | unreadable (error : ReadError)
  | malformedJson
  | malformedXml
  /-- The document has no list of documented members. -/
  | noMembers
deriving DecidableEq, Repr

def LoadReason.message : LoadReason → String
  | unreadable error => error.message
  | malformedJson => detailMark
  | malformedXml => "malformed XML: " ++ detailMark
  | noMembers => "no <doc><members> element"

/-- The two files next to a library. -/
inductive Companion where
  | metadata
  | documentation
deriving DecidableEq, Repr

/-- A companion file cannot be used. -/
structure LoadError where
  companion : Companion
  path : Path
  reason : LoadReason
deriving DecidableEq, Repr

/-- The message for users. -/
def LoadError.message (e : LoadError) : String :=
  (match e.companion with
    | .metadata => "Metadata snapshot unavailable at "
    | .documentation => "Documentation file unavailable at ") ++
  e.path.text ++ ": " ++ e.reason.message

/-- There is no documentation for an id. -/
structure NotDocumented where
  id : String
deriving DecidableEq, Repr

/-- The message for users. -/
def NotDocumented.message (e : NotDocumented) : String :=
  "Documentation not found for '" ++ e.id ++ "'"

end DocAudit
