import DocAudit.Xml.Chars
/-!
# Line ends in documents

Documents on different systems end their lines differently, and their text is to be the same. What
a reference stands for is never taken for a line end.

* `Written`: a character, and whether a reference stands for it.
* `plainText`, `valueText`: the text that written characters are, between tags and in the value of
  an attribute.
* `unifyLineEnds`: the same for text without references, by `plainText_map_written`.
-/

namespace DocAudit.Xml

/-- A character of a text, and whether a reference stands for it. -/
structure Written where
  char : Char
  referred : Bool
deriving DecidableEq, Repr

/-- A text in which each carriage return, alone or before a line feed, is a line feed. -/
def unifyLineEnds : List Char → List Char
  | [] => []
  | '\r' :: '\n' :: cs => '\n' :: unifyLineEnds cs
  | '\r' :: cs => '\n' :: unifyLineEnds cs
  | c :: cs => c :: unifyLineEnds cs

/-- The text of characters between tags, given whether a reference stands before them. A carriage
return is a line end, unless a reference follows it, or it stands between a reference and the end
of the text. -/
def plainTextFrom (behindReference : Bool) : List Written → List Char
  | [] => []
  | ⟨c, true⟩ :: ws => c :: plainTextFrom true ws
  | ⟨c, false⟩ :: ws =>
    if c = '\r' then
      match ws with
      | [] => if behindReference then ['\r'] else ['\n']
      | ⟨_, true⟩ :: _ => '\r' :: plainTextFrom false ws
      | ⟨d, false⟩ :: _ =>
        if d = '\n' then plainTextFrom false ws else '\n' :: plainTextFrom false ws
    else c :: plainTextFrom false ws

/-- The text of characters between tags. -/
def plainText (ws : List Written) : List Char := plainTextFrom false ws

/-- Without references every carriage return is a line end. -/
theorem plainText_map_written (cs : List Char) :
    plainText (cs.map fun c => ⟨c, false⟩) = unifyLineEnds cs := by
  unfold plainText
  fun_induction unifyLineEnds cs with
  | case1 => rfl
  | case2 cs ih => simp [plainTextFrom, ih]
  | case3 cs h ih =>
    cases cs with
    | nil => simp [plainTextFrom, unifyLineEnds]
    | cons d cs =>
      have hd : d ≠ '\n' := fun hd => h cs (by rw [hd])
      rw [← ih, List.map_cons, List.map_cons, plainTextFrom]
      simp [hd]
  | case4 c cs _ h ih =>
    have hc : c ≠ '\r' := h
    simp [plainTextFrom, hc, ih]

/-- The text of characters in the value of an attribute: white space is a space, and so is a
carriage return with a line feed behind it. -/
def valueText : List Written → List Char
  | [] => []
  | ⟨'\r', false⟩ :: ⟨'\n', false⟩ :: ws => ' ' :: valueText ws
  | ⟨c, referred⟩ :: ws => (if !referred && isSpace c then ' ' else c) :: valueText ws

end DocAudit.Xml
