/-!
# Blank characters

A character is blank when it has the Unicode property White_Space. `Text.trim` removes the blank
characters at both ends of a text; a summary counts as written only if something is left.
-/

namespace DocAudit.Text

/-- The 25 characters with the Unicode property White_Space. -/
def isBlank (c : Char) : Bool :=
  ('\t' ≤ c && c ≤ '\r') || c = ' ' || c = '\u0085' || c = '\u00a0' || c = '\u1680' ||
    ('\u2000' ≤ c && c ≤ '\u200a') || c = '\u2028' || c = '\u2029' || c = '\u202f' ||
    c = '\u205f' || c = '\u3000'

/-- A list of characters without the blank ones at its end. -/
def trimRight (cs : List Char) : List Char := (cs.reverse.dropWhile isBlank).reverse

/-- A text without the blank characters at its two ends. -/
def trim (s : String) : String := String.ofList (trimRight (s.toList.dropWhile isBlank))

end DocAudit.Text
