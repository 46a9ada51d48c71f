/-!
# Characters of XML

The character classes of XML 1.0: which characters a document may hold, which of them separate
tokens, and which make up names.
-/

namespace DocAudit.Xml

/-- A character that a document may hold. -/
def isXmlChar (c : Char) : Bool :=
  if c < ' ' then c = '\t' || c = '\n' || c = '\r' else c ≠ '\ufffe' && c ≠ '\uffff'

/-- White space. -/
def isSpace (c : Char) : Bool := c = ' ' || c = '\t' || c = '\n' || c = '\r'

/-- The ranges of the characters that open a name; the colon is a matter of its own. -/
def nameStartRanges : List (Nat × Nat) :=
  [(0x41, 0x5a), (0x5f, 0x5f), (0x61, 0x7a), (0xc0, 0xd6), (0xd8, 0xf6), (0xf8, 0x2ff),
   (0x370, 0x37d), (0x37f, 0x1fff), (0x200c, 0x200d), (0x2070, 0x218f), (0x2c00, 0x2fef),
   (0x3001, 0xd7ff), (0xf900, 0xfdcf), (0xfdf0, 0xfffd), (0x10000, 0xeffff)]

/-- The ranges of the characters that a name may have behind its first one, too. -/
def nameOnlyRanges : List (Nat × Nat) :=
  [(0x2d, 0x2e), (0x30, 0x39), (0xb7, 0xb7), (0x300, 0x36f), (0x203f, 0x2040)]

/-- Whether a character is in one of the ranges, ends included. -/
def isIn (ranges : List (Nat × Nat)) (c : Char) : Bool :=
  ranges.any fun r => r.1 ≤ c.toNat && c.toNat ≤ r.2

/-- A character that opens a name without colon. -/
def isNameStart (c : Char) : Bool := isIn nameStartRanges c

/-- A character of a name without colon. -/
def isNameChar (c : Char) : Bool := isNameStart c || isIn nameOnlyRanges c

/-- A name without colon. -/
def isName : List Char → Bool
  | [] => false
  | c :: cs => isNameStart c && cs.all isNameChar

end DocAudit.Xml
