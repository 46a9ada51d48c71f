/-!
# A place in a YAML text

Lines and columns decide the structure of a YAML text. A `Cursor` is what is left of a text, with
the line and column of its first character and the number of bytes before it.

* `Cursor.advance`, `Cursor.nextLine`, `Cursor.skipWhile`: steps through the text.
* `Cursor.atMarker`: whether a document marker begins here.
-/

namespace DocAudit.Yaml

/-- A character that ends a line. -/
def isBreak (c : Char) : Bool :=
  c = '\n' || c = '\r' || c = '\u0085' || c = '\u2028' || c = '\u2029'

/-- Space or tab. -/
def isBlank (c : Char) : Bool := c = ' ' || c = '\t'

/-- A blank or the end of a line. -/
def isSpace (c : Char) : Bool := isBlank c || isBreak c

/-- A character that may stand in a text. -/
def isAllowed (c : Char) : Bool :=
  c = '\t' || c = '\n' || c = '\r' || (' ' ≤ c && c ≤ '~') || c = '\u0085' ||
    ('\u00a0' ≤ c && c ≤ '\ufffd') || '\uffff' < c

/-- A character of an anchor, a directive or the handle of a tag. -/
def isWordChar (c : Char) : Bool := c.isAlphanum || c = '-' || c = '_'

/-- What is left of a text, and where it is. -/
structure Cursor where
  rest : List Char
  /-- The number of bytes before it. -/
  index : Nat := 0
  line : Nat := 0
  column : Nat := 0

namespace Cursor

/-- The cursor behind a number of characters on the same line. -/
def advance (c : Cursor) (count : Nat) : Cursor :=
  let skipped := c.rest.take count
  { c with
    rest := c.rest.drop count
    index := c.index + (skipped.map Char.utf8Size).foldr (· + ·) 0
    column := c.column + skipped.length }

/-- The cursor at the start of the next line, if it is at the end of one. -/
def nextLine (c : Cursor) : Cursor :=
  match c.rest with
  | '\r' :: '\n' :: rest => ⟨rest, c.index + 2, c.line + 1, 0⟩
  | x :: rest => if isBreak x then ⟨rest, c.index + x.utf8Size, c.line + 1, 0⟩ else c
  | [] => c

/-- What the end of a line adds to a text that goes on. -/
def breakText (c : Cursor) : List Char :=
  match c.rest with
  | x :: _ => if x = '\u2028' ∨ x = '\u2029' then [x] else ['\n']
  | [] => []

/-- The cursor behind the characters of a class. -/
def skipWhile (c : Cursor) (p : Char → Bool) : Cursor := c.advance (c.rest.takeWhile p).length

/-- The cursor at the end of the line. -/
def skipLine (c : Cursor) : Cursor := c.skipWhile fun x => !isBreak x

/-- Whether the text ends here, or white space follows the given number of characters. -/
def spaceAt (c : Cursor) (offset : Nat) : Bool := (c.rest[offset]?).all isSpace

/-- Whether the text goes on with a break. -/
def atBreak (c : Cursor) : Bool := (c.rest.head?).any isBreak

/-- Whether one of the two document markers begins here. -/
def atMarker (c : Cursor) : Bool :=
  c.column = 0 && ("---".toList.isPrefixOf c.rest || "...".toList.isPrefixOf c.rest) && c.spaceAt 3

end Cursor

end DocAudit.Yaml
