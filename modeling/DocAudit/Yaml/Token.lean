import DocAudit.Yaml.Scalar
/-!
# YAML tokens

The tokens of a YAML text make its structure explicit: where collections begin and end is read off
the indentation, and a key before a colon gets a token of its own, which goes before the key and
can be placed only once the colon is seen.

* `Token`: a token.
* `Token.ofText?`: the tokens of a text.
-/

namespace DocAudit.Yaml

/-- How a scalar is written. -/
inductive ScalarStyle where
  | plain
  | quoted
  | literal
  | folded
deriving DecidableEq, Repr

/-- A token. -/
inductive Token where
  /-- A `%YAML` line, with a version that is known. -/
  | versionDirective
  /-- A `%TAG` line, with a handle and what it stands for. -/
  | tagDirective (handle meaning : String)
  | documentStart
  | documentEnd
  | blockSequenceStart
  | blockMappingStart
  | blockEnd
  | flowSequenceStart
  | flowSequenceEnd
  | flowMappingStart
  | flowMappingEnd
  | blockEntry
  | flowEntry
  | key
  | value
  | alias (name : String)
  | anchor (name : String)
  | tag (handle suffix : String)
  | scalar (text : String) (style : ScalarStyle)
deriving DecidableEq, Repr

/-! ## The state of the scanner -/

/-- A place where a key may begin. -/
structure KeyPlace where
  /-- The line has to hold a key. -/
  isRequired : Bool
  /-- The number of tokens before it. -/
  position : Nat
  line : Nat
  index : Nat
  column : Nat

/-- What was read of a text. -/
structure Scanner where
  cursor : Cursor
  tokens : List Token := []
  /-- The columns of the open block collections, the innermost first. -/
  indents : List Nat := []
  /-- For the text outside of brackets and for each open bracket, the innermost first, where a key
  may have begun. -/
  places : List (Option KeyPlace) := [none]
  /-- A key may begin here. -/
  keyAllowed : Bool := true

namespace Scanner

/-- Whether the text is inside of brackets or braces. -/
def inFlow (s : Scanner) : Bool := 1 < s.places.length

def emit (s : Scanner) (t : Token) : Scanner := { s with tokens := s.tokens ++ [t] }

/-- Moves behind a number of characters. -/
def advance (s : Scanner) (count : Nat) : Scanner := { s with cursor := s.cursor.advance count }

/-- Ends the block collections that are indented more than a column; all of them, if there is no
column. -/
def closeBlocks (s : Scanner) (column : Option Nat) : Scanner :=
  if s.inFlow then s
  else
    let deeper (i : Nat) : Bool := column.all (· < i)
    { s with
      tokens := s.tokens ++ (s.indents.takeWhile deeper).map fun _ => .blockEnd
      indents := s.indents.dropWhile deeper }

/-- Begins a block collection at a column, if it is indented more than those that are open. Its
token goes to the given position. -/
def openBlock (s : Scanner) (column position : Nat) (t : Token) : Scanner :=
  if !s.inFlow && (s.indents.head?).all (· < column) then
    { s with indents := column :: s.indents, tokens := s.tokens.insertIdx position t }
  else s

/-- Forgets the place where a key may have begun. It is an error if a key is required there. -/
def forgetKey (s : Scanner) : Option Scanner :=
  match s.places with
  | some k :: places => if k.isRequired then none else some { s with places := none :: places }
  | _ => some s

/-- Remembers that a key may begin here. -/
def rememberKey (s : Scanner) : Option Scanner :=
  if s.keyAllowed then
    s.forgetKey.map fun s =>
      let place : KeyPlace :=
        { isRequired := !s.inFlow && s.indents.head? = some s.cursor.column
          position := s.tokens.length
          line := s.cursor.line
          index := s.cursor.index
          column := s.cursor.column }
      { s with places := some place :: s.places.drop 1 }
  else some s

/-- A key and its colon are on one line, at most 1024 bytes apart. -/
def isStale (s : Scanner) (k : KeyPlace) : Bool :=
  k.line < s.cursor.line || k.index + 1024 < s.cursor.index

/-- Forgets the places that are too far away. -/
def forgetStaleKeys (s : Scanner) : Option Scanner :=
  let stale (p : Option KeyPlace) : Bool := p.any s.isStale
  if s.places.any fun p => stale p && p.any (·.isRequired) then none
  else some { s with places := s.places.map fun p => if stale p then none else p }

/-! ## White space -/

/-- A byte order mark. -/
def byteOrderMark : Char := '\ufeff'

/-- Skips white space and comments up to the next token. A tab may not stand where a key may
begin. A line may begin with a byte order mark, which takes a column as other characters do. -/
def skipToToken : Nat → Scanner → Scanner
  | 0, s => s
  | fuel + 1, s =>
    let marked := s.cursor.column = 0 ∧ s.cursor.rest.head? = some byteOrderMark
    let c := if marked then s.cursor.advance 1 else s.cursor
    let c := c.skipWhile fun x => x = ' ' || (x = '\t' && (s.inFlow || !s.keyAllowed))
    let c := if c.rest.head? = some '#' then c.skipLine else c
    if c.atBreak then
      skipToToken fuel { s with cursor := c.nextLine, keyAllowed := s.keyAllowed || !s.inFlow }
    else { s with cursor := c }

/-! ## Directives -/

/-- The decimal digits at the start of a text, and what follows. -/
def splitDigits (s : List Char) : List Char × List Char := s.span Char.isDigit

/-- Whether a version is known, and what follows it. -/
def afterVersion (s : List Char) : Option (List Char) :=
  match splitDigits s with
  | (major, '.' :: s) =>
    let (minor, s) := splitDigits s
    let value (ds : List Char) : Nat := ds.foldl (fun n d => n * 10 + (d.toNat - '0'.toNat)) 0
    if major ≠ [] ∧ minor ≠ [] ∧ major.length ≤ 9 ∧ minor.length ≤ 9 ∧ value major = 1 ∧
        (value minor = 1 ∨ value minor = 2) then some s
    else none
  | _ => none

/-- A character of a tag. The brackets and the comma only stand in tags in angle brackets and in
what handles stand for. -/
def isTagChar (wide : Bool) (c : Char) : Bool :=
  isWordChar c || ";/?:@&=+$.!~*'()".toList.contains c ||
    (wide && (c = ',' || c = '[' || c = ']'))

/-- How many bytes of a character are still to come behind a byte, if there were so many before
it. -/
def bytesToCome? (pending byte : Nat) : Option Nat :=
  match pending with
  | n + 1 => if 0x80 ≤ byte ∧ byte < 0xC0 then some n else none
  | 0 =>
    if byte < 0x80 then some 0
    else if 0xC0 ≤ byte ∧ byte < 0xE0 then some 1
    else if 0xE0 ≤ byte ∧ byte < 0xF0 then some 2
    else if 0xF0 ≤ byte ∧ byte < 0xF8 then some 3
    else none

/-- The characters of a tag and what follows. A percent sign opens the number of a byte; the bytes
of one character are all written so. -/
def tagText (wide : Bool) (pending : Nat) : List Char → Option (List Char × List Char)
  | '%' :: a :: b :: s => do
    let byte := (← hexValue? a) * 16 + (← hexValue? b)
    let pending ← bytesToCome? pending byte
    let (text, rest) ← tagText wide pending s
    some (Char.ofNat byte :: text, rest)
  | '%' :: _ => none
  | c :: s =>
    if pending ≠ 0 then none
    else if isTagChar wide c then (tagText wide 0 s).map fun (text, rest) => (c :: text, rest)
    else some ([], c :: s)
  | [] => if pending ≠ 0 then none else some ([], [])

/-- The part of a tag that counts, which ends at a NUL. -/
def tagPart (text : List Char) : String := String.ofList (text.takeWhile (· ≠ '\x00'))

/-- A tag that is not empty, and what follows. -/
def someTagText (wide : Bool) (s : List Char) : Option (String × List Char) :=
  match tagText wide 0 s with
  | some ([], _) | none => none
  | some (text, rest) => some (tagPart text, rest)

/-- The token of a directive behind its percent sign, and what follows. -/
def directive (s : List Char) : Option (Token × List Char) :=
  let (name, s) := s.span isWordChar
  let blanks := s.takeWhile isBlank
  let s := s.dropWhile isBlank
  if blanks = [] then none
  else if name = "YAML".toList then (afterVersion s).map fun s => (.versionDirective, s)
  else if name = "TAG".toList then
    match s with
    | '!' :: s =>
      let (name, s) := s.span isWordChar
      let (handle, s) := match s with
        | '!' :: s => ("!" ++ String.ofList name ++ "!", s)
        | s => ("!" ++ String.ofList name, s)
      if (handle ≠ "!" ∧ !handle.toList.getLast? = some '!') ∨ !(s.head?).any isBlank then none
      else
        (someTagText true (s.dropWhile isBlank)).bind fun (meaning, s) =>
          if (s.head?).all isSpace then some (.tagDirective handle meaning, s)
          else none
    | _ => none
  else none

/-- Reads a directive. Only a comment may follow it on its line. -/
def readDirective (s : Scanner) : Option Scanner := do
  let s ← (s.closeBlocks none).forgetKey
  let (t, rest) ← directive (s.cursor.rest.drop 1)
  let c := s.cursor.advance (s.cursor.rest.length - rest.length)
  let c := c.skipWhile isBlank
  let c := if c.rest.head? = some '#' then c.skipLine else c
  if c.rest ≠ [] ∧ !c.atBreak then none
  some { s.emit t with cursor := c.nextLine, keyAllowed := false }

/-! ## Tokens -/

/-- Reads a document marker. -/
def readMarker (s : Scanner) (t : Token) : Option Scanner :=
  (s.closeBlocks none).forgetKey.map fun s => { (s.emit t).advance 3 with keyAllowed := false }

/-- Reads an opening bracket. -/
def readOpening (s : Scanner) (t : Token) : Option Scanner :=
  s.rememberKey.map fun s =>
    { (s.emit t).advance 1 with places := none :: s.places, keyAllowed := true }

/-- Reads a closing bracket. -/
def readClosing (s : Scanner) (t : Token) : Option Scanner :=
  s.forgetKey.map fun s =>
    { (s.emit t).advance 1 with
      places := if s.inFlow then s.places.drop 1 else s.places
      keyAllowed := false }

/-- Reads a comma. -/
def readComma (s : Scanner) : Option Scanner :=
  s.forgetKey.map fun s => { (s.emit .flowEntry).advance 1 with keyAllowed := true }

/-- Reads the hyphen of an item. -/
def readHyphen (s : Scanner) : Option Scanner :=
  if !s.inFlow && !s.keyAllowed then none
  else
    let s := s.openBlock s.cursor.column s.tokens.length .blockSequenceStart
    s.forgetKey.map fun s => { (s.emit .blockEntry).advance 1 with keyAllowed := true }

/-- Reads the question mark of a key. -/
def readQuestion (s : Scanner) : Option Scanner :=
  if !s.inFlow && !s.keyAllowed then none
  else
    let s := s.openBlock s.cursor.column s.tokens.length .blockMappingStart
    s.forgetKey.map fun s => { (s.emit .key).advance 1 with keyAllowed := !s.inFlow }

/-- Reads the colon of a value. The token of its key, if that was not announced, goes where the key
began. -/
def readColon (s : Scanner) : Option Scanner :=
  match s.places with
  | some k :: places =>
    let s : Scanner :=
      { s with tokens := s.tokens.insertIdx k.position .key, places := none :: places }
    let s := s.openBlock k.column k.position .blockMappingStart
    some { (s.emit .value).advance 1 with keyAllowed := false }
  | _ =>
    if !s.inFlow && !s.keyAllowed then none
    else
      let s := s.openBlock s.cursor.column s.tokens.length .blockMappingStart
      some { (s.emit .value).advance 1 with keyAllowed := !s.inFlow }

/-- Reads an alias or an anchor. -/
def readName (s : Scanner) (make : String → Token) : Option Scanner :=
  s.rememberKey.bind fun s =>
    let name := (s.cursor.rest.drop 1).takeWhile isWordChar
    let s : Scanner := { (s.emit (make (String.ofList name))).advance (name.length + 1) with
      keyAllowed := false }
    let ends (c : Char) : Bool := isSpace c || "?:,]\x7d%@`".toList.contains c
    if name ≠ [] ∧ (s.cursor.rest.head?).all ends then some s else none

/-- The handle and the suffix of a tag behind its exclamation mark, and what follows. -/
def tagParts (s : List Char) : Option (String × String × List Char) :=
  match s with
  | '<' :: s =>
    match someTagText true s with
    | some (name, '>' :: s) => some ("", name, s)
    | _ => none
  | s =>
    let (name, rest) := s.span isWordChar
    match rest with
    | '!' :: rest =>
      (someTagText false rest).map fun (suffix, rest) =>
        ("!" ++ String.ofList name ++ "!", suffix, rest)
    | _ =>
      (tagText false 0 s).map fun (text, rest) =>
        match tagPart text with
        | "" => ("", "!", rest)
        | suffix => ("!", suffix, rest)

/-- Reads a tag. -/
def readTag (s : Scanner) : Option Scanner :=
  s.rememberKey.bind fun s =>
    (tagParts (s.cursor.rest.drop 1)).bind fun (handle, suffix, rest) =>
      let ends (c : Char) : Bool := isSpace c || (s.inFlow && c = ',')
      if (rest.head?).all ends then
        some { (s.emit (.tag handle suffix)).advance (s.cursor.rest.length - rest.length) with
          keyAllowed := false }
      else none

/-- Reads a block scalar. -/
def readBlock (s : Scanner) (literal : Bool) : Option Scanner :=
  s.forgetKey.bind fun s =>
    (block literal s.indents.head? (s.cursor.advance 1)).map fun (text, c) =>
      { s.emit (.scalar text (if literal then .literal else .folded)) with
        cursor := c, keyAllowed := true }

/-- Reads a quoted scalar. -/
def readQuoted (s : Scanner) (quote : Char) : Option Scanner :=
  s.rememberKey.bind fun s =>
    (quoted quote s.cursor).map fun (text, c) =>
      { s.emit (.scalar text .quoted) with cursor := c, keyAllowed := false }

/-- Reads a plain scalar. Behind its last line a key may begin. -/
def readPlain (s : Scanner) : Option Scanner :=
  s.rememberKey.bind fun s =>
    let indent := match s.indents.head? with
      | some i => i + 1
      | none => 0
    (plain s.inFlow indent s.cursor).map fun (text, c, broken) =>
      { s.emit (.scalar text .plain) with cursor := c, keyAllowed := broken }

/-- Whether a plain scalar may begin with a character. -/
def opensPlain (s : Scanner) (c : Char) : Bool :=
  let next := s.cursor.rest[1]?
  if c = '-' then !next.any isBlank
  else if c = '?' || c = ':' then !s.inFlow && !next.all isSpace
  else !isSpace c && !",[]\x7b\x7d#&*!|>'\"%@`".toList.contains c

/-- Reads the next token. -/
def readToken (s : Scanner) (c : Char) : Option Scanner :=
  let spaceNext := s.cursor.spaceAt 1
  if s.cursor.column = 0 ∧ c = '%' then s.readDirective
  else if s.cursor.atMarker then s.readMarker (if c = '-' then .documentStart else .documentEnd)
  else if c = '[' then s.readOpening .flowSequenceStart
  else if c = '\x7b' then s.readOpening .flowMappingStart
  else if c = ']' then s.readClosing .flowSequenceEnd
  else if c = '\x7d' then s.readClosing .flowMappingEnd
  else if c = ',' then s.readComma
  else if c = '-' ∧ spaceNext then s.readHyphen
  else if c = '?' ∧ (s.inFlow ∨ spaceNext) then s.readQuestion
  else if c = ':' ∧ (s.inFlow ∨ spaceNext) then s.readColon
  else if c = '*' then s.readName .alias
  else if c = '&' then s.readName .anchor
  else if c = '!' then s.readTag
  else if c = '|' ∧ !s.inFlow then s.readBlock true
  else if c = '>' ∧ !s.inFlow then s.readBlock false
  else if c = '\'' ∨ c = '"' then s.readQuoted c
  else if s.opensPlain c then s.readPlain
  else none

/-- Reads all tokens. -/
def readAll : Nat → Scanner → Option (List Token)
  | 0, _ => none
  | fuel + 1, s => do
    let s ← (skipToToken (s.cursor.rest.length + 1) s).forgetStaleKeys
    let s := s.closeBlocks (some s.cursor.column)
    match s.cursor.rest with
    | [] => (s.closeBlocks none).forgetKey.map (·.tokens)
    | c :: _ => (s.readToken c).bind (readAll fuel)

end Scanner

/-- The tokens of a text. -/
def Token.ofText? (text : String) : Option (List Token) :=
  let cs := text.toList
  if cs.all isAllowed then Scanner.readAll (cs.length + 1) { cursor := { rest := cs } } else none

end DocAudit.Yaml
