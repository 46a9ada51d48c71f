import DocAudit.Text.Reader
import DocAudit.Toml.Scalar
/-!
# Reading TOML

A document is read line by line into a table. Any key that comes twice, any table that is opened
twice and any line that is malformed makes the whole document invalid.

* `Toml.value`: the reader of a value, with containers at most the given number of levels deep.
* `Toml.document?`: the table in a text.
-/

set_option linter.unusedVariables false

namespace DocAudit.Toml

open Text

/-- Space or tab. -/
def isBlank (c : Char) : Bool := c = ' ' || c = '\t'

/-- A character that may stand in a text: a tab, or none of the control characters. -/
def isPrintable (c : Char) : Bool := c = '\t' || (' ' ≤ c && c ≠ '\x7f')

/-! ## Line ends and comments -/

/-- A line end: a line feed, with a carriage return before it or not. -/
def lineEnd : Reader (List Char)
  | '\n' :: s => some (['\n'], Rest.tail _ s)
  | '\r' :: '\n' :: s => some (['\r', '\n'], ⟨s, by simp only [List.length_cons]; omega⟩)
  | _ => none

/-- What is left behind a comment, if the text starts with one; the line end is not part of it. -/
def skipComment : List Char → List Char
  | '#' :: s => s.dropWhile isPrintable
  | s => s

theorem length_skipComment_le (s : List Char) : (skipComment s).length ≤ s.length := by
  unfold skipComment
  split
  · exact Nat.le_succ_of_le (length_dropWhile_le _ _)
  · exact Nat.le_refl _

/-- What is left behind blanks, comments and line ends. -/
def skipLines (s : List Char) : List Char :=
  match lineEnd (skipComment (s.dropWhile isBlank)) with
  | some (_, r) => skipLines r.1
  | none => skipComment (s.dropWhile isBlank)
termination_by s.length
decreasing_by
  have := r.2
  have := length_skipComment_le (s.dropWhile isBlank)
  have := length_dropWhile_le isBlank s
  omega

theorem length_skipLines_le (s : List Char) : (skipLines s).length ≤ s.length := by
  fun_induction skipLines s with
  | case1 s _ r hr ih =>
    have := r.2
    have := length_skipComment_le (s.dropWhile isBlank)
    have := length_dropWhile_le isBlank s
    omega
  | case2 s =>
    exact Nat.le_trans (length_skipComment_le _) (length_dropWhile_le _ _)

/-- A reader behind blanks. -/
def spaced {α : Type} (read : Reader α) : Reader α := skipping isBlank read

/-- A reader behind blanks, comments and line ends. -/
def lined {α : Type} (read : Reader α) : Reader α := fun s =>
  (read (skipLines s)).map fun p => (p.1, p.2.weaken (length_skipLines_le s))

/-! ## Strings -/

/-- The character with a code of the given number of hexadecimal digits. -/
def codedChar (count : Nat) : Reader Char := fun s =>
  let ds := s.take count
  let n := digitsValue 16 ds
  if h : ds.length = count ∧ 0 < count ∧ ds.all isHex ∧ n.isValidChar then
    some (Char.ofNat n, ⟨s.drop count, by
      have := h.1
      simp only [ds, List.length_take] at this
      rw [List.length_drop]
      omega⟩)
  else none

/-- The character behind a backslash. -/
def escape : Reader Char
  | [] => none
  | c :: s =>
    let simple (d : Char) : Option (Char × Rest (c :: s)) := some (d, Rest.tail c s)
    match c with
    | 'b' => simple '\x08'
    | 't' => simple '\t'
    | 'n' => simple '\n'
    | 'f' => simple '\x0c'
    | 'r' => simple '\r'
    | 'e' => simple '\x1b'
    | '"' => simple '"'
    | '\\' => simple '\\'
    | 'x' => (codedChar 2 s).map fun p => (p.1, (Rest.tail c s).andThen p.2)
    | 'u' => (codedChar 4 s).map fun p => (p.1, (Rest.tail c s).andThen p.2)
    | 'U' => (codedChar 8 s).map fun p => (p.1, (Rest.tail c s).andThen p.2)
    | _ => none

/-- A string on one line up to its closing quote. Backslashes count only between double quotes. -/
def lineString (quote : Char) (s : List Char) : Option (List Char × Rest s) :=
  match s with
  | [] => none
  | c :: t =>
    if c = quote then some ([], Rest.tail c t)
    else if c = '\\' ∧ quote = '"' then
      match escape t with
      | none => none
      | some (x, r) =>
        (lineString quote r.1).map fun p => (x :: p.1, (Rest.tail c t).andThen (r.andThen p.2))
    else if isPrintable c then
      (lineString quote t).map fun p => (c :: p.1, (Rest.tail c t).andThen p.2)
    else none
termination_by s.length
decreasing_by
  · have := r.2
    simp only [List.length_cons]
    omega
  · simp

/-- What is left behind blanks and line ends. -/
def skipWhite : List Char → List Char
  | '\r' :: '\n' :: s => skipWhite s
  | c :: s => if isBlank c || c = '\n' then skipWhite s else c :: s
  | [] => []

theorem length_skipWhite_le (s : List Char) : (skipWhite s).length ≤ s.length := by
  fun_induction skipWhite s with
  | case1 s ih => simp only [List.length_cons]; omega
  | case2 c s _ _ ih => simp only [List.length_cons]; omega
  | case3 | case4 => exact Nat.le_refl _

/-- What is left behind white space with a line end in it. -/
def afterContinuation : Reader Unit := fun s =>
  match skipping isBlank lineEnd s with
  | none => none
  | some (_, r) =>
    some ((), ⟨skipWhite r.1, Nat.lt_of_le_of_lt (length_skipWhite_le r.1) r.2⟩)

/-- A string over several lines up to its three closing quotes, before which one or two more quotes
may stand. Its line ends stay as they are. -/
def blockString (quote : Char) (s : List Char) : Option (List Char × Rest s) :=
  match s with
  | [] => none
  | c :: t =>
    let quotes := ((c :: t).takeWhile (· = quote)).length
    if h : 3 ≤ quotes then
      if quotes ≤ 5 then
        some (List.replicate (quotes - 3) quote, ⟨(c :: t).drop quotes, by
          rw [List.length_drop]
          exact Nat.sub_lt (Nat.succ_pos _) (Nat.lt_of_lt_of_le (Nat.succ_pos 2) h)⟩)
      else none
    else if c = '\\' ∧ quote = '"' then
      match afterContinuation t with
      | some (_, r) =>
        (blockString quote r.1).map fun p => (p.1, (Rest.tail c t).andThen (r.andThen p.2))
      | none =>
        match escape t with
        | none => none
        | some (x, r) =>
          (blockString quote r.1).map fun p => (x :: p.1, (Rest.tail c t).andThen (r.andThen p.2))
    else
      match lineEnd (c :: t) with
      | some (ending, r) => (blockString quote r.1).map fun p => (ending ++ p.1, r.andThen p.2)
      | none =>
        if isPrintable c then
          (blockString quote t).map fun p => (c :: p.1, (Rest.tail c t).andThen p.2)
        else none
termination_by s.length
decreasing_by
  · exact ((Rest.tail c t).andThen r).2
  · exact ((Rest.tail c t).andThen r).2
  · exact r.2
  · exact (Rest.tail c t).2

/-- A string behind the three quotes that open it. A line end right behind them does not count. -/
def openedBlockString (quote : Char) : Reader (List Char) := fun s =>
  match lineEnd s with
  | some (_, r) => (blockString quote r.1).map fun p => (p.1, r.andThen p.2)
  | none => blockString quote s

/-- A string of any form. -/
def string : Reader String := fun s =>
  match s with
  | [] => none
  | q :: t =>
    let characters : Option (List Char × Rest (q :: t)) :=
      if q = '"' ∨ q = '\'' then
        if [q, q].isPrefixOf t then
          (openedBlockString q (t.drop 2)).map fun p =>
            (p.1, p.2.weaken (by simp only [List.length_drop, List.length_cons]; omega))
        else (lineString q t).map fun p => (p.1, (Rest.tail q t).andThen p.2)
      else none
    characters.map fun p => (String.ofList p.1, p.2)

/-! ## Keys -/

/-- A character of a key without quotes. -/
def isKeyChar (c : Char) : Bool := c.isAlphanum || c = '_' || c = '-'

/-- One part of a key. -/
def simpleKey : Reader String := fun s =>
  match s with
  | [] => none
  | c :: t =>
    if c = '"' ∨ c = '\'' then
      (lineString c t).map fun p => (String.ofList p.1, (Rest.tail c t).andThen p.2)
    else if isKeyChar c then
      some (String.ofList (c :: t.takeWhile isKeyChar),
        ⟨t.dropWhile isKeyChar, Nat.lt_succ_of_le (length_dropWhile_le _ t)⟩)
    else none

/-- The parts of a key with dots between them. -/
def keyParts (s : List Char) : Option (List String × Rest s) :=
  match spaced simpleKey s with
  | none => none
  | some (first, r) =>
    match spaced (character '.') r.1 with
    | none => some ([first], r)
    | some (_, q) => (keyParts q.1).map fun p => (first :: p.1, r.andThen (q.andThen p.2))
termination_by s.length
decreasing_by
  have := r.2
  have := q.2
  omega

/-- How many parts a key may have, and how many levels of containers a value. -/
def maxDepth : Nat := 80

/-- A key: one or more parts with dots between them. -/
def key : Reader (List String) := fun s =>
  (keyParts s).filter fun p => p.1.length ≤ maxDepth

/-! ## Values -/

/-- A character of a word. -/
def isWordChar (c : Char) : Bool :=
  c.isAlphanum || c = '+' || c = '-' || c = '_' || c = '.' || c = ':'

/-- A word: a number, a boolean, a date or a time. A date and a time may have one space between
them. -/
def word : Reader Value := fun s =>
  let first := s.takeWhile isWordChar
  let rest := s.dropWhile isWordChar
  let take (w rest : List Char) : Option (Value × Rest s) :=
    if h : rest.length < s.length then (wordValue? w).map fun v => (v, ⟨rest, h⟩) else none
  match afterDate? first, rest with
  | some [], ' ' :: d :: t =>
    if d.isDigit then
      take (first ++ ' ' :: (d :: t).takeWhile isWordChar) ((d :: t).dropWhile isWordChar)
    else take first rest
  | _, _ => take first rest

/-- Items with commas between them up to the closing character; a comma may stand behind the last
one. -/
def items {α : Type} (closing : Char) (item : Reader α) (s : List Char) :
    Option (List α × Rest s) :=
  match lined (character closing) s with
  | some (_, r) => some ([], r)
  | none =>
    match lined item s with
    | none => none
    | some (v, r) =>
      match lined (character ',') r.1 with
      | some (_, q) =>
        (items closing item q.1).map fun p => (v :: p.1, r.andThen (q.andThen p.2))
      | none => (lined (character closing) r.1).map fun p => ([v], r.andThen p.2)
termination_by s.length
decreasing_by
  have := r.2
  have := q.2
  omega

/-- A key, an equals sign and a value on one line. -/
def keyValue (item : Reader Value) : Reader (List String × Value) :=
  Reader.followedBy key fun path =>
    (spaced (character '=')).followedBy fun _ => (spaced item).map fun v => (path, v)

/-- A key, an equals sign and a value in braces, where they may be on lines of their own. -/
def bracedPair (item : Reader Value) : Reader (List String × Value) :=
  Reader.followedBy key fun path =>
    (lined (character '=')).followedBy fun _ => (lined item).map fun v => (path, v)

/-- The fields with a value for a key that may be dotted. -/
def assignKey (current path : List String) (v : Value) (fields : Fields) : Option Fields :=
  match path.getLast? with
  | some last => assignAt current path.dropLast last v fields
  | none => none

/-- The table that pairs in braces stand for. -/
def bracedTable (pairs : List (List String × Value)) : Option Value :=
  (pairs.foldlM (fun fields p => assignKey [] p.1 p.2 fields) []).map (.table .braced)

/-- A value that holds no other value. -/
def scalar : Reader Value := fun s =>
  match s.head? with
  | some '"' | some '\'' => string.map Value.string s
  | _ => word s

/-- A value, with containers at most the given number of levels deep. -/
def value : Nat → Reader Value
  | 0 => scalar
  | depth + 1 => fun s =>
    match s with
    | '[' :: t =>
      (items ']' (value depth) t).map fun p => (.array p.1, (Rest.tail _ t).andThen p.2)
    | '\x7b' :: t =>
      match items '\x7d' (bracedPair (value depth)) t with
      | none => none
      | some (pairs, r) => (bracedTable pairs).map fun v => (v, (Rest.tail _ t).andThen r)
    | s => scalar s

/-! ## Documents -/

/-- What a line does. -/
inductive Line where
  | assign (path : List String) (v : Value)
  | header (path : List String)
  | elementHeader (path : List String)

/-- A line that is not empty. -/
def line : Reader Line := fun s =>
  match s with
  | '[' :: '[' :: t =>
    let read := Reader.followedBy key fun path =>
      (spaced (character ']')).followedBy fun _ =>
        (character ']').map fun _ => Line.elementHeader path
    (read t).map fun p => (p.1, p.2.weaken (by simp only [List.length_cons]; omega))
  | '[' :: t =>
    let read := Reader.followedBy key fun path =>
      (spaced (character ']')).map fun _ => Line.header path
    (read t).map fun p => (p.1, (Rest.tail _ t).andThen p.2)
  | s => ((keyValue (value maxDepth)).map fun p => Line.assign p.1 p.2) s

/-- The lines of a document. -/
def lines (s : List Char) : Option (List Line) :=
  match hs : skipLines s with
  | [] => some []
  | c :: t =>
    match line (c :: t) with
    | none => none
    | some (l, r) =>
      match hr : skipComment (r.1.dropWhile isBlank) with
      | [] => some [l]
      | d :: u =>
        match lineEnd (d :: u) with
        | none => none
        | some (_, q) => (lines q.1).map (l :: ·)
termination_by s.length
decreasing_by
  have := length_skipLines_le s
  have := length_skipComment_le (r.1.dropWhile isBlank)
  have := length_dropWhile_le isBlank r.1
  have := r.2
  have := q.2
  rw [hs] at *
  rw [hr] at *
  omega

/-- A document, and the path of the table to which the next keys belong. -/
structure Draft where
  root : Fields := []
  current : List String := []

/-- The document after a line. -/
def Draft.add (d : Draft) : Line → Option Draft
  | .assign path v => (assignKey d.current path v d.root).map fun root => { d with root }
  | .header path =>
    path.getLast?.bind fun last =>
      (openTable path.dropLast last d.root).map fun root => { root, current := path }
  | .elementHeader path =>
    path.getLast?.bind fun last =>
      (openElement path.dropLast last d.root).map fun root => { root, current := path }

/-- The table in a text. A byte order mark before it does not count. -/
def document? (text : String) : Option Fields :=
  let cs := match text.toList with
    | '\ufeff' :: cs => cs
    | cs => cs
  ((lines cs).bind fun ls => ls.foldlM Draft.add {}).map (·.root)

end DocAudit.Toml
