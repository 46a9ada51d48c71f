import DocAudit.Json.Basic
import DocAudit.Text.Reader
/-!
# Reading JSON

The reader is strict: no comments, no trailing commas, no characters below U+0020 in strings, no
numbers with leading zeros. A value may hold containers only up to a given depth, and a number has
to be in the range of a double.

* `Json.value`: the reader of a value.
* `Json.ignored`: a value that is skipped. Only its shape matters, so numbers of any size, unpaired
  surrogates and containers of any depth are fine.
* `Json.only`: a reader applied to a whole text.
-/

namespace DocAudit.Json

open Text

/-- White space between the tokens. -/
def isSpace (c : Char) : Bool := c = ' ' || c = '\n' || c = '\t' || c = '\r'

/-! ## Strings -/

def hexDigit? (c : Char) : Option Nat :=
  if c.isDigit then some (c.toNat - '0'.toNat)
  else if 'a' ≤ c ∧ c ≤ 'f' then some (c.toNat - 'a'.toNat + 10)
  else if 'A' ≤ c ∧ c ≤ 'F' then some (c.toNat - 'A'.toNat + 10)
  else none

/-- The number that four hexadecimal digits stand for. -/
def hexUnit? (a b c d : Char) : Option Nat :=
  match hexDigit? a, hexDigit? b, hexDigit? c, hexDigit? d with
  | some a, some b, some c, some d => some (((a * 16 + b) * 16 + c) * 16 + d)
  | _, _, _, _ => none

/-- The character that two surrogates stand for. -/
def pairedSurrogates (high low : Nat) : Char :=
  Char.ofNat (0x10000 + (high - 0xd800) * 0x400 + (low - 0xdc00))

/-- The character behind `\u`. Surrogates have to come in pairs, unless the string is skipped. -/
def unicodeEscape (skipped : Bool) : Reader Char
  | a :: b :: c :: d :: s =>
    match hexUnit? a b c d with
    | none => none
    | some high =>
      let single (ch : Char) : Option (Char × Rest (a :: b :: c :: d :: s)) :=
        some (ch, ⟨s, by simp only [List.length_cons]; omega⟩)
      if high < 0xd800 ∨ 0xdfff < high then single (Char.ofNat high)
      else if skipped then single '\ufffd'
      else if 0xdbff < high then none
      else
        match s with
        | '\\' :: 'u' :: e :: f :: g :: h :: t =>
          match hexUnit? e f g h with
          | none => none
          | some low =>
            if 0xdc00 ≤ low ∧ low ≤ 0xdfff then
              some (pairedSurrogates high low, ⟨t, by simp only [List.length_cons]; omega⟩)
            else none
        | _ => none
  | _ => none

/-- The character behind a backslash. -/
def escape (skipped : Bool) : Reader Char
  | [] => none
  | c :: s =>
    match c with
    | 'u' => (unicodeEscape skipped s).map fun p => (p.1, (Rest.tail 'u' s).andThen p.2)
    | '"' => some ('"', Rest.tail _ s)
    | '\\' => some ('\\', Rest.tail _ s)
    | '/' => some ('/', Rest.tail _ s)
    | 'b' => some ('\x08', Rest.tail _ s)
    | 'f' => some ('\x0c', Rest.tail _ s)
    | 'n' => some ('\n', Rest.tail _ s)
    | 'r' => some ('\r', Rest.tail _ s)
    | 't' => some ('\t', Rest.tail _ s)
    | _ => none

/-- The characters of a string up to the closing quote. -/
def stringBody (skipped : Bool) : Reader (List Char)
  | [] => none
  | c :: s =>
    if c = '"' then some ([], Rest.tail c s)
    else if c = '\\' then
      match escape skipped s with
      | none => none
      | some (x, r) =>
        match stringBody skipped r.1 with
        | none => none
        | some (cs, q) => some (x :: cs, (Rest.tail c s).andThen (r.andThen q))
    else if c < ' ' then none
    else
      match stringBody skipped s with
      | none => none
      | some (cs, q) => some (c :: cs, (Rest.tail c s).andThen q)
termination_by s => s.length
decreasing_by
  · have := r.2
    simp only [List.length_cons]
    omega
  · simp

/-- A string with its quotes. -/
def stringLiteral (skipped : Bool) : Reader String :=
  (character '"').followedBy fun _ => (stringBody skipped).map String.ofList

/-! ## Numbers -/

/-- The natural number with the given decimal digits. -/
def ofDigits (ds : List Char) : Nat :=
  ds.foldl (fun n c => n * 10 + (c.toNat - '0'.toNat)) 0

/-- A number as it is written. -/
structure Numeral where
  isNegative : Bool
  integer : List Char
  /-- The digits behind the point, if there is one. -/
  fraction : Option (List Char)
  exponent : Option Int

/-- The largest natural number that is kept exactly. -/
def maxNatural : Nat := UInt64.size - 1

/-- Adds digits to a significand as long as it stays below 2⁶⁴, and counts those that do not
fit. -/
def significand (start : Nat) (ds : List Char) : Nat × Nat :=
  ds.foldl (fun (n, left) c =>
    let next := n * 10 + (c.toNat - '0'.toNat)
    if left = 0 ∧ next ≤ maxNatural then (next, 0) else (n, left + 1)) (start, 0)

/-- The number that is written: an integer of at most 64 bits if it is written as one, else a
significand below 2⁶⁴ with a power of ten. -/
def Numeral.number (w : Numeral) : JsonNumber :=
  let n := ofDigits w.integer
  let isPlain := w.fraction.isNone && w.exponent.isNone
  if isPlain ∧ ¬w.isNegative ∧ n ≤ maxNatural then .natural n
  else if isPlain ∧ w.isNegative ∧ 0 < n ∧ n ≤ Nat.pow 2 63 then .negative n
  else
    let fraction := w.fraction.getD []
    let (whole, dropped) := significand 0 w.integer
    let (digits, ignored) := significand whole fraction
    .decimal w.isNegative digits (w.exponent.getD 0 + dropped - (fraction.length - ignored))

/-- The nearest number with at most 53 significant bits; a tie goes to the even one. -/
def roundToDouble (n : Nat) : Nat :=
  let unit := Nat.pow 2 (n.log2 - 52)
  let twice := 2 * (n % unit)
  let low := n / unit
  (if twice > unit ∨ (twice = unit ∧ low % 2 = 1) then low + 1 else low) * unit

/-- Whether a number is in the range of a double. -/
def isFinite : JsonNumber → Bool
  | .natural _ | .negative _ => true
  | .decimal _ digits exponent =>
    digits = 0 || exponent < 0 ||
      (exponent ≤ 308 &&
        roundToDouble digits * roundToDouble (Nat.pow 10 exponent.toNat) <
          Nat.pow 2 1024 - Nat.pow 2 970)

/-- One or more digits. -/
def digits : Reader (List Char)
  | [] => none
  | c :: s =>
    if c.isDigit then
      some (c :: s.takeWhile Char.isDigit,
        ⟨s.dropWhile Char.isDigit, Nat.lt_succ_of_le (length_dropWhile_le _ s)⟩)
    else none

/-- Digits of which the first is not `0`, or a `0` alone. -/
def integerPart : Reader (List Char) := fun s =>
  match digits s with
  | some ('0' :: _ :: _, _) => none
  | part => part

/-- The digits of an exponent with their sign. -/
def signedDigits : Reader Int
  | '+' :: s => (digits s).map fun p => ((ofDigits p.1 : Int), (Rest.tail _ s).andThen p.2)
  | '-' :: s => (digits s).map fun p => (-(ofDigits p.1 : Int), (Rest.tail _ s).andThen p.2)
  | s => digits.map (fun ds => (ofDigits ds : Int)) s

/-- A part behind one of the given characters. The part may be absent; the character alone is
refused. -/
def optionalPart {α : Type} (marks : List Char) (read : Reader α) (s : List Char) :
    Option (Option α × {r : List Char // r.length ≤ s.length}) :=
  match s with
  | [] => some (none, ⟨[], Nat.le_refl _⟩)
  | c :: t =>
    if c ∈ marks then
      (read t).map fun p =>
        (some p.1, ⟨p.2.1, by have := p.2.2; simp only [List.length_cons]; omega⟩)
    else some (none, ⟨c :: t, Nat.le_refl _⟩)

/-- A number without its sign. -/
def unsigned (isNegative : Bool) : Reader Numeral := fun s =>
  match integerPart s with
  | none => none
  | some (integer, r) =>
    match optionalPart ['.'] digits r.1 with
    | none => none
    | some (fraction, q) =>
      (optionalPart ['e', 'E'] signedDigits q.1).map fun p =>
        (⟨isNegative, integer, fraction, p.1⟩,
          ⟨p.2.1, by have := p.2.2; have := q.2; have := r.2; omega⟩)

/-- A number with its sign. -/
def numeral : Reader Numeral
  | '-' :: s => (unsigned true s).map fun p => (p.1, (Rest.tail '-' s).andThen p.2)
  | s => unsigned false s

/-- A number; it has to be in range, unless it is skipped. -/
def finite (skipped : Bool) : Reader Json := fun s =>
  match numeral s with
  | none => none
  | some (w, r) => if skipped || isFinite w.number then some (.number w.number, r) else none

/-! ## Values -/

/-- The given word, as a value. -/
def literal (w : String) (v : Json) : Reader Json := fun s =>
  match word w.toList s with
  | some r => if h : r.1.length < s.length then some (v, ⟨r.1, h⟩) else none
  | none => none

/-- A value that holds no other value. -/
def scalar (skipped : Bool) : Reader Json := fun s =>
  match s.head? with
  | some 'n' => literal "null" null s
  | some 't' => literal "true" (bool true) s
  | some 'f' => literal "false" (bool false) s
  | some '"' => (stringLiteral skipped).map string s
  | _ => finite skipped s

/-- A name, a colon and a value of which the name decides how it is read. -/
def field {α : Type} (read : String → Reader α) : Reader (String × α) :=
  skipping isSpace <| (stringLiteral false).followedBy fun name =>
    (skipping isSpace (character ':')).followedBy fun _ =>
      (skipping isSpace (read name)).map fun a => (name, a)

/-- A value, with containers at most the given number of levels deep. -/
def valueWithin (skipped : Bool) : Nat → Reader Json
  | 0 => skipping isSpace (scalar skipped)
  | depth + 1 =>
    skipping isSpace fun s =>
      match s with
      | '[' :: t =>
        (enclosed isSpace ']' (valueWithin skipped depth) t).map fun p =>
          (array p.1, (Rest.tail '[' t).andThen p.2)
      | '{' :: t =>
        (enclosed isSpace '}' (skippedField skipped (valueWithin skipped depth)) t).map fun p =>
          (object p.1, (Rest.tail '{' t).andThen p.2)
      | s => scalar skipped s
where
  skippedField (skipped : Bool) (value : Reader Json) : Reader (String × Json) :=
    skipping isSpace <| (stringLiteral skipped).followedBy fun name =>
      (skipping isSpace (character ':')).followedBy fun _ =>
        value.map fun v => (name, v)

/-- How many levels of containers a text may have. -/
def maxDepth : Nat := 127

/-- A value with containers at most the given number of levels deep. -/
def value (depth : Nat) : Reader Json := valueWithin false depth

/-- A value of which only the shape matters. -/
def ignored : Reader Json := fun s => valueWithin true s.length s

/-- Applies a reader to a whole text; only white space may follow. -/
def only {α : Type} (read : Reader α) (text : String) : Option α :=
  match read text.toList with
  | some (a, r) => if r.1.all isSpace then some a else none
  | none => none

end DocAudit.Json
