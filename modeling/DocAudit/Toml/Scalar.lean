import DocAudit.Toml.Value
/-!
# TOML words

Numbers, booleans, dates and times are written as words, without white space except for one space
between a date and a time.

* `wordValue?`: the value that a word stands for.
-/

namespace DocAudit.Toml

/-- Digits of a kind; single underscores may stand between them. -/
def isDigitRun (isDigit : Char → Bool) : List Char → Bool
  | [] => false
  | [c] => isDigit c
  | c :: '_' :: cs => isDigit c && isDigitRun isDigit cs
  | c :: cs => isDigit c && isDigitRun isDigit cs

def isOctal (c : Char) : Bool := '0' ≤ c && c ≤ '7'

def isBinary (c : Char) : Bool := c = '0' || c = '1'

def isHex (c : Char) : Bool := c.isDigit || ('a' ≤ c && c ≤ 'f') || ('A' ≤ c && c ≤ 'F')

def digitValue (c : Char) : Nat :=
  if c.isDigit then c.toNat - '0'.toNat
  else if 'a' ≤ c then c.toNat - 'a'.toNat + 10
  else c.toNat - 'A'.toNat + 10

/-- The number that digits stand for; underscores do not count. -/
def digitsValue (base : Nat) (cs : List Char) : Nat :=
  (cs.filter (· ≠ '_')).foldl (fun n c => n * base + digitValue c) 0

/-- The sign at the start of a word, if there is one, and the rest. -/
def splitSign : List Char → Bool × List Char
  | '-' :: cs => (true, cs)
  | '+' :: cs => (false, cs)
  | cs => (false, cs)

/-- Digits that do not start with a zero, or a zero alone. -/
def isDecimal (cs : List Char) : Bool :=
  isDigitRun Char.isDigit cs && (cs.head? ≠ some '0' || cs.length = 1)

/-- An integer. It has to fit into 128 bits, with a sign if it is negative. -/
def isInteger (cs : List Char) : Bool :=
  match cs with
  | '0' :: 'x' :: ds => isDigitRun isHex ds && digitsValue 16 ds < Nat.pow 2 128
  | '0' :: 'o' :: ds => isDigitRun isOctal ds && digitsValue 8 ds < Nat.pow 2 128
  | '0' :: 'b' :: ds => isDigitRun isBinary ds && digitsValue 2 ds < Nat.pow 2 128
  | cs =>
    let (negative, ds) := splitSign cs
    let n := digitsValue 10 ds
    isDecimal ds && if negative then n ≤ Nat.pow 2 127 else n < Nat.pow 2 128

/-- The smallest number that is rounded to an infinite double. -/
def doubleLimit : Nat := Nat.pow 2 1024 - Nat.pow 2 970

/-- Whether `digits · 10 ^ exponent` is rounded to a finite double. -/
def isFinite (digits : Nat) (exponent : Int) : Bool :=
  if digits = 0 then true
  else if exponent > 400 then false
  else if 0 ≤ exponent then digits * Nat.pow 10 exponent.toNat < doubleLimit
  else if (digits.log2 : Int) < 1000 - exponent then true
  else digits < doubleLimit * Nat.pow 10 (-exponent).toNat

/-- A finite number with a fraction, an exponent or both, or a word for another one. -/
def isFloat (cs : List Char) : Bool :=
  let (_, body) := splitSign cs
  if body = "inf".toList ∨ body = "nan".toList then true
  else
    let (mantissa, exponent) := body.span fun c => c ≠ 'e' && c ≠ 'E'
    let (whole, fraction) := mantissa.span (· ≠ '.')
    let (shrinks, exponentDigits) := splitSign (exponent.drop 1)
    let fractionDigits := fraction.drop 1
    let power : Int := digitsValue 10 exponentDigits
    (fraction ≠ [] || exponent ≠ []) && isDecimal whole &&
      (fraction = [] || isDigitRun Char.isDigit fractionDigits) &&
      (exponent = [] || isDigitRun Char.isDigit exponentDigits) &&
      isFinite (digitsValue 10 (whole ++ fractionDigits))
        ((if shrinks then -power else power) - (fractionDigits.filter (· ≠ '_')).length)

/-- The number of two digits, if it is at most a limit. -/
def twoDigits? (least most : Nat) (a b : Char) : Option Nat :=
  if a.isDigit ∧ b.isDigit then
    let n := digitValue a * 10 + digitValue b
    if least ≤ n ∧ n ≤ most then some n else none
  else none

/-- How many days a month has. -/
def daysIn (year month : Nat) : Nat :=
  if month = 2 then
    if year % 4 = 0 ∧ (year % 100 ≠ 0 ∨ year % 400 = 0) then 29 else 28
  else if month = 4 ∨ month = 6 ∨ month = 9 ∨ month = 11 then 30
  else 31

/-- What follows a date at the start of a word. -/
def afterDate? : List Char → Option (List Char)
  | y1 :: y2 :: y3 :: y4 :: '-' :: m1 :: m2 :: '-' :: d1 :: d2 :: rest =>
    match twoDigits? 0 99 y1 y2, twoDigits? 0 99 y3 y4, twoDigits? 1 12 m1 m2 with
    | some century, some year, some month =>
      (twoDigits? 1 (daysIn (century * 100 + year) month) d1 d2).map fun _ => rest
    | _, _, _ => none
  | _ => none

/-- What follows seconds at the start of a word; they may have a fraction. -/
def afterSeconds? : List Char → Option (List Char)
  | s1 :: s2 :: rest =>
    (twoDigits? 0 60 s1 s2).bind fun _ =>
      match rest with
      | '.' :: fraction =>
        if (fraction.takeWhile Char.isDigit) = [] then none
        else some (fraction.dropWhile Char.isDigit)
      | rest => some rest
  | _ => none

/-- What follows a time at the start of a word; it may do without seconds. -/
def afterTime? : List Char → Option (List Char)
  | h1 :: h2 :: ':' :: m1 :: m2 :: rest =>
    match twoDigits? 0 23 h1 h2, twoDigits? 0 59 m1 m2 with
    | some _, some _ =>
      match rest with
      | ':' :: seconds => afterSeconds? seconds
      | rest => some rest
    | _, _ => none
  | _ => none

/-- Nothing, or the difference to universal time. -/
def isOffset : List Char → Bool
  | [] | ['Z'] | ['z'] => true
  | [sign, h1, h2, ':', m1, m2] =>
    (sign = '+' || sign = '-') && (twoDigits? 0 23 h1 h2).isSome && (twoDigits? 0 59 m1 m2).isSome
  | _ => false

/-- A date, a time, or both with or without the difference to universal time. -/
def isMoment (cs : List Char) : Bool :=
  match afterDate? cs with
  | some [] => true
  | some (mark :: rest) =>
    (mark = 'T' || mark = 't' || mark = ' ') &&
      match afterTime? rest with
      | some offset => isOffset offset
      | none => false
  | none => afterTime? cs = some []

/-- The value that a word stands for. -/
def wordValue? (cs : List Char) : Option Value :=
  if cs = "true".toList then some (.boolean true)
  else if cs = "false".toList then some (.boolean false)
  else if isMoment cs then some .moment
  else if isInteger cs || isFloat cs then some .number
  else none

end DocAudit.Toml
