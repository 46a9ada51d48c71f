/-!
# Patterns for file names

A pattern is a text with wildcards: `?` stands for one character, `*` for any characters, `[…]` for
one character of a class and `[!…]` for one outside of it. `**` stands for directories at any depth
and has to be alone between slashes.

* `Pattern.ofText?`: the pattern in a text without slashes.
* `isValid`: whether a text with slashes is a pattern.
* `Pattern.matches`: whether a name is one that the pattern stands for.
-/

namespace DocAudit.Glob

/-- A part of a character class: the characters from one to another. -/
structure CharRange where
  first : Char
  last : Char
deriving DecidableEq, Repr

def CharRange.contains (r : CharRange) (c : Char) : Bool := r.first ≤ c && c ≤ r.last

/-- A part of a pattern. -/
inductive Token where
  | literal (c : Char)
  | anyChar
  | anyChars
  /-- The two asterisks that stand for directories at any depth. -/
  | anyDirectories
  | oneOf (ranges : List CharRange)
  | noneOf (ranges : List CharRange)
deriving DecidableEq, Repr

/-- A pattern for one name. -/
abbrev Pattern := List Token

/-! ## Reading patterns -/

/-- The ranges in a class; a hyphen at one of its ends stands for itself. -/
def rangesOf : List Char → List CharRange
  | [] => []
  | a :: '-' :: b :: cs => ⟨a, b⟩ :: rangesOf cs
  | a :: cs => ⟨a, a⟩ :: rangesOf cs

/-- The members of a class up to the closing bracket, and what follows. A bracket at the first
place is a member. -/
def classBody (cs : List Char) : Option (List CharRange × List Char) :=
  match cs with
  | [] => none
  | c :: cs =>
    match cs.dropWhile (· ≠ ']') with
    | _ :: rest => some (rangesOf (c :: cs.takeWhile (· ≠ ']')), rest)
    | [] => none

/-- A class behind its opening bracket, and what follows. -/
def readClass : List Char → Option (Token × List Char)
  | '!' :: cs => (classBody cs).map fun p => (.noneOf p.1, p.2)
  | cs => (classBody cs).map fun p => (.oneOf p.1, p.2)

theorem length_of_classBody {cs : List Char} {p : List CharRange × List Char}
    (h : classBody cs = some p) : p.2.length < cs.length := by
  cases cs with
  | nil => simp [classBody] at h
  | cons c cs =>
    simp only [classBody] at h
    split at h
    · rename_i d rest hs
      obtain rfl := Option.some.inj h
      have := (List.dropWhile_sublist (· ≠ ']') (l := cs)).length_le
      rw [hs] at this
      simp only [List.length_cons] at this ⊢
      omega
    · simp at h

theorem length_of_readClass {cs : List Char} {p : Token × List Char}
    (h : readClass cs = some p) : p.2.length < cs.length := by
  unfold readClass at h
  split at h <;> simp only [Option.map_eq_some_iff] at h <;> obtain ⟨q, hq, rfl⟩ := h
  · exact Nat.lt_succ_of_lt (length_of_classBody hq)
  · exact length_of_classBody hq

/-- The tokens of a text. `atStart` tells whether the text so far is empty or ends in a slash,
where `**` may stand. -/
def tokens? (atStart : Bool) (cs : List Char) : Option (List Token) :=
  match cs with
  | [] => some []
  | '?' :: cs => (tokens? false cs).map (.anyChar :: ·)
  | '*' :: '*' :: '*' :: _ => none
  | '*' :: '*' :: cs =>
    if atStart then
      match cs with
      | [] => some [.anyDirectories]
      | '/' :: cs => (tokens? true cs).map (.anyDirectories :: ·)
      | _ => none
    else none
  | '*' :: cs => (tokens? false cs).map (.anyChars :: ·)
  | '[' :: cs =>
    match h : readClass cs with
    | none => none
    | some (token, rest) =>
      have : rest.length < cs.length := length_of_readClass h
      (tokens? false rest).map (token :: ·)
  | c :: cs => (tokens? (c = '/') cs).map (.literal c :: ·)
termination_by cs.length
decreasing_by all_goals simp only [List.length_cons]; omega

/-- Whether a text is a pattern. -/
def isValid (text : String) : Bool := (tokens? true text.toList).isSome

/-- The pattern in a text without slashes. -/
def Pattern.ofText? (text : String) : Option Pattern := tokens? true text.toList

/-! ## Matching names -/

/-- Whether a token stands for a single character. -/
def Token.accepts (c : Char) : Token → Bool
  | literal d => c = d
  | anyChar => true
  | oneOf ranges => ranges.any (·.contains c)
  | noneOf ranges => !ranges.any (·.contains c)
  | anyChars | anyDirectories => false

/-- The character that a token stands for literally. -/
def Token.char? : Token → Option Char
  | literal c => some c
  | _ => none

/-- The ends of a text, the longest first. -/
def suffixes : List Char → List (List Char)
  | [] => [[]]
  | c :: cs => (c :: cs) :: suffixes cs

namespace Pattern

/-- Whether the tokens stand for all the characters. -/
def matchesChars : List Token → List Char → Bool
  | [], cs => cs.isEmpty
  | .anyChars :: ts, cs => (suffixes cs).any (matchesChars ts)
  | t :: ts, c :: cs => t.accepts c && matchesChars ts cs
  | _ :: _, [] => false

/-- Whether a name is one that the pattern stands for. -/
def «matches» (p : Pattern) (name : String) : Bool := matchesChars p name.toList

/-- Whether the pattern is `**`. -/
def isRecursive (p : Pattern) : Bool := p = [.anyDirectories]

/-- The only name that the pattern stands for, if it has no wildcards. -/
def literal? (p : Pattern) : Option String :=
  (p.mapM Token.char?).map String.ofList

/-- Whether the pattern starts with a dot; only then it stands for `.` and `..`, too. -/
def opensWithDot (p : Pattern) : Bool := p.head? = some (.literal '.')

end Pattern

end DocAudit.Glob
