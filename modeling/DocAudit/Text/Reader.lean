/-!
# Reading from the front of a text

A `Reader` takes something from the front of a list of characters and returns what is left. The
rest is always shorter, so a reader can call itself on it.

* `Rest`: what is left, with the proof that it is shorter.
* `Rest.weaken`: the same rest, seen from a longer text.
* `separated`: items between separators, up to a closing character.
-/

namespace DocAudit.Text

/-- What is left of a text after something was taken from its front. -/
abbrev Rest (s : List Char) := {r : List Char // r.length < s.length}

/-- Takes one item from the front of a text. -/
abbrev Reader (α : Type) := (s : List Char) → Option (α × Rest s)

/-- A rest is also a rest of every text that is at least as long. -/
def Rest.weaken {s t : List Char} (r : Rest s) (h : s.length ≤ t.length) : Rest t :=
  ⟨r.1, Nat.lt_of_lt_of_le r.2 h⟩

/-- The rest after a first character. -/
def Rest.tail (c : Char) (s : List Char) : Rest (c :: s) := ⟨s, Nat.lt_succ_self _⟩

/-- The rest of a rest. -/
def Rest.andThen {s : List Char} (r : Rest s) (q : Rest r.1) : Rest s :=
  ⟨q.1, Nat.lt_trans q.2 r.2⟩

theorem length_dropWhile_le (p : Char → Bool) (s : List Char) :
    (s.dropWhile p).length ≤ s.length := (List.dropWhile_sublist p).length_le

/-- A reader that first leaves out the characters of a class. -/
def skipping (p : Char → Bool) {α : Type} (read : Reader α) : Reader α := fun s =>
  match read (s.dropWhile p) with
  | some (a, r) => some (a, r.weaken (length_dropWhile_le p s))
  | none => none

/-- The given character. -/
def character (c : Char) : Reader Unit
  | [] => none
  | d :: s => if d = c then some ((), Rest.tail d s) else none

/-- Applies a function to what was read. -/
def Reader.map {α β : Type} (f : α → β) (read : Reader α) : Reader β := fun s =>
  (read s).map fun p => (f p.1, p.2)

/-- Two items in a row. -/
def Reader.followedBy {α β : Type} (first : Reader α) (next : α → Reader β) : Reader β := fun s =>
  match first s with
  | none => none
  | some (a, r) => (next a r.1).map fun p => (p.1, r.andThen p.2)

/-- The given word. -/
def word (w : List Char) (s : List Char) :
    Option {r : List Char // r.length + w.length = s.length} :=
  match w, s with
  | [], s => some ⟨s, rfl⟩
  | _ :: _, [] => none
  | c :: w, d :: s =>
    if c = d then (word w s).map fun r => ⟨r.1, by have := r.2; simp only [List.length_cons]; omega⟩
    else none

/-- One item and more behind commas, up to the closing character; blanks may stand before each
comma and before the closing character. -/
def separated {α : Type} (blank : Char → Bool) (close : Char) (item : Reader α) :
    Reader (List α) := fun s =>
  match item s with
  | none => none
  | some (a, r) =>
    match h : r.1.dropWhile blank with
    | [] => none
    | c :: q =>
      have hq : q.length < s.length := by
        have := length_dropWhile_le blank r.1
        have := r.2
        simp only [h, List.length_cons] at *
        omega
      if c = close then some ([a], ⟨q, hq⟩)
      else if c = ',' then
        (separated blank close item q).map fun p => (a :: p.1, p.2.weaken (Nat.le_of_lt hq))
      else none
termination_by s => s.length

/-- Items behind commas up to the closing character, or nothing but that character. -/
def enclosed {α : Type} (blank : Char → Bool) (close : Char) (item : Reader α) :
    Reader (List α) := fun s =>
  match skipping blank (character close) s with
  | some (_, r) => some ([], r)
  | none => separated blank close item s

end DocAudit.Text
