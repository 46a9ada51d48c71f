import DocAudit.Console.Lines
/-!
# The printed summary

The summary of a run is printed as a line, plain or styled, or as a part of a JSON document. In
each case its three numbers can be read off.

* `Summarises`: the printed lines end with a summary.
* `Layout`: the ways to print a summary.
* **`append_repr_inj`**: a number at the end of a text can be read off.
* **`Summarises.unique`**: printed lines have at most one summary.
-/

namespace DocAudit

/-! ## Reading numbers off a text -/

/-- A text does not end with a digit. -/
def NoDigitAtEnd (s : String) : Prop := s.toList.getLast?.all Char.isDigit = false

instance (s : String) : Decidable (NoDigitAtEnd s) := inferInstanceAs (Decidable (_ = _))

theorem NoDigitAtEnd.append (u : String) {s : String} (h : NoDigitAtEnd s) :
    NoDigitAtEnd (u ++ s) := by
  unfold NoDigitAtEnd at h ⊢
  rw [String.toList_append, List.getLast?_append]
  cases hs : s.toList.getLast? with
  | none => rw [hs] at h; cases h
  | some c => rw [hs] at h; exact h

theorem takeWhile_reverse_append_repr {u : String} (hu : NoDigitAtEnd u) (n : Nat) :
    (u ++ n.repr).toList.reverse.takeWhile Char.isDigit = n.repr.toList.reverse := by
  have hdigits : ∀ c ∈ n.repr.toList.reverse, c.isDigit = true := by
    intro c hc
    rw [List.mem_reverse, Nat.toList_repr] at hc
    exact Nat.isDigit_of_mem_toDigits (by omega) (by omega) hc
  rw [String.toList_append, List.reverse_append, List.takeWhile_append_of_pos hdigits]
  unfold NoDigitAtEnd at hu
  rw [← List.head?_reverse] at hu
  cases h : u.toList.reverse with
  | nil => rw [h] at hu; cases hu
  | cons c cs =>
    rw [h] at hu
    rw [List.takeWhile_cons_of_neg (by simpa using hu), List.append_nil]

/-- **A number at the end of a text can be read off.** -/
theorem append_repr_inj {u v : String} (hu : NoDigitAtEnd u) (hv : NoDigitAtEnd v) {n m : Nat}
    (h : u ++ n.repr = v ++ m.repr) : u = v ∧ n = m := by
  -- both texts end with the digits of their numbers and no further ones
  have hdigits : n.repr.toList.reverse = m.repr.toList.reverse := by
    rw [← takeWhile_reverse_append_repr hu, h, takeWhile_reverse_append_repr hv]
  rw [List.reverse_inj, Nat.toList_repr, Nat.toList_repr] at hdigits
  obtain rfl : n = m := by
    rw [← @Nat.ofDigitChars_ten_toDigits n, hdigits, Nat.ofDigitChars_ten_toDigits]
  exact ⟨(String.append_left_inj _).mp h, rfl⟩

/-! ## The printed summary -/

/-- The printed lines end with a summary: with its line, or they are a JSON document with it. -/
inductive Summarises : List String → Totals → Prop where
  | line (before : List String) (t : Totals) (color : Bool) :
      Summarises (before ++ [(Console.summaryLine t).render color]) t
  | document (results : List Json) (t : Totals) :
      Summarises
        [(Json.object [("results", .array results), ("summary", t.toJson)]).pretty] t

/-- The ways to print a summary. -/
inductive Layout where
  | plain
  | styled
  | document

namespace Layout

/-- The first character of what is printed. -/
def first : Layout → Char
  | plain => '—'
  | styled => '\x1b'
  | document => '\x7b'

def afterLibraries : Layout → String
  | plain | styled => " failed="
  | document => ",\n    \"failed\": "

def afterFailed : Layout → String
  | plain | styled => " errors="
  | document => ",\n    \"errors\": "

def afterErrors : Layout → String
  | plain => ""
  | styled => "\x1b[0m"
  | document => "\n  \x7d\n\x7d"

/-- The numbers of a summary, behind what is printed before them. -/
def print (l : Layout) (before : String) (t : Totals) : String :=
  before ++ t.libraries.repr ++ l.afterLibraries ++ t.failed.repr ++ l.afterFailed ++
    t.errors.repr ++ l.afterErrors

theorem first_inj {l l' : Layout} (h : l.first = l'.first) : l = l' := by
  cases l <;> cases l' <;> first | rfl | exact absurd h (by decide)

theorem noDigitAtEnd_afterLibraries (l : Layout) : NoDigitAtEnd l.afterLibraries := by
  cases l <;> decide

theorem noDigitAtEnd_afterFailed (l : Layout) : NoDigitAtEnd l.afterFailed := by
  cases l <;> decide

variable {l : Layout} {before before' : String} {t t' : Totals}

theorem head?_print {c : Char} (h : before.toList.head? = some c) :
    (l.print before t).toList.head? = some c := by
  simp only [print, String.toList_append, List.head?_append, h, Option.some_or]

/-- The numbers are read from the last one to the first. -/
theorem print_inj (hbefore : NoDigitAtEnd before) (hbefore' : NoDigitAtEnd before')
    (h : l.print before t = l.print before' t') : t = t' := by
  have hlibraries := l.noDigitAtEnd_afterLibraries
  have hfailed := l.noDigitAtEnd_afterFailed
  unfold print at h
  rw [String.append_left_inj] at h
  obtain ⟨h, herrors⟩ := append_repr_inj (hfailed.append _) (hfailed.append _) h
  rw [String.append_left_inj] at h
  obtain ⟨h, hfailed⟩ := append_repr_inj (hlibraries.append _) (hlibraries.append _) h
  rw [String.append_left_inj] at h
  obtain ⟨-, hlibraries⟩ := append_repr_inj hbefore hbefore' h
  cases t
  congr

end Layout

theorem Json.quoted_of_plain {s : String} (h : s.toList.flatMap escaped = s.toList) :
    quoted s = "\"" ++ s ++ "\"" := by
  apply String.toList_inj.mp
  simp [quoted, h]

theorem plain_summaryLine (t : Totals) : (Console.summaryLine t).render false =
    Layout.plain.print "— Summary — libraries=" t := by
  apply String.toList_inj.mp
  simp [Console.summaryLine, Console.Line.render, Console.Line.plain, String.join, Layout.print,
    Layout.afterLibraries, Layout.afterFailed, Layout.afterErrors]

theorem styled_summaryLine (t : Totals) : (Console.summaryLine t).render true =
    Layout.styled.print "\x1b[1m— Summary — libraries=" t := by
  apply String.toList_inj.mp
  simp [Console.summaryLine, Console.Line.render, Console.Line.styled, Console.Span.styled,
    Console.Style.wrap, Console.Style.sequence, Console.Style.on, Console.Style.off, String.join,
    Layout.print, Layout.afterLibraries, Layout.afterFailed, Layout.afterErrors]

theorem pretty_document (results : Json) (t : Totals) :
    (Json.object [("results", results), ("summary", t.toJson)]).pretty =
      Layout.document.print ("\x7b\n  \"results\": " ++ results.prettyFrom "  " ++
        ",\n  \"summary\": \x7b\n    \"libraries\": ") t := by
  apply String.toList_inj.mp
  simp (disch := decide) [Json.pretty, Json.prettyFrom, Json.block, Json.prettyFields, Json.nat,
    Json.atom, JsonNumber.text, Json.quoted_of_plain, Totals.toJson,
    String.intercalate_cons_cons, Layout.print, Layout.afterLibraries, Layout.afterFailed,
    Layout.afterErrors]

theorem Summarises.print_eq {lines : List String} {t : Totals} (h : Summarises lines t) :
    ∃ (l : Layout) (before : String), before.toList.head? = some l.first ∧ NoDigitAtEnd before ∧
      lines.getLast? = some (l.print before t) := by
  cases h with
  | line before t color =>
    rw [List.getLast?_concat]
    cases color with
    | false => exact ⟨.plain, _, by decide, by decide, congrArg some (plain_summaryLine t)⟩
    | true => exact ⟨.styled, _, by decide, by decide, congrArg some (styled_summaryLine t)⟩
  | document results t =>
    refine ⟨.document, _, ?_, NoDigitAtEnd.append _ (by decide),
      congrArg some (pretty_document (.array results) t)⟩
    rw [String.append_assoc, String.toList_append]
    rfl

/-- **Printed lines have at most one summary.** Its numbers can be read off. -/
theorem Summarises.unique {lines : List String} {t t' : Totals} (h : Summarises lines t)
    (h' : Summarises lines t') : t = t' := by
  obtain ⟨l, before, hfirst, hend, hlast⟩ := h.print_eq
  obtain ⟨l', before', hfirst', hend', hlast'⟩ := h'.print_eq
  have htext : l.print before t = l'.print before' t' := Option.some.inj (hlast.symm.trans hlast')
  obtain rfl : l = l' := by
    have hhead := Layout.head?_print (l := l) (t := t) hfirst
    rw [htext, Layout.head?_print hfirst'] at hhead
    exact Layout.first_inj (Option.some.inj hhead).symm
  exact Layout.print_inj hend hend' htext

theorem not_summarises_nil (t : Totals) : ¬ Summarises [] t := by
  intro h
  obtain ⟨l, before, -, -, hlast⟩ := h.print_eq
  cases hlast

end DocAudit
