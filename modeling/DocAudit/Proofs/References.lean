import DocAudit.Xml.Scan
import Mathlib.Tactic.IntervalCases
/-!
# What references stand for

A reference stands for one character. It has a name for it, or the number of the character, with
digits to the base ten or sixteen.

* `Numeral`: the digits of a number, first ones first.
* `Refers`: the texts between `&` and `;` that stand for a character.
* **`Refers.resolve`**: such a text is resolved to its character.
-/

namespace DocAudit.Xml

/-! ## Numbers -/

/-- A digit of a number, which may be a letter of either case. -/
def IsDigit (d : Nat) (c : Char) : Prop := c = Nat.digitChar d ∨ c = (Nat.digitChar d).toUpper

/-- The digits of a number; zeros may stand at the start. -/
inductive Numeral (base : Nat) : Nat → List Char → Prop
  | digit {d : Nat} {c : Char} (hd : d < base) (hc : IsDigit d c) : Numeral base d [c]
  | append {n d : Nat} {cs : List Char} {c : Char} (h : Numeral base n cs) (hd : d < base)
      (hc : IsDigit d c) : Numeral base (n * base + d) (cs ++ [c])

section

variable {base n d : Nat} {c : Char} {cs : List Char}

theorem digitValue?_of_isDigit (hbase : base ≤ 16) (hd : d < base) (hc : IsDigit d c) :
    digitValue? base c = some d := by
  have hsixteen : d < 16 := by omega
  unfold digitValue?
  interval_cases d <;> rcases hc with rfl | rfl <;> exact if_pos hd

theorem IsDigit.plain (hd : d < 16) (hc : IsDigit d c) : isXmlChar c = true ∧ c ≠ ';' := by
  interval_cases d <;> rcases hc with rfl | rfl <;> decide

namespace Numeral

theorem ne_nil (h : Numeral base n cs) : cs ≠ [] := by
  cases h with
  | digit => exact List.cons_ne_nil _ _
  | append => exact List.concat_ne_nil _ _

theorem isDigit_of_mem (h : Numeral base n cs) (hc : c ∈ cs) : ∃ d < base, IsDigit d c := by
  induction h with
  | digit hd hdigit =>
    obtain rfl := List.mem_singleton.mp hc
    exact ⟨_, hd, hdigit⟩
  | append _ hd hdigit ih =>
    rcases List.mem_append.mp hc with hc | hc
    · exact ih hc
    · obtain rfl := List.mem_singleton.mp hc
      exact ⟨_, hd, hdigit⟩

theorem foldlM_eq (hbase : base ≤ 16) (h : Numeral base n cs) :
    cs.foldlM (fun n c => (digitValue? base c).map (n * base + ·)) 0 = some n := by
  induction h with
  | digit hd hc =>
    rw [List.foldlM_cons, digitValue?_of_isDigit hbase hd hc]
    simp
  | append _ hd hc ih =>
    rw [List.foldlM_append, ih, Option.bind_eq_bind, Option.bind_some, List.foldlM_cons,
      digitValue?_of_isDigit hbase hd hc]
    simp

/-- **The digits of a number are read as this number.** -/
theorem codePoint?_eq (hbase : base ≤ 16) (hn : n < UInt32.size) (h : Numeral base n cs) :
    codePoint? base cs = some n := by
  unfold codePoint?
  split
  · exact absurd rfl h.ne_nil
  · rw [h.foldlM_eq hbase, Option.bind_some, if_pos hn]

end Numeral

end

/-! ## References -/

/-- The texts between `&` and `;` that stand for a character. -/
inductive Refers : Char → List Char → Prop
  | ampersand : Refers '&' ['a', 'm', 'p']
  | less : Refers '<' ['l', 't']
  | greater : Refers '>' ['g', 't']
  | quote : Refers '"' ['q', 'u', 'o', 't']
  | apostrophe : Refers '\'' ['a', 'p', 'o', 's']
  | decimal {c : Char} {cs : List Char} (h : Numeral 10 c.toNat cs) : Refers c ('#' :: cs)
  | hexadecimal {c : Char} {cs : List Char} (h : Numeral 16 c.toNat cs) :
      Refers c ('#' :: 'x' :: cs)

theorem referredChar?_toNat {c : Char} (hc : isXmlChar c = true) :
    referredChar? c.toNat = some c := by
  have hvalid : c.toNat.isValidChar := c.valid
  rw [referredChar?, if_pos hvalid, Char.ofNat_toNat, if_pos hc]

theorem toNat_lt_size (c : Char) : c.toNat < UInt32.size := c.val.toNat_lt

namespace Refers

variable {c : Char} {name : List Char}

/-- **What stands for a character is resolved to it.** -/
theorem resolve (h : Refers c name) (hc : isXmlChar c = true) : resolveReference name = some c := by
  cases h with
  | ampersand | less | greater | quote | apostrophe => rfl
  | decimal h =>
    have hx (cs : List Char) : ¬ Numeral 10 c.toNat ('x' :: cs) := fun h => by
      obtain ⟨d, hd, hdigit⟩ := h.isDigit_of_mem List.mem_cons_self
      have hnone : digitValue? 10 'x' = none := rfl
      rw [digitValue?_of_isDigit (by decide) hd hdigit] at hnone
      cases hnone
    rw [resolveReference, h.codePoint?_eq (by decide) (toNat_lt_size c), Option.bind_some,
      referredChar?_toNat hc]
    rintro cs rfl
    exact hx cs h
  | hexadecimal h =>
    rw [resolveReference, h.codePoint?_eq (by decide) (toNat_lt_size c), Option.bind_some,
      referredChar?_toNat hc]

theorem plain (h : Refers c name) : ∀ d ∈ name, isXmlChar d = true ∧ d ≠ ';' := by
  have hdigits {base n : Nat} {cs : List Char} (hbase : base ≤ 16) (h : Numeral base n cs) :
      ∀ d ∈ cs, isXmlChar d = true ∧ d ≠ ';' := fun d hd => by
    obtain ⟨v, hv, hdigit⟩ := h.isDigit_of_mem hd
    exact hdigit.plain (by omega)
  have hletters {cs : List Char} (h : (cs.all fun d => isXmlChar d && d != ';') = true) :
      ∀ d ∈ cs, isXmlChar d = true ∧ d ≠ ';' := by
    simpa using h
  cases h with
  | ampersand | less | greater | quote | apostrophe => exact hletters rfl
  | decimal h => exact List.forall_mem_cons.mpr ⟨by decide, hdigits (by decide) h⟩
  | hexadecimal h =>
    exact List.forall_mem_cons.mpr
      ⟨by decide, List.forall_mem_cons.mpr ⟨by decide, hdigits (by decide) h⟩⟩

end Refers

end DocAudit.Xml
