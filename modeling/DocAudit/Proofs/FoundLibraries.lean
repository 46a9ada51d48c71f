import DocAudit.Proofs.RepeatedLibraries
import Mathlib.Data.List.Forall2
/-!
# Which libraries are found

A pattern without wildcards stands for one path, whether or not something is there; a glob stands
for the paths to which it leads. All of them are found, and nothing else is. A glob that leads
nowhere is told as unmatched.

* `Glob.paths`: the paths to which a text leads as a glob.
* `newEntries`: a list without the entries that repeat the one right before them;
  **`eraseReps_eq_newEntries`**: this is what is left when neighbours are merged.
* `Expansion.StandsFor`: the paths that a pattern stands for, in their order.
* **`libraries_found_iff`**: what is found and what is unmatched.
-/

namespace DocAudit

/-- The paths to which a text leads as a glob; a text that is no glob leads nowhere. -/
def Glob.paths (disk : Disk) (text : String) : List Path :=
  match ofText? text with
  | some g => g.search disk
  | none => []

/-! ## Entries that repeat the one before -/

/-- The entries that are not the same as the one right before them; `previous` is the one before the
first. -/
def newEntries (previous : Option Path) : List Path → List Path
  | [] => []
  | p :: l =>
    if previous.any (·.same p) then newEntries (some p) l else p :: newEntries (some p) l

/-- What follows an entry is compared with it until something new comes; as all that was left out is
the same as the entry, it makes no difference to compare with the last one left out. -/
theorem newEntries_some (p : Path) (l : List Path) :
    newEntries (some p) l = (l.dropWhile p.same).eraseRepsBy Path.same := by
  induction l generalizing p with
  | nil => rfl
  | cons q l ih =>
    rw [newEntries, Option.any_some, ih]
    by_cases h : p.same q = true
    · rw [if_pos h, List.dropWhile_cons_of_pos h, Path.same_congr h]
    · rw [if_neg h, List.dropWhile_cons_of_neg h, eraseRepsBy_cons]

/-- **Merging neighbours leaves out the entries that repeat the one right before them.** -/
theorem eraseReps_eq_newEntries (l : List Path) :
    l.eraseRepsBy Path.same = newEntries none l := by
  cases l with
  | nil => rfl
  | cons p l =>
    rw [eraseRepsBy_cons, newEntries, Option.any_none, if_neg Bool.false_ne_true, newEntries_some]

/-! ## One pattern -/

namespace Expansion

variable (disk : Disk) (root : Path)

/-- The paths that a pattern stands for: the one it spells, or those to which it leads, in ascending
order. -/
def StandsFor (pattern : String) (paths : List Path) : Prop :=
  if hasWildcard pattern then
    paths.Perm (Glob.paths disk (root.join ⟨pattern⟩).text) ∧
      paths.Pairwise fun p q => p.le q = true
  else paths = [root.join ⟨pattern⟩]

variable {disk root} {pattern : String}

theorem ofPattern_of_plain (h : hasWildcard pattern = false) :
    ofPattern disk root pattern = { found := [root.join ⟨pattern⟩] } := by
  rw [ofPattern, h]
  rfl

theorem ofPattern_of_hasWildcard (h : hasWildcard pattern = true) :
    (ofPattern disk root pattern).found.Perm (Glob.paths disk (root.join ⟨pattern⟩).text) ∧
      (ofPattern disk root pattern).unmatched =
        if Glob.paths disk (root.join ⟨pattern⟩).text = [] then [pattern] else [] := by
  unfold ofPattern Glob.paths
  simp only [h, Bool.not_true, Bool.false_eq_true, if_false]
  cases Glob.ofText? (root.join ⟨pattern⟩).text with
  | none => exact ⟨.refl _, rfl⟩
  | some g =>
    have hperm := List.mergeSort_perm (g.search disk) Path.le
    dsimp only
    cases hsorted : (g.search disk).mergeSort Path.le with
    | nil =>
      rw [hsorted] at hperm
      exact ⟨hperm, (if_pos hperm.nil_eq.symm).symm⟩
    | cons p found =>
      rw [hsorted] at hperm
      refine ⟨hperm, (if_neg fun hnil => ?_).symm⟩
      rw [hnil] at hperm
      exact List.cons_ne_nil _ _ hperm.eq_nil

theorem standsFor_ofPattern (pattern : String) :
    StandsFor disk root pattern (ofPattern disk root pattern).found := by
  unfold StandsFor
  by_cases h : hasWildcard pattern = true
  · rw [if_pos h]
    exact ⟨(ofPattern_of_hasWildcard h).1, sorted_ofPattern disk root pattern⟩
  · rw [if_neg h, ofPattern_of_plain (Bool.eq_false_iff.mpr h)]

theorem unmatched_ofPattern (pattern : String) :
    (ofPattern disk root pattern).unmatched =
      if hasWildcard pattern && (Glob.paths disk (root.join ⟨pattern⟩).text).isEmpty then [pattern]
      else [] := by
  by_cases h : hasWildcard pattern = true
  · rw [(ofPattern_of_hasWildcard h).2, h, Bool.true_and]
    simp only [List.isEmpty_iff]
  · rw [Bool.not_eq_true] at h
    rw [ofPattern_of_plain h, h]
    rfl

theorem mem_found_ofPattern_iff {q : Path} :
    q ∈ (ofPattern disk root pattern).found ↔
      hasWildcard pattern = false ∧ q = root.join ⟨pattern⟩ ∨
        hasWildcard pattern = true ∧ q ∈ Glob.paths disk (root.join ⟨pattern⟩).text := by
  cases h : hasWildcard pattern with
  | false =>
    rw [ofPattern_of_plain h]
    simp
  | true =>
    rw [(ofPattern_of_hasWildcard h).1.mem_iff]
    simp

/-! ## All patterns -/

theorem unmatched_ofPatterns (patterns : List String) :
    (ofPatterns disk root patterns).unmatched = patterns.filter fun pattern =>
      hasWildcard pattern && (Glob.paths disk (root.join ⟨pattern⟩).text).isEmpty := by
  show (patterns.map (ofPattern disk root)).flatMap (·.unmatched) = _
  rw [List.flatMap_map]
  induction patterns with
  | nil => rfl
  | cons pattern patterns ih =>
    rw [List.flatMap_cons, ih, unmatched_ofPattern, List.filter_cons]
    split <;> rfl

theorem exists_same_found_iff {patterns : List String} {p : Path} :
    (∃ q ∈ (ofPatterns disk root patterns).found, q.same p = true) ↔
      ∃ pattern ∈ patterns, ∃ q ∈ (ofPattern disk root pattern).found, q.same p = true := by
  rw [found_ofPatterns]
  constructor
  · rintro ⟨q, hq, hsame⟩
    obtain ⟨pattern, hpattern, hq⟩ := List.mem_flatMap.mp (mem_of_mem_eraseReps hq)
    exact ⟨pattern, hpattern, q, hq, hsame⟩
  · rintro ⟨pattern, hpattern, q, hq, hsame⟩
    have hlisted : q ∈ patterns.flatMap fun pattern => (ofPattern disk root pattern).found :=
      List.mem_flatMap.mpr ⟨pattern, hpattern, hq⟩
    obtain ⟨r, hr, hqr⟩ := exists_same_mem_eraseReps hlisted
    refine ⟨r, hr, ?_⟩
    rwa [Path.same_congr hqr] at hsame

/-- **Patterns find what they stand for, and nothing else.** What is found is listed pattern by
pattern, and the paths to which one glob leads in ascending order; only entries that repeat the one
right before them are left out. So a path is found exactly if a pattern without wildcards spells it
or a glob leads to it. Unmatched are the globs that lead nowhere, in their order and as often as
they are given. -/
theorem libraries_found_iff (disk : Disk) (root : Path) (patterns : List String) :
    let e := ofPatterns disk root patterns
    (∃ blocks, List.Forall₂ (StandsFor disk root) patterns blocks ∧
      e.found = newEntries none blocks.flatten) ∧
    (∀ p, (∃ q ∈ e.found, q.same p = true) ↔
      (∃ pattern ∈ patterns, hasWildcard pattern = false ∧
        (root.join ⟨pattern⟩).same p = true) ∨
      ∃ pattern ∈ patterns, hasWildcard pattern = true ∧
        ∃ q ∈ Glob.paths disk (root.join ⟨pattern⟩).text, q.same p = true) ∧
    e.unmatched = patterns.filter fun pattern =>
      hasWildcard pattern && (Glob.paths disk (root.join ⟨pattern⟩).text).isEmpty := by
  intro e
  refine ⟨⟨patterns.map fun pattern => (ofPattern disk root pattern).found, ?_, ?_⟩,
    fun p => ?_, unmatched_ofPatterns patterns⟩
  · rw [List.forall₂_map_right_iff, List.forall₂_same]
    exact fun pattern _ => standsFor_ofPattern pattern
  · rw [← eraseReps_eq_newEntries]
    exact (found_ofPatterns disk root patterns).trans (congrArg _ List.flatMap_def)
  · rw [exists_same_found_iff]
    simp only [mem_found_ofPattern_iff, or_and_right, and_assoc, exists_or, exists_and_left,
      exists_eq_left, and_or_left]

end Expansion

end DocAudit
