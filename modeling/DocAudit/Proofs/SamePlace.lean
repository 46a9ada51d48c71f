import DocAudit.Files
/-!
# Paths that are the same lead to the same file

Two texts may spell one path: repeated slashes and dots between slashes do not count. Where both
may lead to a file at all, both lead to the same one.

* `Path.steps`: the pieces of a path that lead somewhere; `Path.steps_eq_of_same`.
* `Path.Proper`: a path as it has to be to lead to a file; `Disk.proper_of_read`.
* `Disk.walk_filter`: idle pieces lead nowhere, unless they are the last.
* **`Disk.read_eq_of_same`**: two such paths, if they are the same, have the same text.
-/

namespace DocAudit

namespace Path

/-! ## What a path spells -/

/-- The piece that a component is spelled with, if it leads somewhere. -/
def Component.piece? : Component → Option String
  | root | current => none
  | parent => some ".."
  | normal name => some name

/-- The pieces of a path that lead somewhere. -/
def steps (p : Path) : List String := p.pieces.filter fun piece => !isIdle piece

theorem isIdle_of_length {piece : String} (h : 2 ≤ piece.length) : isIdle piece = false := by
  rw [isIdle, Bool.or_eq_false_iff, decide_eq_false_iff_not, decide_eq_false_iff_not]
  constructor <;>
  · rintro rfl
    exact absurd h (by decide)

theorem piece?_component? (piece : String) :
    (component? piece).bind Component.piece? = if isIdle piece then none else some piece := by
  unfold component?
  by_cases hidle : isIdle piece = true
  · rw [if_pos hidle, if_pos hidle]
    rfl
  · rw [if_neg hidle, if_neg hidle]
    by_cases hparent : piece = ".."
    · rw [if_pos hparent, hparent]
      rfl
    · rw [if_neg hparent]
      rfl

theorem filterMap_component? (pieces : List String) :
    (pieces.filterMap component?).filterMap Component.piece? =
      pieces.filter fun piece => !isIdle piece := by
  rw [List.filterMap_filterMap, ← List.filterMap_eq_filter]
  congr 1
  funext piece
  rw [piece?_component?, Option.guard]
  cases isIdle piece <;> rfl

theorem steps_eq_filterMap (p : Path) : p.steps = p.components.filterMap Component.piece? := by
  unfold components steps
  split
  · rw [List.filterMap_cons, filterMap_component?]
    rfl
  · next ps hpieces =>
    rw [hpieces, List.filterMap_cons, filterMap_component?]
    rfl
  · rw [filterMap_component?]

theorem component?_ne_root (piece : String) : component? piece ≠ some .root := by
  unfold component?
  split
  · nofun
  · split <;> nofun

theorem isAbsolute_iff (p : Path) : p.isAbsolute = true ↔ .root ∈ p.components := by
  have hpieces (ps : List String) : .root ∉ ps.filterMap component? := fun h => by
    obtain ⟨piece, -, hroot⟩ := List.mem_filterMap.mp h
    exact component?_ne_root piece hroot
  unfold components
  split
  · next h => exact iff_of_true h List.mem_cons_self
  · next h _ =>
    refine iff_of_false (Bool.eq_false_iff.mp h) fun hroot => ?_
    rcases List.mem_cons.mp hroot with hroot | hroot
    · cases hroot
    · exact hpieces _ hroot
  · next h _ => exact iff_of_false (Bool.eq_false_iff.mp h) (hpieces _)

variable {p q : Path}

theorem steps_eq_of_same (h : p.same q = true) : p.steps = q.steps := by
  rw [steps_eq_filterMap, steps_eq_filterMap, of_decide_eq_true h]

theorem isAbsolute_eq_of_same (h : p.same q = true) : p.isAbsolute = q.isAbsolute := by
  rw [Bool.eq_iff_iff, isAbsolute_iff, isAbsolute_iff, of_decide_eq_true h]

/-! ## Paths that may lead to a file -/

theorem pieces_ne_nil (p : Path) : p.pieces ≠ [] := by
  have h (text : List Char) : piecesOf text ≠ [] := by
    rw [piecesOf, ne_eq, List.map_eq_nil_iff]
    exact List.splitOn_ne_nil _ _
  unfold pieces
  split <;> exact h _

/-- A path as it has to be to lead to a file: the system takes it, and it ends in a name. -/
structure Proper (p : Path) : Prop where
  noNul : '\x00' ∉ p.text.toList
  short : p.text.utf8ByteSize ≤ Disk.maxPathSize
  endsInName : ∃ piece, p.pieces.getLast? = some piece ∧ isIdle piece = false

theorem Proper.text_ne (h : p.Proper) : p.text ≠ "" := by
  obtain ⟨piece, hlast, hname⟩ := h.endsInName
  intro hempty
  rw [pieces, hempty] at hlast
  obtain rfl : "" = piece := Option.some.inj hlast
  exact Bool.noConfusion hname

end Path

namespace Disk

open DocAudit.Path

variable (root : Entry)

/-- An idle piece can be left out before another piece: that one needs a directory just as well. -/
theorem walk_cons_idle {piece : String} {pieces : List String} (hidle : isIdle piece = true)
    (hne : pieces ≠ []) (place : List String) :
    walk root place (piece :: pieces) = walk root place pieces := by
  obtain ⟨next, rest, rfl⟩ := List.exists_cons_of_ne_nil hne
  rw [walk]
  split
  · rw [if_pos hidle]
  · next hfile => rw [walk, hfile]
  · next hnone => rw [walk, hnone]

/-- **Idle pieces lead nowhere**, unless they are the last. -/
theorem walk_filter (pieces : List String) : ∀ place : List String,
    (∃ piece, pieces.getLast? = some piece ∧ isIdle piece = false) →
      walk root place (pieces.filter fun piece => !isIdle piece) = walk root place pieces := by
  induction pieces with
  | nil => exact fun _ _ => rfl
  | cons piece pieces ih =>
    rintro place ⟨last, hlast, hname⟩
    by_cases hne : pieces = []
    · subst hne
      obtain rfl : piece = last := Option.some.inj hlast
      simp [hname]
    have ih (place) := ih place ⟨last, by rwa [List.getLast?_cons_of_ne_nil hne] at hlast, hname⟩
    by_cases hidle : isIdle piece = true
    · rw [walk_cons_idle root hidle hne, List.filter_cons_of_neg (by simpa using hidle), ih]
    · rw [List.filter_cons_of_pos (by simpa using hidle), walk, walk]
      simp only [ih]

theorem walk_cons_ok {piece : String} {pieces place place' : List String}
    (h : walk root place (piece :: pieces) = .ok place') :
    (∃ entries, root.at? place = some (.directory entries)) ∧
      ∃ next, (isIdle piece = true → next = place) ∧ walk root next pieces = .ok place' := by
  rw [walk] at h
  split at h
  · next entries hdirectory =>
    refine ⟨⟨entries, hdirectory⟩, ?_⟩
    by_cases hidle : isIdle piece = true
    · rw [if_pos hidle] at h
      exact ⟨place, fun _ => rfl, h⟩
    rw [if_neg hidle] at h
    split at h
    · exact ⟨place.dropLast, fun hi => absurd hi hidle, h⟩
    · split at h
      · cases h
      · split at h
        · exact ⟨place ++ [piece], fun hi => absurd hi hidle, h⟩
        · cases h
  · cases h
  · cases h

/-- Behind a last piece that is idle is a directory, so only a name leads to a file. -/
theorem endsInName_of_walk {pieces : List String} (hne : pieces ≠ []) :
    ∀ {place place' : List String} {content : Content},
      walk root place pieces = .ok place' → root.at? place' = some (.file content) →
        ∃ piece, pieces.getLast? = some piece ∧ isIdle piece = false := by
  induction pieces with
  | nil => exact absurd rfl hne
  | cons piece pieces ih =>
    intro place place' content h hfile
    obtain ⟨⟨entries, hdirectory⟩, next, hnext, h⟩ := walk_cons_ok root h
    by_cases hpieces : pieces = []
    · subst hpieces
      refine ⟨piece, rfl, Bool.eq_false_iff.mpr fun hidle => ?_⟩
      obtain rfl : next = place' := Except.ok.inj h
      rw [hnext hidle, hdirectory] at hfile
      cases hfile
    · rw [List.getLast?_cons_of_ne_nil hpieces]
      exact ih hpieces h hfile

variable (disk : Disk) {p q : Path}

theorem locate_of_proper (h : p.Proper) :
    disk.locate p = walk disk.root (if p.isAbsolute then [] else disk.current) p.steps := by
  have hnul : p.text.toList.contains '\x00' = false := by simpa using h.noNul
  rw [locate, if_neg (Bool.eq_false_iff.mp hnul), if_neg h.text_ne, if_neg (Nat.not_lt.mpr h.short),
    steps, walk_filter _ _ _ h.endsInName]

theorem locate_ok {place : List String} (h : disk.locate p = .ok place) :
    '\x00' ∉ p.text.toList ∧ p.text.utf8ByteSize ≤ maxPathSize ∧
      walk disk.root (if p.isAbsolute then [] else disk.current) p.pieces = .ok place := by
  unfold locate at h
  split at h
  · cases h
  · next hnul =>
    split at h
    · cases h
    · split at h
      · cases h
      · next hshort => exact ⟨by simpa using hnul, Nat.not_lt.mp hshort, h⟩

theorem read_ok {text : String} (h : disk.read p = .ok text) :
    ∃ place, disk.locate p = .ok place ∧ disk.root.at? place = some (.file (.text text)) := by
  unfold read at h
  split at h
  · cases h
  · next place hplace =>
    split at h
    · next s hfile =>
      obtain rfl := Except.ok.inj h
      exact ⟨place, hplace, hfile⟩
    · cases h
    · cases h
    · cases h

/-- **Only a proper path leads to a text.** -/
theorem proper_of_read {text : String} (h : disk.read p = .ok text) : p.Proper := by
  obtain ⟨place, hplace, hfile⟩ := disk.read_ok h
  obtain ⟨hnul, hshort, hwalk⟩ := disk.locate_ok hplace
  exact ⟨hnul, hshort, endsInName_of_walk _ p.pieces_ne_nil hwalk hfile⟩

/-- **Two proper paths that are the same have the same text.** -/
theorem read_eq_of_same (hp : p.Proper) (hq : q.Proper) (h : p.same q = true) :
    disk.read p = disk.read q := by
  rw [read, read, disk.locate_of_proper hp, disk.locate_of_proper hq, steps_eq_of_same h,
    isAbsolute_eq_of_same h]

end Disk

end DocAudit
