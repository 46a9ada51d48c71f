import DocAudit.Proofs.Places
import DocAudit.Settings.Effective
import Mathlib.Data.List.DropRight
import Mathlib.Data.List.Infix
/-!
# The root directory of a repository

The search for a root directory goes from a path to its spelled parents. These are the directories
on the way that the path takes from where it begins, which need not be those around the directory
to which it leads.

* `Path.steps_parent`: the parent of a path is one step behind.
* `Disk.way`, **`Disk.find?_ancestors`**: the search looks at the places on the way, the last first.
* `Disk.nearestMarked`, `RootIs`: the nearest directory with a mark, and that it is found.
* **`root_nearest_iff`**: what is found, and when it is the nearest directory with a mark.
-/

namespace DocAudit

/-! ## Parents -/

namespace Path

theorem filter_rdropWhile {α : Type} (f : α → Bool) (l : List α) :
    (l.rdropWhile f).filter (fun a => !f a) = l.filter fun a => !f a := by
  induction l using List.reverseRecOn with
  | nil => rfl
  | append_singleton l a ih =>
    by_cases ha : f a = true
    · rw [List.rdropWhile_concat_pos _ _ _ ha, ih, List.filter_append]
      simp [ha]
    · rw [List.rdropWhile_concat_neg _ _ _ ha]

variable {ps : List String} {isAbsolute : Bool}

theorem trim_prefix : trim isAbsolute ps <+: ps := by
  unfold trim
  split
  · exact (List.prefix_cons_inj _).mpr (List.rdropWhile_prefix _ _)
  · exact List.rdropWhile_prefix _ _

theorem filter_trim :
    (trim isAbsolute ps).filter (fun piece => !isIdle piece) =
      ps.filter fun piece => !isIdle piece := by
  unfold trim
  split
  · rw [List.filter_cons, List.filter_cons]
    exact congrArg _ (filter_rdropWhile isIdle _)
  · exact filter_rdropWhile isIdle _

/-- Trimmed pieces end in one that leads somewhere, unless they are a single dot. -/
theorem trim_cases (isAbsolute : Bool) (ps : List String) :
    trim isAbsolute ps = [] ∨ trim isAbsolute ps = ["."] ∨
      ∃ front last, trim isAbsolute ps = front ++ [last] ∧ isIdle last = false := by
  have hlast (rest : List String) : rest.rdropWhile isIdle = [] ∨
      ∃ front last, rest.rdropWhile isIdle = front ++ [last] ∧ isIdle last = false := by
    refine Classical.or_iff_not_imp_left.mpr fun hne => ?_
    exact ⟨_, _, (List.dropLast_append_getLast hne).symm,
      Bool.eq_false_iff.mpr (List.rdropWhile_last_not _ rest hne)⟩
  unfold trim
  split
  · next rest =>
    rcases hlast rest with hnil | ⟨front, last, hrest, hidle⟩
    · exact .inr (.inl (congrArg ("." :: ·) hnil))
    · exact .inr (.inr ⟨"." :: front, last, congrArg ("." :: ·) hrest, hidle⟩)
  · exact (hlast ps).imp_right .inr

theorem filter_dropLast_trim :
    (trim isAbsolute ps).dropLast.filter (fun piece => !isIdle piece) =
      ((trim isAbsolute ps).filter fun piece => !isIdle piece).dropLast := by
  rcases trim_cases isAbsolute ps with h | h | ⟨front, last, h, hlast⟩
  · rw [h]
    rfl
  · rw [h]
    rfl
  · rw [h, List.filter_append, List.dropLast_concat, List.filter_cons_of_pos (by simp [hlast])]
    exact List.dropLast_concat.symm

variable {p q : Path}

theorem steps_eq_filter_trim (p : Path) :
    p.steps = p.trimmedPieces.filter fun piece => !isIdle piece := filter_trim.symm

theorem exists_append_of_prefix {xs : List String} (h : xs <+: p.pieces) :
    ∃ rest, p.text = (ofPieces p.isAbsolute xs).text ++ rest := by
  obtain ⟨ys, hpieces⟩ := h
  have htext : p.text = (ofPieces p.isAbsolute (xs ++ ys)).text := by
    rw [hpieces, ofPieces_pieces]
  rw [htext, ofPieces, ofPieces]
  by_cases hxs : xs = []
  · rw [hxs]
    exact ⟨_, congrArg (· ++ "/".intercalate ys) String.append_empty.symm⟩
  by_cases hys : ys = []
  · rw [hys, List.append_nil]
    exact ⟨"", String.append_empty.symm⟩
  · rw [String.intercalate_append_of_ne_nil hxs hys, String.append_assoc, ← String.append_assoc]
    exact ⟨_, rfl⟩

theorem text_ne_of_trimmedPieces (hne : p.trimmedPieces ≠ []) : p.text ≠ "" := by
  intro hempty
  refine hne ?_
  rw [trimmedPieces, isAbsolute, pieces, hempty]
  rfl

/-- **The parent of a path begins where the path does and is one step behind.** -/
theorem of_parent?_eq_some (h : p.parent? = some q) :
    q.isAbsolute = p.isAbsolute ∧ q.steps = p.steps.dropLast ∧ ∃ rest, p.text = q.text ++ rest := by
  unfold parent? at h
  split at h
  · cases h
  · next hne =>
    obtain rfl := Option.some.inj h
    have htrim : trim p.isAbsolute p.trimmedPieces.dropLast <+: p.pieces :=
      trim_prefix.trans ((List.dropLast_prefix _).trans trim_prefix)
    have hslash (piece) (hpiece : piece ∈ trim p.isAbsolute p.trimmedPieces.dropLast) :
        '/' ∉ piece.toList := slash_notMem_of_mem_pieces (htrim.subset hpiece)
    refine ⟨isAbsolute_ofPieces hslash fun habsolute hhead => ?_, ?_,
      exists_append_of_prefix htrim⟩
    · refine head?_pieces_ne habsolute (text_ne_of_trimmedPieces hne) ?_
      obtain ⟨ys, hys⟩ := htrim
      rw [← hys, List.head?_append, hhead]
      rfl
    · rw [steps_ofPieces _ hslash, filter_trim, steps_eq_filter_trim]
      exact filter_dropLast_trim

theorem steps_of_parent?_eq_none (h : p.parent? = none) : p.steps = [] := by
  unfold parent? at h
  split at h
  · next hnil => rw [steps_eq_filter_trim, hnil, List.filter_nil]
  · cases h

end Path

/-! ## The search -/

namespace Disk

variable {disk : Disk} {p : Path} {place : List String}

/-- Whether the directory at a place has a mark. -/
def marked (disk : Disk) (place : List String) : Bool :=
  rootMarks.any fun mark => (disk.root.at? (place ++ [mark])).isSome

/-- The nearest place with a mark among a place and those above it. -/
def nearestMarked (disk : Disk) (place : List String) : Option (List String) :=
  place.inits.reverse.find? disk.marked

/-- The places on the way that a path takes, the last first. -/
def way (disk : Disk) (p : Path) : List (List String) :=
  (p.steps.scanl follow (disk.origin p)).reverse

theorem way_of_steps_nil (h : p.steps = []) : disk.way p = [disk.spelledPlace p] := by
  rw [way, spelledPlace_eq, h]
  rfl

theorem way_of_parent {q : Path} (hq : p.parent? = some q) (hne : p.steps ≠ []) :
    disk.way p = disk.spelledPlace p :: disk.way q := by
  obtain ⟨habsolute, hsteps, -⟩ := Path.of_parent?_eq_some hq
  have horigin : disk.origin q = disk.origin p := by rw [origin, origin, habsolute]
  rw [way, way, spelledPlace_eq, hsteps, horigin]
  conv_lhs => rw [← List.dropLast_append_getLast hne]
  conv_rhs => arg 1; rw [← List.dropLast_append_getLast hne]
  rw [List.scanl_append, List.reverse_append, List.foldl_append]
  rfl

/-- What a path has to be so that a mark in its directory can be seen. -/
structure Searchable (disk : Disk) (p : Path) : Prop where
  noNul : '\x00' ∉ p.text.toList
  short : p.text.utf8ByteSize + 12 ≤ maxPathSize
  leads : ∃ place, disk.Leads p place

theorem Searchable.parent {q : Path} (h : disk.Searchable p) (hq : p.parent? = some q) :
    disk.Searchable q := by
  obtain ⟨habsolute, hsteps, rest, htext⟩ := Path.of_parent?_eq_some hq
  obtain ⟨hnul, hshort, place, hleads⟩ := h
  refine ⟨fun hmem => hnul ?_, ?_, ?_⟩
  · rw [htext, String.toList_append]
    exact List.mem_append_left _ hmem
  · rw [htext, String.utf8ByteSize_append] at hshort
    omega
  · by_cases hne : p.steps = []
    · refine ⟨place, ?_⟩
      rw [Leads, origin, habsolute, hsteps, hne]
      rwa [Leads, hne] at hleads
    · rw [Leads, ← List.dropLast_append_getLast hne, walk_append_ok] at hleads
      obtain ⟨middle, hmiddle, -⟩ := hleads
      refine ⟨middle, ?_⟩
      rwa [Leads, origin, habsolute, hsteps]

theorem rootMarks_isName :
    ∀ mark ∈ rootMarks, Path.IsName mark ∧ mark.utf8ByteSize ≤ 11 := by
  decide +kernel

/-- Whether a mark is seen from a path. -/
def seesMark (disk : Disk) (p : Path) : Bool :=
  rootMarks.any fun mark => disk.exists (p.join ⟨mark⟩)

/-- The marks seen from a path are those of the directory to which it leads. -/
theorem Searchable.seesMark_eq (h : disk.Searchable p) :
    disk.seesMark p = disk.marked (disk.spelledPlace p) := by
  obtain ⟨hnul, hshort, place, hleads⟩ := h
  rw [hleads.spelledPlace, seesMark, marked, Bool.eq_iff_iff, List.any_eq_true, List.any_eq_true]
  refine exists_congr fun mark => and_congr_right fun hmark => ?_
  obtain ⟨hname, hsize⟩ := rootMarks_isName mark hmark
  have hlead := p.size_lead_le
  have hjoin : (p.join ⟨mark⟩).text.utf8ByteSize = p.lead.utf8ByteSize + mark.utf8ByteSize :=
    Path.size_join (Path.isAbsolute_of_slash_notMem hname.noSlash)
  rw [«exists», hleads.entry?_join hname hnul (by omega)]

theorem Searchable.find?_cons (h : disk.Searchable p) {others : List Path}
    {places : List (List String)}
    (hothers : (others.find? disk.seesMark).map disk.spelledPlace = places.find? disk.marked) :
    ((p :: others).find? disk.seesMark).map disk.spelledPlace =
      (disk.spelledPlace p :: places).find? disk.marked := by
  rw [List.find?_cons, List.find?_cons, h.seesMark_eq]
  cases disk.marked (disk.spelledPlace p) with
  | true => rfl
  | false => exact hothers

/-- **The search looks at the places on the way, the last first.** -/
theorem find?_ancestorsWithin {count : Nat} (h : disk.Searchable p)
    (hcount : p.steps.length ≤ count) :
    ((p.ancestorsWithin count).find? disk.seesMark).map disk.spelledPlace =
      (disk.way p).find? disk.marked := by
  induction count generalizing p with
  | zero =>
    rw [way_of_steps_nil (List.length_eq_zero_iff.mp (Nat.le_zero.mp hcount))]
    exact h.find?_cons rfl
  | succ count ih =>
    rw [Path.ancestorsWithin]
    cases hq : p.parent? with
    | none =>
      rw [way_of_steps_nil (Path.steps_of_parent?_eq_none hq)]
      exact h.find?_cons rfl
    | some q =>
      obtain ⟨habsolute, hsteps, -⟩ := Path.of_parent?_eq_some hq
      refine (h.find?_cons (ih (h.parent hq) ?_)).trans ?_
      · rw [hsteps, List.length_dropLast]
        omega
      by_cases hnil : p.steps = []
      · -- the parent of a dot is the same place
        have hway : disk.way q = disk.way p := by
          rw [way, way, origin, origin, habsolute, hsteps, hnil]
          rfl
        rw [hway, way_of_steps_nil hnil, List.find?_cons]
        split
        · next hmarked => rw [List.find?_cons_of_pos hmarked]
        · rfl
      · rw [way_of_parent hq hnil]

theorem find?_ancestors (h : disk.Searchable p) :
    (p.ancestors.find? disk.seesMark).map disk.spelledPlace = (disk.way p).find? disk.marked :=
  find?_ancestorsWithin h (List.length_filter_le _ _)

theorem Searchable.of_isDirectory (h : disk.isDirectory p = true)
    (hshort : p.text.utf8ByteSize + 12 ≤ maxPathSize) : disk.Searchable p := by
  obtain ⟨entries, hentries⟩ := isDirectory_iff.mp h
  obtain ⟨place, hplace, -⟩ := exists_of_entry? hentries
  exact ⟨(disk.locate_ok hplace).1, hshort, place, leads_of_locate hplace⟩

/-! ## The nearest directory with a mark -/

theorem inits_reverse_eq (place : List String) :
    ∃ above, place.inits.reverse = place :: above ∧ ∀ other ∈ above, ¬ place <+: other := by
  rcases List.eq_nil_or_concat place with rfl | ⟨front, last, rfl⟩
  · exact ⟨[], rfl, nofun⟩
  · refine ⟨front.inits.reverse, ?_, fun other hother hbelow => ?_⟩
    · rw [List.concat_eq_append, List.inits_append, List.reverse_append]
      rfl
    · have hlonger := hbelow.length_le
      have hshorter := ((List.mem_inits _ _).mp (List.mem_reverse.mp hother)).length_le
      rw [List.length_concat] at hlonger
      omega

theorem scanl_follow {steps : List String}
    (h : ∀ piece ∈ steps, Path.isIdle piece = false ∧ piece ≠ "..") (place : List String) :
    steps.scanl follow place = steps.inits.map (place ++ ·) := by
  induction steps generalizing place with
  | nil => rw [List.scanl_nil, List.inits, List.map_singleton, List.append_nil]
  | cons piece steps ih =>
    obtain ⟨⟨hidle, hparent⟩, hsteps⟩ := List.forall_mem_cons.mp h
    rw [List.scanl_cons, ih hsteps, follow_name hidle hparent, List.inits_cons, List.map_cons,
      List.append_nil, List.map_map]
    exact congrArg _ (List.map_congr_left fun front _ => List.append_assoc _ _ front)

theorem foldl_follow {steps : List String}
    (h : ∀ piece ∈ steps, Path.isIdle piece = false ∧ piece ≠ "..") (place : List String) :
    steps.foldl follow place = place ++ steps := by
  induction steps generalizing place with
  | nil => exact (List.append_nil place).symm
  | cons piece steps ih =>
    obtain ⟨⟨hidle, hparent⟩, hsteps⟩ := List.forall_mem_cons.mp h
    rw [List.foldl_cons, ih hsteps, follow_name hidle hparent, List.append_assoc]
    rfl

/-- Without steps upwards, the way is made of the places at or above that to which the path leads,
but for those above where the path begins. -/
theorem inits_reverse_of_no_parent (disk : Disk) (h : ".." ∉ p.steps) :
    (∀ place ∈ disk.way p, disk.origin p <+: place) ∧
    ∃ above, (disk.spelledPlace p).inits.reverse = disk.way p ++ above ∧
      ∀ other ∈ above, ¬ disk.origin p <+: other := by
  have hnames : ∀ piece ∈ p.steps, Path.isIdle piece = false ∧ piece ≠ ".." := by
    refine fun piece hpiece => ⟨?_, fun hparent => h (hparent ▸ hpiece)⟩
    simpa using (List.mem_filter.mp hpiece).2
  constructor
  · intro place hplace
    rw [way, scanl_follow hnames, List.mem_reverse] at hplace
    obtain ⟨front, -, rfl⟩ := List.mem_map.mp hplace
    exact List.prefix_append _ _
  obtain ⟨above, habove, hfar⟩ := inits_reverse_eq (disk.origin p)
  refine ⟨above, ?_, hfar⟩
  have hinits : p.steps.inits = [] :: p.steps.inits.tail := by
    cases p.steps <;> rfl
  rw [spelledPlace_eq, foldl_follow hnames, List.inits_append, List.reverse_append, habove, way,
    scanl_follow hnames]
  conv_rhs => rw [hinits]
  rw [List.map_cons, List.reverse_cons, List.append_nil, List.append_assoc]
  rfl

theorem exists_way_eq_cons (disk : Disk) (p : Path) :
    ∃ above, disk.way p = disk.spelledPlace p :: above := by
  have hhead : (disk.way p).head? = some (disk.spelledPlace p) := by
    rw [way, List.head?_reverse, List.getLast?_scanl, spelledPlace_eq]
  exact List.head?_eq_some_iff.mp hhead

end Disk

/-- That the search finds the directory at a place, or stays where it is if there is none. -/
def RootIs (disk : Disk) (start : Path) : Option (List String) → Prop
  | some place => disk.spelledPlace (detectRoot disk start) = place
  | none => detectRoot disk start = start

section RootIs

variable {disk : Disk} {start : Path}

theorem rootIs_way (h : disk.Searchable start) :
    RootIs disk start ((disk.way start).find? disk.marked) := by
  rw [← Disk.find?_ancestors h]
  show RootIs disk start ((start.ancestors.find? disk.seesMark).map disk.spelledPlace)
  have hroot : detectRoot disk start = (start.ancestors.find? disk.seesMark).getD start := rfl
  cases hfind : start.ancestors.find? disk.seesMark with
  | none => rw [Option.map_none, RootIs, hroot, hfind, Option.getD_none]
  | some root => rw [Option.map_some, RootIs, hroot, hfind, Option.getD_some]

theorem rootIs_find?_iff (h : disk.Searchable start) {above : List (List String)} :
    RootIs disk start ((disk.spelledPlace start :: above).find? disk.marked) ↔
      (disk.way start).find? disk.marked =
        (disk.spelledPlace start :: above).find? disk.marked := by
  have hway := rootIs_way h
  refine ⟨fun hroot => ?_, fun heq => heq ▸ hway⟩
  obtain ⟨places, hplaces⟩ := disk.exists_way_eq_cons start
  by_cases hmarked : disk.marked (disk.spelledPlace start) = true
  · rw [hplaces, List.find?_cons_of_pos hmarked, List.find?_cons_of_pos hmarked]
  -- a place with a mark is not where the search started
  have hstay (others : List (List String)) {place : List String}
      (hfind : others.find? disk.marked = some place)
      (hplace : disk.spelledPlace (detectRoot disk start) = place) :
      detectRoot disk start ≠ start := by
    intro hstart
    rw [hstart] at hplace
    exact hmarked (hplace ▸ List.find?_some hfind)
  cases hfound : (disk.way start).find? disk.marked with
  | none =>
    rw [hfound] at hway
    cases hother : (disk.spelledPlace start :: above).find? disk.marked with
    | none => rfl
    | some place =>
      rw [hother] at hroot
      exact absurd hway (hstay _ hother hroot)
  | some place =>
    rw [hfound] at hway
    cases hother : (disk.spelledPlace start :: above).find? disk.marked with
    | none =>
      rw [hother] at hroot
      exact absurd hroot (hstay _ hfound hway)
    | some other =>
      rw [hother] at hroot
      exact congrArg some (hway.symm.trans hroot)

theorem rootIs_nearestMarked_iff (h : disk.Searchable start) :
    RootIs disk start (disk.nearestMarked (disk.spelledPlace start)) ↔
      (disk.way start).find? disk.marked = disk.nearestMarked (disk.spelledPlace start) := by
  obtain ⟨above, habove, -⟩ := Disk.inits_reverse_eq (disk.spelledPlace start)
  rw [Disk.nearestMarked, habove]
  exact rootIs_find?_iff h

/-- Without steps upwards, a nearer place with a mark is missed only above where the path begins. -/
theorem find?_way_eq_nearestMarked_iff (h : ".." ∉ start.steps) :
    (disk.way start).find? disk.marked = disk.nearestMarked (disk.spelledPlace start) ↔
      ∀ place, disk.nearestMarked (disk.spelledPlace start) = some place →
        disk.origin start <+: place := by
  obtain ⟨hway, above, habove, hfar⟩ := Disk.inits_reverse_of_no_parent disk h
  rw [Disk.nearestMarked, habove, List.find?_append]
  cases hfound : (disk.way start).find? disk.marked with
  | none =>
    rw [Option.none_or]
    cases hother : above.find? disk.marked with
    | none => exact iff_of_true rfl nofun
    | some place =>
      refine iff_of_false nofun fun hbelow => ?_
      exact hfar place (List.mem_of_find?_eq_some hother) (hbelow place rfl)
  | some place =>
    rw [Option.some_or]
    refine iff_of_true rfl fun other hother => ?_
    obtain rfl := Option.some.inj hother
    exact hway place (List.mem_of_find?_eq_some hfound)

/-- **The root directory is the nearest one with a mark on the way to where the search starts.**
This is the nearest one at all if no other has a mark between; if the path has no `..`, it is missed
only by a relative path and above the current directory. -/
theorem root_nearest_iff (hstart : disk.isDirectory start = true)
    (hshort : start.text.utf8ByteSize + 12 ≤ Disk.maxPathSize) :
    RootIs disk start ((disk.way start).find? disk.marked) ∧
    (RootIs disk start (disk.nearestMarked (disk.spelledPlace start)) ↔
      (disk.way start).find? disk.marked = disk.nearestMarked (disk.spelledPlace start)) ∧
    (".." ∉ start.steps →
      (RootIs disk start (disk.nearestMarked (disk.spelledPlace start)) ↔
        start.isAbsolute = true ∨
          ∀ place, disk.nearestMarked (disk.spelledPlace start) = some place →
            disk.current <+: place)) := by
  have hsearch := Disk.Searchable.of_isDirectory hstart hshort
  refine ⟨rootIs_way hsearch, rootIs_nearestMarked_iff hsearch, fun hup => ?_⟩
  rw [rootIs_nearestMarked_iff hsearch, find?_way_eq_nearestMarked_iff hup, Disk.origin]
  cases start.isAbsolute with
  | true => exact iff_of_true (fun _ _ => List.nil_prefix) (.inl rfl)
  | false => exact (or_iff_right Bool.false_ne_true).symm

/-- A directory in a repository, with a directory in it that has a mark of its own. -/
def repositoryDisk : Disk where
  root := .directory [
    ("xmldoc.toml", .file (.text "output = 'json'\n")),
    ("sub", .directory [
      ("a", .directory [("xmldoc.toml", .file (.text ""))]),
      ("x.txt", .file (.text ""))])]
  current := ["sub"]

theorem root_nearest_iff_absolute :
    repositoryDisk.isDirectory ⟨"/sub/./"⟩ = true ∧
    (⟨"/sub/./"⟩ : Path).text.utf8ByteSize + 12 ≤ Disk.maxPathSize ∧
    RootIs repositoryDisk ⟨"/sub/./"⟩
      (repositoryDisk.nearestMarked (repositoryDisk.spelledPlace ⟨"/sub/./"⟩)) := by
  have hdirectory : repositoryDisk.isDirectory ⟨"/sub/./"⟩ = true := by decide +kernel
  have hshort : (⟨"/sub/./"⟩ : Path).text.utf8ByteSize + 12 ≤ Disk.maxPathSize := by
    decide +kernel
  have hroot := (root_nearest_iff hdirectory hshort).2.2 (by decide +kernel)
  exact ⟨hdirectory, hshort, hroot.mpr (.inl (by decide +kernel))⟩

/-- The search from the current directory stays below the mark in the directory above, and one that
takes a step down and up again stops at a mark in the directory between. -/
theorem root_not_nearest :
    ¬ RootIs repositoryDisk ⟨"."⟩
      (repositoryDisk.nearestMarked (repositoryDisk.spelledPlace ⟨"."⟩)) ∧
    ¬ RootIs repositoryDisk ⟨"a/.."⟩
      (repositoryDisk.nearestMarked (repositoryDisk.spelledPlace ⟨"a/.."⟩)) := by
  have hnearest (text : String) (h : repositoryDisk.spelledPlace ⟨text⟩ = ["sub"]) :
      repositoryDisk.nearestMarked (repositoryDisk.spelledPlace ⟨text⟩) = some [] := by
    rw [h]
    decide +kernel
  rw [hnearest "." (by decide +kernel), hnearest "a/.." (by decide +kernel), RootIs, RootIs]
  decide +kernel

end RootIs

end DocAudit
