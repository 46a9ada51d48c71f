import DocAudit.Audit.Library
import DocAudit.Proofs.RootDirectory
/-!
# Libraries named by their files

A snapshot that gives no name to its library leaves it to be read off the name of the snapshot
file, which is that of the library but for its extension. There all endings of snapshot files are
cut off, so a library whose own stem has such an ending loses it, too.

* `Path.fileName?_withExtension`: the names of the files next to a library.
* `Path.LosesName`: a library such as `..dll`, next to which no file is named for it.
* `Snapshot.nameOfFile_spec`: the name in the name of a snapshot file.
* **`named_for_stem_iff`**: when the name of the library is the stem of its file.
-/

namespace DocAudit

namespace Path

/-! ## The files next to a library -/

variable {p : Path}

theorem isPrefix_stemOf (name : String) : (stemOf name).toList <+: name.toList := by
  unfold stemOf
  split
  · next d c cs hdrop =>
    rw [String.toList_ofList, ← List.reverse_suffix, List.reverse_reverse]
    have hsuffix := List.dropWhile_suffix (l := name.toList.reverse) (· != '.')
    rw [hdrop] at hsuffix
    exact (List.suffix_cons d (c :: cs)).trans hsuffix
  · exact List.prefix_rfl

theorem slash_notMem_stem {stem : String} (h : p.stem? = some stem) : '/' ∉ stem.toList := by
  obtain ⟨name, hname, rfl⟩ := Option.map_eq_some_iff.mp h
  obtain ⟨-, front, hsteps⟩ := fileName?_eq_some_iff.mp hname
  have hmem : name ∈ p.pieces := (List.mem_filter.mp (hsteps ▸ List.mem_concat_self)).1
  exact fun hslash => slash_notMem_of_mem_pieces hmem ((isPrefix_stemOf name).subset hslash)

theorem steps_replaceLast {last : String} (hslash : '/' ∉ last.toList)
    (hidle : isIdle last = false) :
    (ofPieces p.isAbsolute (p.trimmedPieces.dropLast ++ [last])).steps =
      p.steps.dropLast ++ [last] := by
  rw [steps_ofPieces, List.filter_append, steps_eq_filter_trim]
  · congr 1
    · exact filter_dropLast_trim
    · simp [hidle]
  · intro piece hmem
    rcases List.mem_append.mp hmem with hfront | hlast
    · have hpiece := List.IsPrefix.subset trim_prefix (List.dropLast_subset _ hfront)
      exact slash_notMem_of_mem_pieces hpiece
    · rwa [List.mem_singleton.mp hlast]

/-- A library such as `..dll`, whose stem is a dot, with nothing behind its name. Without their
extension, the files next to it are `..`. -/
def LosesName (library : Path) : Prop :=
  library.stem? = some "." ∧ library.pieces.getLast? = library.fileName?

instance (library : Path) : Decidable library.LosesName :=
  inferInstanceAs (Decidable (_ ∧ _))

variable {stem extension : String}

/-- A library such as `..dll` has no file next to it that is named for it. -/
theorem fileName?_withExtension_of_losesName (h : p.LosesName) :
    (p.withExtension extension).fileName? = none := by
  have hsteps : (p.withExtension extension).steps = p.steps.dropLast ++ [".."] := by
    rw [withExtension, h.1]
    dsimp only
    rw [if_pos ⟨by decide, h.2⟩]
    exact steps_replaceLast (by decide) (by decide)
  refine Option.eq_none_iff_forall_ne_some.mpr fun name hname => ?_
  obtain ⟨hparent, front, hfront⟩ := fileName?_eq_some_iff.mp hname
  rw [hfront] at hsteps
  exact hparent (List.singleton_inj.mp (List.append_inj' hsteps rfl).2)

/-- **A file next to any other library is named by the stem of the library and the extension.** -/
theorem fileName?_withExtension (hstem : p.stem? = some stem) (h : ¬ p.LosesName)
    (hslash : '/' ∉ extension.toList) (hlong : 2 ≤ extension.length) :
    (p.withExtension extension).fileName? = some (stem ++ "." ++ extension) := by
  have hkept : ¬ (stem ++ "." = ".." ∧ p.pieces.getLast? = p.fileName?) := by
    rintro ⟨hdots, hlast⟩
    obtain rfl : stem = "." := (String.append_left_inj ".").mp hdots
    exact h ⟨hstem, hlast⟩
  have hlength : 3 ≤ (stem ++ "." ++ extension).length := by
    rw [String.length_append, String.length_append]
    have : ".".length = 1 := rfl
    omega
  have hparent : stem ++ "." ++ extension ≠ ".." := by
    intro hdots
    rw [hdots] at hlength
    exact absurd hlength (by decide)
  have hnoslash : '/' ∉ (stem ++ "." ++ extension).toList := by
    simp [slash_notMem_stem hstem, hslash]
  refine fileName?_eq_some_iff.mpr ⟨hparent, p.steps.dropLast, ?_⟩
  rw [withExtension, hstem]
  dsimp only
  rw [if_neg hkept]
  exact steps_replaceLast hnoslash (isIdle_of_length (Nat.le_of_succ_le hlength))

end Path

namespace Snapshot

/-! ## The name in a file name -/

variable {ending : List Char}

/-- **Endings are cut off until there is none.** -/
theorem dropEndings_spec (hending : ending ≠ []) (name : List Char) :
    ∃ n, name = (List.replicate n ending).flatten ++ dropEndings ending name ∧
      ¬ ending <+: dropEndings ending name := by
  fun_induction dropEndings ending name with
  | case1 name h ih =>
    obtain ⟨n, hname, hnone⟩ := ih
    obtain ⟨rest, rfl⟩ := List.isPrefixOf_iff_prefix.mp h.2
    rw [List.drop_left] at hname hnone ⊢
    refine ⟨n + 1, ?_, hnone⟩
    rw [List.replicate_succ, List.flatten_cons, List.append_assoc, ← hname]
  | case2 name h =>
    exact ⟨0, rfl, fun hprefix => h ⟨hending, List.isPrefixOf_iff_prefix.mpr hprefix⟩⟩

/-- The name in the name of a snapshot file has no ending left, and was followed by endings only. -/
theorem nameOfFile_spec {origin : Path} {stem : String}
    (h : origin.fileName? = some (stem ++ fileEnding)) :
    ∃ n, stem = nameOfFile origin ++ String.join (List.replicate n fileEnding) ∧
      ¬ fileEnding.toList <:+ (nameOfFile origin).toList := by
  have hending : fileEnding.toList.reverse ≠ [] := by decide
  obtain ⟨n, hname, hnone⟩ := dropEndings_spec hending (stem ++ fileEnding).toList.reverse
  rw [nameOfFile, h]
  dsimp only
  generalize dropEndings _ _ = rest at hname hnone ⊢
  rw [String.toList_append, List.reverse_append] at hname
  rw [String.toList_ofList, ← List.reverse_prefix, List.reverse_reverse]
  -- the ending of the file itself is the first one to be cut off
  cases n with
  | zero => exact absurd ⟨_, hname⟩ hnone
  | succ n =>
    refine ⟨n, ?_, hnone⟩
    rw [List.replicate_succ, List.flatten_cons, List.append_assoc, List.append_cancel_left_eq]
      at hname
    rw [← String.toList_inj, ← List.reverse_inj, hname]
    simp [String.toList_join, List.flatMap_replicate, List.reverse_flatten]

/-- The stem of a snapshot file is the name in it, unless the stem has an ending of its own. -/
theorem nameOfFile_eq_iff {origin : Path} {stem : String}
    (h : origin.fileName? = some (stem ++ fileEnding)) :
    nameOfFile origin = stem ↔ ¬ fileEnding.toList <:+ stem.toList := by
  obtain ⟨n, hstem, hnone⟩ := nameOfFile_spec h
  constructor
  · intro heq
    rwa [heq] at hnone
  · intro hstemnone
    cases n with
    | zero => simpa using hstem.symm
    | succ n =>
      refine absurd ?_ hstemnone
      rw [hstem, List.replicate_succ', String.toList_append, String.toList_join,
        List.flatMap_append, List.flatMap_singleton, ← List.append_assoc]
      exact List.suffix_append _ _

theorem ofText?_emptyObject : ofText? "\x7b\x7d" = some ⟨none, []⟩ := rfl

end Snapshot

/-- **When a library is named by the stem of its file.** If the snapshot of a library gives no name,
the name is the stem of the library, unless that stem ends like the name of a snapshot file, or the
library is one such as `..dll`. Such endings are all cut off, and the name of the other one is
empty. -/
theorem named_for_stem_iff {library : Path} {stem text : String} {s : Snapshot}
    (hstem : library.stem? = some stem) (htext : Snapshot.ofText? text = some s)
    (hassembly : s.assembly = none) :
    ∃ surface events, Surface.ofText text library.snapshotFile = .ok (surface, events) ∧
      (surface.assembly = stem ↔
        ¬ Snapshot.fileEnding.toList <:+ stem.toList ∧ ¬ library.LosesName) ∧
      (library.LosesName → surface.assembly = "") ∧
      (¬ library.LosesName →
        ∃ n, stem = surface.assembly ++ String.join (List.replicate n Snapshot.fileEnding) ∧
          ¬ Snapshot.fileEnding.toList <:+ surface.assembly.toList) := by
  have hname : (s.surface library.snapshotFile).assembly =
      Snapshot.nameOfFile library.snapshotFile := by
    rw [Snapshot.surface, hassembly, Option.getD_none]
  refine ⟨s.surface library.snapshotFile, s.events library.snapshotFile, ?_, ?_⟩
  · rw [Surface.ofText, htext]
  rw [hname]
  by_cases hloses : library.LosesName
  · have hempty : Snapshot.nameOfFile library.snapshotFile = "" := by
      rw [Snapshot.nameOfFile, Path.snapshotFile, Path.fileName?_withExtension_of_losesName hloses]
    have hdot : stem = "." := Option.some.inj (hstem.symm.trans hloses.1)
    rw [hempty, hdot]
    exact ⟨iff_of_false (by decide) fun h => h.2 hloses, fun _ => rfl, fun h => absurd hloses h⟩
  · have hfile : library.snapshotFile.fileName? = some (stem ++ Snapshot.fileEnding) := by
      rw [Path.snapshotFile, Path.fileName?_withExtension hstem hloses (by decide) (by decide),
        String.append_assoc]
      rfl
    exact ⟨(Snapshot.nameOfFile_eq_iff hfile).trans (and_iff_left hloses).symm,
      fun h => absurd h hloses, fun _ => Snapshot.nameOfFile_spec hfile⟩

theorem named_for_stem_iff_innerEnding :
    (⟨"bin/Acme.api.json.Core.dll/"⟩ : Path).stem? = some "Acme.api.json.Core" ∧
    Snapshot.ofText? "\x7b\x7d" = some ⟨none, []⟩ ∧
    ∃ surface events,
      Surface.ofText "\x7b\x7d" (⟨"bin/Acme.api.json.Core.dll/"⟩ : Path).snapshotFile =
        .ok (surface, events) ∧ surface.assembly = "Acme.api.json.Core" := by
  have hstem : (⟨"bin/Acme.api.json.Core.dll/"⟩ : Path).stem? = some "Acme.api.json.Core" := by
    decide
  obtain ⟨surface, events, hok, hiff, -⟩ :=
    named_for_stem_iff hstem Snapshot.ofText?_emptyObject rfl
  exact ⟨hstem, Snapshot.ofText?_emptyObject, surface, events, hok,
    hiff.mpr ⟨by decide, by decide⟩⟩

/-- The stem of `Acme.api.json.dll` loses its ending, and `..dll` leaves no name at all. -/
theorem stem_not_kept :
    (⟨"Acme.api.json.dll"⟩ : Path).stem? = some "Acme.api.json" ∧
    (⟨"..dll"⟩ : Path).stem? = some "." ∧
    Snapshot.ofText? "\x7b\x7d" = some ⟨none, []⟩ ∧
    Surface.ofText "\x7b\x7d" (⟨"Acme.api.json.dll"⟩ : Path).snapshotFile =
      .ok (⟨"Acme", [], 0⟩, []) ∧
    Surface.ofText "\x7b\x7d" (⟨"..dll"⟩ : Path).snapshotFile = .ok (⟨"", [], 0⟩, []) := by
  have htext := Snapshot.ofText?_emptyObject
  have hname : Snapshot.nameOfFile (⟨"Acme.api.json.dll"⟩ : Path).snapshotFile = "Acme" := by
    decide +kernel
  refine ⟨by decide, by decide, htext, ?_, ?_⟩
  · rw [Surface.ofText, htext]
    dsimp only
    rw [Snapshot.surface, hname]
    rfl
  · rw [Surface.ofText, htext]
    rfl

end DocAudit
