import DocAudit.Proofs.Places
import DocAudit.Settings.Libraries
import Mathlib.Data.List.TakeWhile
/-!
# Repeated libraries

The libraries that several patterns stand for are listed one pattern after the other, and only of
neighbours that are the same path the first is kept. So a list of patterns names no library twice
only if what repeats is listed side by side.

* `eraseRepsBy_cons`: what is kept of a list of neighbours.
* `Path.le_trans`, `Path.le_total`, `Path.same_of_le`: paths are in a linear order.
* `Together`: lists in which equal paths follow each other at once.
* **`libraries_distinct_iff`**: when the libraries are distinct, and that those of one pattern are.
-/

namespace DocAudit

/-! ## Neighbours -/

section Neighbours

variable {α : Type} (r : α → α → Bool)

theorem eraseRepsBy_loop (a : α) (l acc : List α) :
    List.eraseRepsBy.loop r a l acc =
      acc.reverse ++ a :: (l.dropWhile (r a)).eraseRepsBy r := by
  induction l generalizing a acc with
  | nil => exact List.reverse_cons
  | cons b l ih =>
    rw [List.eraseRepsBy.loop, List.dropWhile_cons]
    split
    · next hab => rw [if_pos hab, ih]
    · next hab =>
      rw [if_neg (Bool.eq_false_iff.mp hab), ih, List.reverse_cons, List.append_assoc,
        List.eraseRepsBy, ih]
      rfl

/-- The first of a list stays, and takes with it what is like it behind it. -/
theorem eraseRepsBy_cons (a : α) (l : List α) :
    (a :: l).eraseRepsBy r = a :: (l.dropWhile (r a)).eraseRepsBy r :=
  eraseRepsBy_loop r a l []

theorem eraseRepsBy_eq_nil_iff {l : List α} : l.eraseRepsBy r = [] ↔ l = [] := by
  cases l with
  | nil => exact iff_of_true rfl rfl
  | cons a l =>
    rw [eraseRepsBy_cons]
    exact iff_of_false (List.cons_ne_nil _ _) (List.cons_ne_nil _ _)

end Neighbours

namespace Path

variable {p q r : Path}

theorem alike_comm (p q : Path) : p.alike q = q.alike p := decide_eq_decide.mpr eq_comm

theorem alike_congr (h : p.same q = true) : p.alike = q.alike := by
  funext r
  rw [alike, alike, of_decide_eq_true h]

/-! ## The order of paths -/

namespace Component

theorem le_iff {a b : Component} :
    a.le b = true ↔ a.rank ≤ b.rank ∧ (a.rank = b.rank → a.text ≤ b.text) := by
  cases a <;> cases b <;> simp [le, rank, text]

theorem le_trans {a b c : Component} (hab : a.le b = true) (hbc : b.le c = true) :
    a.le c = true := by
  rw [le_iff] at hab hbc ⊢
  refine ⟨Nat.le_trans hab.1 hbc.1, fun hac => ?_⟩
  exact String.le_trans (hab.2 (by omega)) (hbc.2 (by omega))

theorem le_total (a b : Component) : (a.le b || b.le a) = true := by
  rw [Bool.or_eq_true, le_iff, le_iff]
  rcases Nat.lt_trichotomy a.rank b.rank with h | h | h
  · exact .inl ⟨Nat.le_of_lt h, fun heq => absurd heq (Nat.ne_of_lt h)⟩
  · exact (String.le_total a.text b.text).imp (fun ht => ⟨Nat.le_of_eq h, fun _ => ht⟩)
      fun ht => ⟨Nat.le_of_eq h.symm, fun _ => ht⟩
  · exact .inr ⟨Nat.le_of_lt h, fun heq => absurd heq (Nat.ne_of_lt h)⟩

theorem le_antisymm {a b : Component} (hab : a.le b = true) (hba : b.le a = true) : a = b := by
  rw [le_iff] at hab hba
  have hrank : a.rank = b.rank := Nat.le_antisymm hab.1 hba.1
  have htext : a.text = b.text := String.le_antisymm (hab.2 hrank) (hba.2 hrank.symm)
  cases a <;> cases b <;> simp_all [rank, text]

end Component

theorem leComponents_trans : ∀ {as bs cs : List Component},
    leComponents as bs = true → leComponents bs cs = true → leComponents as cs = true
  | [], _, _, _, _ => rfl
  | a :: as, b :: bs, c :: cs, hab, hbc => by
    rw [leComponents] at hab hbc ⊢
    by_cases hac : a = c
    · subst hac
      rw [if_pos rfl]
      by_cases heq : a = b
      · subst heq
        rw [if_pos rfl] at hab hbc
        exact leComponents_trans hab hbc
      · rw [if_neg heq] at hab
        rw [if_neg (Ne.symm heq)] at hbc
        exact absurd (Component.le_antisymm hab hbc) heq
    · rw [if_neg hac]
      split_ifs at hab hbc with h h' h'
      · exact absurd (h.trans h') hac
      · exact h ▸ hbc
      · exact h' ▸ hab
      · exact Component.le_trans hab hbc

theorem leComponents_total : ∀ as bs : List Component,
    (leComponents as bs || leComponents bs as) = true
  | [], _ => rfl
  | _ :: _, [] => rfl
  | a :: as, b :: bs => by
    rw [leComponents, leComponents]
    by_cases h : a = b
    · rw [if_pos h, if_pos h.symm]
      exact leComponents_total as bs
    · rw [if_neg h, if_neg (Ne.symm h)]
      exact Component.le_total a b

theorem leComponents_antisymm : ∀ {as bs : List Component},
    leComponents as bs = true → leComponents bs as = true → as = bs
  | [], [], _, _ => rfl
  | a :: as, b :: bs, hab, hba => by
    rw [leComponents] at hab hba
    by_cases h : a = b
    · rw [if_pos h] at hab
      rw [if_pos h.symm] at hba
      rw [h, leComponents_antisymm hab hba]
    · rw [if_neg h] at hab
      rw [if_neg (Ne.symm h)] at hba
      exact absurd (Component.le_antisymm hab hba) h

theorem le_trans (hpq : p.le q = true) (hqr : q.le r = true) : p.le r = true :=
  leComponents_trans hpq hqr

theorem le_total (p q : Path) : (p.le q || q.le p) = true := leComponents_total _ _

theorem le_refl (p : Path) : p.le p = true := (Bool.or_self _).symm.trans (p.le_total p)

theorem same_of_le (hpq : p.le q = true) (hqp : q.le p = true) : p.same q = true :=
  decide_eq_true (leComponents_antisymm hpq hqp)

theorem le_of_same (h : p.same q = true) (hqr : q.le r = true) : p.le r = true := by
  rwa [le, of_decide_eq_true h]

end Path

/-! ## Lists of paths -/

section Together

variable {s : Path → Path → Bool} {l : List Path} {p q : Path}

/-- Behind each path, and the same paths that follow it at once, none counts as equal to it. -/
def Together (s : Path → Path → Bool) : List Path → Prop
  | [] => True
  | p :: l => (∀ q ∈ l.dropWhile p.same, s p q = false) ∧ Together s l

theorem mem_of_mem_eraseReps : p ∈ l.eraseRepsBy Path.same → p ∈ l := by
  induction hn : l.length using Nat.strongRecOn generalizing l with
  | ind n ih =>
    cases l with
    | nil => exact id
    | cons q l =>
      have hlength := (List.dropWhile_sublist q.same (l := l)).length_le
      rw [List.length_cons] at hn
      rw [eraseRepsBy_cons]
      intro h
      rcases List.mem_cons.mp h with rfl | h
      · exact List.mem_cons_self
      · exact List.mem_cons_of_mem _ ((List.dropWhile_sublist _).subset (ih _ (by omega) rfl h))

theorem exists_same_mem_eraseReps (hp : p ∈ l) :
    ∃ q ∈ l.eraseRepsBy Path.same, p.same q = true := by
  induction hn : l.length using Nat.strongRecOn generalizing l with
  | ind n ih =>
    cases l with
    | nil => cases hp
    | cons q l =>
      have hlength := (List.dropWhile_sublist q.same (l := l)).length_le
      rw [List.length_cons] at hn
      rw [eraseRepsBy_cons]
      by_cases hsame : p.same q = true
      · exact ⟨q, List.mem_cons_self, hsame⟩
      -- what is dropped behind `q` is the same as `q`
      have hrest : p ∈ l.dropWhile q.same := by
        rcases List.mem_cons.mp hp with rfl | hp
        · exact absurd p.same_refl hsame
        rw [← List.takeWhile_append_dropWhile (p := q.same) (l := l)] at hp
        refine (List.mem_append.mp hp).resolve_left fun htake => hsame ?_
        rw [Path.same_comm]
        exact List.mem_takeWhile_imp htake
      obtain ⟨r, hr, hsame⟩ := ih _ (by omega) hrest rfl
      exact ⟨r, List.mem_cons_of_mem _ hr, hsame⟩

/-- The libraries kept are distinct when what counts as equal is listed together. -/
theorem pairwise_eraseReps_iff (hcomm : ∀ p q, s p q = s q p)
    (hcongr : ∀ p q, p.same q = true → s p = s q) :
    (l.eraseRepsBy Path.same).Pairwise (fun p q => s p q = false) ↔ Together s l := by
  induction l with
  | nil => exact iff_of_true .nil trivial
  | cons p l ih =>
    -- nothing kept is equal to `p` when nothing listed is
    have hkept (m : List Path) :
        (∀ q ∈ m.eraseRepsBy Path.same, s p q = false) ↔ ∀ q ∈ m, s p q = false := by
      refine ⟨fun h q hq => ?_, fun h q hq => h q (mem_of_mem_eraseReps hq)⟩
      obtain ⟨r, hr, hsame⟩ := exists_same_mem_eraseReps hq
      rw [hcomm, hcongr q r hsame, hcomm]
      exact h r hr
    rw [eraseRepsBy_cons, List.pairwise_cons, hkept, Together]
    refine and_congr_right fun hfar => ?_
    cases l with
    | nil => exact ih
    | cons q l =>
      by_cases hsame : p.same q = true
      · -- `q` is dropped, and `p` stands for it
        rw [List.dropWhile_cons_of_pos hsame, Path.same_congr hsame] at hfar ⊢
        rw [← ih, eraseRepsBy_cons, List.pairwise_cons]
        refine (and_iff_right fun r hr => ?_).symm
        rw [← hcongr p q hsame]
        exact hfar r (mem_of_mem_eraseReps hr)
      · rw [List.dropWhile_cons_of_neg hsame, ih]

theorem together_of_sorted (h : l.Pairwise (fun p q => p.le q = true)) :
    Together Path.same l := by
  induction l with
  | nil => trivial
  | cons p l ih =>
    obtain ⟨hp, hl⟩ := List.pairwise_cons.mp h
    refine ⟨fun q hq => Bool.eq_false_iff.mpr fun hsame => ?_, ih hl⟩
    cases hdrop : l.dropWhile p.same with
    | nil =>
      rw [hdrop] at hq
      cases hq
    | cons r rest =>
      -- `r` is not the same as `p`, and lies between `p` and `q`
      have hr : p.same r = false := by
        have hhead := List.head?_dropWhile_not p.same l
        rwa [hdrop] at hhead
      have hsub := List.dropWhile_sublist p.same (l := l)
      rw [hdrop] at hq hsub
      have hrq : r.le q = true := by
        rcases List.mem_cons.mp hq with rfl | hq
        · exact q.le_refl
        · exact (List.pairwise_cons.mp (hl.sublist hsub)).1 q hq
      have hqp : q.le p = true := Path.le_of_same (by rwa [Path.same_comm]) p.le_refl
      have hpr := hp r (hsub.subset List.mem_cons_self)
      exact Bool.noConfusion (hr.symm.trans (Path.same_of_le hpr (Path.le_trans hrq hqp)))

end Together

/-! ## The libraries of several patterns -/

namespace Expansion

variable (disk : Disk) (root : Path) (patterns : List String)

/-- All libraries that the patterns stand for, before neighbours that are the same are merged. -/
def listed : List Path := patterns.flatMap fun pattern => (ofPattern disk root pattern).found

theorem found_ofPatterns :
    (ofPatterns disk root patterns).found = (listed disk root patterns).eraseRepsBy Path.same := by
  rw [ofPatterns, List.flatMap_map]
  rfl

theorem sorted_ofPattern (pattern : String) :
    (ofPattern disk root pattern).found.Pairwise (fun p q => p.le q = true) := by
  unfold ofPattern
  dsimp only
  split
  · exact List.pairwise_singleton _ _
  · split
    · exact .nil
    · next g _ =>
      have hsorted : ((g.search disk).mergeSort Path.le).Pairwise (fun p q => p.le q = true) :=
        @List.pairwise_mergeSort Path Path.le (fun _ _ _ => Path.le_trans) Path.le_total _
      split
      · exact .nil
      · exact hsorted

/-- **The libraries are distinct when alike ones are listed together.** A pattern on its own names
no path twice; it is between patterns that a path may come again, and then it stays unless nothing
else is in between. -/
theorem libraries_distinct_iff :
    ((ofPatterns disk root patterns).found.Pairwise (fun p q => p.alike q = false) ↔
      Together Path.alike (listed disk root patterns)) ∧
    ∀ pattern,
      (ofPatterns disk root [pattern]).found.Pairwise (fun p q => p.same q = false) := by
  refine ⟨?_, fun pattern => ?_⟩
  · rw [found_ofPatterns]
    exact pairwise_eraseReps_iff Path.alike_comm fun _ _ => Path.alike_congr
  · rw [found_ofPatterns,
      pairwise_eraseReps_iff Path.same_comm fun _ _ => Path.same_congr, listed,
      List.flatMap_singleton]
    exact together_of_sorted (sorted_ofPattern disk root pattern)

/-- A directory with two libraries. -/
def libraryDisk : Disk where
  root := .directory [("bin", .directory [
    ("A.dll", .file (.text "")), ("B.dll", .file (.text ""))])]
  current := []

/-- Two libraries and the first of them again: the other one stands between, and all three stay. -/
theorem library_found_twice :
    ¬ (ofPatterns libraryDisk ⟨"."⟩ ["bin/A.dll", "bin/B.dll", "bin/A.dll"]).found.Pairwise
      (fun p q => p.alike q = false) := by
  have hfound : (ofPatterns libraryDisk ⟨"."⟩ ["bin/A.dll", "bin/B.dll", "bin/A.dll"]).found =
      [⟨"./bin/A.dll"⟩, ⟨"./bin/B.dll"⟩, ⟨"./bin/A.dll"⟩] := by
    decide +kernel
  rw [hfound]
  intro h
  have hrest := (List.pairwise_cons.mp h).1 ⟨"./bin/A.dll"⟩ (List.mem_cons_of_mem _
    List.mem_cons_self)
  exact Bool.noConfusion (hrest.symm.trans (decide_eq_true rfl))

end Expansion

end DocAudit
