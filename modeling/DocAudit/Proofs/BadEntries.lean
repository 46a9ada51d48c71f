import DocAudit.Api.Snapshot
import DocAudit.Proofs.Reading
import DocAudit.Proofs.Walk
/-!
# A bad entry costs only itself

An entry of a snapshot that does not describe a type is counted and left out. Nothing else becomes
of it: the snapshot is still read, the other types are all there, and they are checked as before.

* `Snapshot.ofJson?`: the snapshot that a JSON value stands for.
* **`Snapshot.ofText?_of_json`**: a JSON text is read as a snapshot by its outer shape alone.
* `WithBad`: a list of entries with bad ones put in between.
* **`bad_entries_cost_themselves`**: what becomes of a snapshot with bad entries put in.
-/

namespace DocAudit

namespace Snapshot

open Json Text

/-- The snapshot that a JSON value stands for: its fields are those of the record; what the entries
hold does not matter. -/
def ofJson? (j : Json) : Option Snapshot := (record? fieldNames j).bind ofFields?

/-! ## Reading the outer shape -/

/-- Fields with the same names, and with the same values as far as a snapshot has such a field. -/
def SameField (f g : String × Json) : Prop := g.1 = f.1 ∧ (f.1 ∈ fieldNames → g.2 = f.2)

theorem lookup?_of_same {fs gs : List (String × Json)} (h : List.Forall₂ SameField fs gs)
    {name : String} (hname : name ∈ fieldNames) : lookup? name gs = lookup? name fs := by
  induction h with
  | nil => rfl
  | @cons f g fs gs hfg _ ih =>
    rw [lookup?_cons, lookup?_cons, ih, hfg.1]
    by_cases hf : f.1 = name
    · rw [if_pos hf, if_pos hf, hfg.2 (hf ▸ hname)]
    · rw [if_neg hf, if_neg hf]

theorem countP_of_same {fs gs : List (String × Json)} (h : List.Forall₂ SameField fs gs)
    (name : String) : gs.countP (·.1 = name) = fs.countP (·.1 = name) := by
  induction h with
  | nil => rfl
  | cons hfg _ ih => rw [List.countP_cons, List.countP_cons, ih, hfg.1]

theorem ofFields?_of_same {fs gs : List (String × Json)} (h : List.Forall₂ SameField fs gs) :
    ofFields? gs = ofFields? fs := by
  unfold ofFields? Json.optional Json.withDefault
  rw [lookup?_of_same h (by decide), lookup?_of_same h (by decide)]
  simp only [countP_of_same h]

/-- A field of any JSON object is read as a field of a snapshot: at the depth of its value if the
snapshot has such a field, and else skipped. -/
theorem field_covers (depth n : Nat) : Reader.CoversUpTo n SameField
    (valueWithin.skippedField false (value depth))
    (field fun name => if name ∈ fieldNames then value depth else ignored) := by
  refine Reader.CoversUpTo.skipping ?_ isSpace
  refine (Reader.CoversUpTo.refl n _).followedBy fun name name' hname => ?_
  subst hname
  refine (Reader.CoversUpTo.refl n _).followedBy fun _ _ _ => ?_
  dsimp only
  by_cases hname : name ∈ fieldNames
  · rw [if_pos hname]
    exact (value_covers depth n).map fun _ _ hvalue => ⟨rfl, fun _ => hvalue.symm⟩
  · rw [if_neg hname]
    exact (ignored_covers depth n).map fun _ _ _ => ⟨rfl, fun h => absurd h hname⟩

theorem run_fields (s : List Char) : fields.run s =
    match s.dropWhile isSpace with
    | '{' :: t =>
      (enclosed isSpace '}' (field fun name =>
        if name ∈ fieldNames then value (maxDepth - 1) else ignored)).run t
    | '[' :: t =>
      ((enclosed isSpace ']' (value (maxDepth - 1))).run t).bind fun p =>
        if p.1.length ≤ fieldNames.length then some (fieldNames.zip p.1, p.2) else none
    | _ => none := by
  rw [fields, Reader.run_skipping]
  generalize s.dropWhile isSpace = s
  unfold Reader.run
  split
  · simp [Option.map_map, Function.comp_def, Rest.andThen]
  next t =>
    cases h : enclosed isSpace ']' (value (maxDepth - 1)) t with
    | none => simp only [h, Option.map_none, Option.bind_none]
    | some p =>
      simp only [h, Option.map_some, Option.bind_some]
      split <;> rfl
  next hobject harray =>
    dsimp only
    split
    next t => exact absurd rfl (hobject t)
    next t => exact absurd rfl (harray t)
    next => rfl

theorem record?_of_scalar {skipped : Bool} {s t : List Char} {v : Json} {names : List String}
    (h : (scalar skipped).run s = some (v, t)) : record? names v = none := by
  have hliteral : ∀ w u, (literal w u).run s = some (v, t) → v = u := by
    intro w u hrun
    unfold Reader.run literal at hrun
    split at hrun
    · split at hrun
      · cases hrun; rfl
      · cases hrun
    · cases hrun
  rw [run_scalar] at h
  split_ifs at h
  · rw [hliteral _ _ h]; rfl
  · rw [hliteral _ _ h]; rfl
  · rw [hliteral _ _ h]; rfl
  · rw [Reader.run_map] at h
    obtain ⟨p, -, heq⟩ := Option.map_eq_some_iff.mp h
    cases heq
    rfl
  · unfold Reader.run finite at h
    split at h
    · cases h
    · split at h
      · cases h; rfl
      · cases h

theorem fields_of_value {s t : List Char} {j : Json} {fs : List (String × Json)}
    (h : (value maxDepth).run s = some (j, t)) (hfs : record? fieldNames j = some fs) :
    ∃ gs, fields.run s = some (gs, t) ∧ List.Forall₂ SameField fs gs := by
  have hdepth : maxDepth = maxDepth - 1 + 1 := rfl
  rw [value, hdepth, run_valueWithin_succ] at h
  rw [run_fields]
  split at h
  next r hr =>
    rw [hr]
    obtain ⟨⟨items, u⟩, hitems, heq⟩ := Option.map_eq_some_iff.mp h
    cases heq
    obtain ⟨hlength, hzip⟩ := Option.ite_none_right_eq_some.mp hfs
    obtain rfl : fieldNames.zip items = fs := Option.some.inj hzip
    refine ⟨fieldNames.zip items, ?_, List.forall₂_same.mpr fun f _ => ⟨rfl, fun _ => rfl⟩⟩
    simp only [value, hitems, Option.bind_some]
    rw [if_pos hlength]
  next r hr =>
    rw [hr]
    obtain ⟨⟨gs, u⟩, hgs, heq⟩ := Option.map_eq_some_iff.mp h
    cases heq
    obtain rfl : gs = fs := Option.some.inj hfs
    obtain ⟨gs', hrun, hsame⟩ :=
      (field_covers (maxDepth - 1) r.length).enclosed isSpace '}' r gs u (Nat.le_refl _) hgs
    exact ⟨gs', hrun, hsame⟩
  next =>
    rw [record?_of_scalar h] at hfs
    cases hfs

/-- **A JSON text is read as a snapshot by its outer shape alone.** -/
theorem ofText?_of_json {text : String} {j : Json} {s : Snapshot}
    (hj : only (value maxDepth) text = some j) (hs : ofJson? j = some s) :
    ofText? text = some s := by
  obtain ⟨t, hrun, hblank⟩ := (only_eq_some_iff _ _ _).mp hj
  obtain ⟨fs, hfs, hof⟩ := Option.bind_eq_some_iff.mp hs
  obtain ⟨gs, hgs, hsame⟩ := fields_of_value hrun hfs
  have hfields : only fields text = some gs := (only_eq_some_iff _ _ _).mpr ⟨t, hgs, hblank⟩
  rw [ofText?, hfields, Option.bind_some, ofFields?_of_same hsame, hof]

/-! ## Documents with other entries -/

theorem list?_some (items : List Json) : list? some (array items) = some items := by
  show items.mapM some = some items
  induction items with
  | nil => rfl
  | cons v vs ih => rw [List.mapM_cons, ih]; rfl

theorem lookup?_types_after {before after : List (String × Json)} {v : Json} {s : Snapshot}
    (h : ofFields? (before ++ ("types", v) :: after) = some s) : lookup? "types" after = none := by
  unfold ofFields? at h
  split at h
  next hcount =>
    rw [List.all_eq_true] at hcount
    have htypes := of_decide_eq_true (hcount "types" (by decide))
    rw [List.countP_append, List.countP_cons_of_pos (by simp)] at htypes
    have hzero : after.countP (·.1 = "types") = 0 := by omega
    exact lookup?_eq_none fun f hf => by simpa using List.countP_eq_zero.mp hzero f hf
  next => cases h

/-- **A snapshot with other entries in the place of its own is a snapshot.** -/
theorem ofJson?_replace {before after : List (String × Json)} {xs ys : List Json} {s : Snapshot}
    (h : ofJson? (.object (before ++ ("types", .array xs) :: after)) = some s) :
    ofJson? (.object (before ++ ("types", .array ys) :: after)) =
      some { s with entries := ys } := by
  have hafter : lookup? "types" after = none := lookup?_types_after h
  have hassembly (v : Json) : lookup? "assembly" (before ++ ("types", v) :: after) =
      lookup? "assembly" (before ++ after) := lookup?_insert_of_ne (by decide) before after v
  have htypes (v : Json) : lookup? "types" (before ++ ("types", v) :: after) = some v := by
    rw [lookup?_insert_self, hafter, Option.none_or]
  have hcount (v : Json) (name : String) : (before ++ ("types", v) :: after).countP (·.1 = name) =
      before.countP (·.1 = name) +
        (after.countP (·.1 = name) + if ("types" : String) = name then 1 else 0) := by
    rw [List.countP_append, List.countP_cons]
    simp
  rw [ofJson?, record?, Option.bind_some] at h ⊢
  unfold ofFields? Json.optional Json.withDefault at h ⊢
  simp only [hassembly, htypes, hcount, list?_some] at h ⊢
  split at h
  next hall =>
    rw [if_pos hall]
    split at h
    next assembly entries ha he =>
      obtain rfl := Option.some.inj h
      rw [ha]
    next => cases h
  next => cases h

end Snapshot

/-! ## Entries that are left out -/

theorem TypeInfo.ofJson?_null : TypeInfo.ofJson? .null = none := rfl

/-- The second list is the first one with `k` bad entries put in: entries that are `null` or do not
describe a type. -/
inductive WithBad : Nat → List Json → List Json → Prop where
  | nil : WithBad 0 [] []
  | keep (e : Json) {k : Nat} {xs ys : List Json} (h : WithBad k xs ys) :
      WithBad k (e :: xs) (e :: ys)
  | bad {e : Json} (he : e = .null ∨ TypeInfo.ofJson? e = none) {k : Nat} {xs ys : List Json}
      (h : WithBad k xs ys) : WithBad (k + 1) xs (e :: ys)

namespace WithBad

variable {k : Nat} {xs ys : List Json}

theorem length_eq (h : WithBad k xs ys) : ys.length = xs.length + k := by
  induction h with
  | nil => rfl
  | keep e _ ih => rw [List.length_cons, List.length_cons, ih]; omega
  | bad _ _ ih => rw [List.length_cons, ih]; omega

theorem filterMap_eq (h : WithBad k xs ys) :
    ys.filterMap TypeInfo.ofJson? = xs.filterMap TypeInfo.ofJson? := by
  induction h with
  | nil => rfl
  | keep e _ ih => rw [List.filterMap_cons, List.filterMap_cons, ih]
  | bad he _ ih =>
    have hnone : TypeInfo.ofJson? _ = none := he.elim (fun e => e ▸ TypeInfo.ofJson?_null) id
    rw [List.filterMap_cons_none hnone, ih]

end WithBad

theorem map_ofJson?_eq {xs : List Json} (h : ∀ e ∈ xs, ∃ t, TypeInfo.ofJson? e = some t) :
    xs.map TypeInfo.ofJson? = (xs.filterMap TypeInfo.ofJson?).map some := by
  induction xs with
  | nil => rfl
  | cons e xs ih =>
    obtain ⟨t, ht⟩ := h e List.mem_cons_self
    rw [List.map_cons, List.filterMap_cons_some ht, List.map_cons, ht,
      ih fun e he => h e (List.mem_cons_of_mem _ he)]

/-- Bad entries put into a snapshot are counted; its name and its types stay. -/
theorem Snapshot.surface_of_withBad {s s' : Snapshot} {k : Nat} (origin : Path)
    (hassembly : s'.assembly = s.assembly)
    (hgood : ∀ e ∈ s.entries, ∃ t, TypeInfo.ofJson? e = some t)
    (hbad : WithBad k s.entries s'.entries) :
    (s.surface origin).unresolved = 0 ∧
      s'.surface origin = { s.surface origin with unresolved := k } := by
  have hlength := congrArg List.length (map_ofJson?_eq hgood)
  rw [List.length_map, List.length_map] at hlength
  have htypes : s'.types = s.types := hbad.filterMap_eq
  have hcount := hbad.length_eq
  have hzero : s.entries.length - s.types.length = 0 := by
    unfold types
    omega
  refine ⟨hzero, ?_⟩
  unfold surface
  rw [hassembly, htypes]
  congr 1
  unfold types at hzero ⊢
  omega

/-! ## The check behind it -/

namespace Auditor

variable (a : Auditor) (s : Surface) (k : Nat)

theorem tree_unresolved : a.tree { s with unresolved := k } = { a.tree s with unresolved := k } :=
  rfl

theorem result_check_unresolved :
    (a.check { s with unresolved := k }).result =
      { (a.check s).result with unresolved := k } := by
  rw [result_check, result_check, tree_unresolved]
  rfl

theorem findings_check_unresolved :
    (a.check { s with unresolved := k }).findings = (a.check s).findings := by
  rw [findings_check, findings_check, result_check_unresolved]
  rfl

end Auditor

/-- **A bad entry costs only itself.** A JSON text with the outer shape of a snapshot is read as
one, and it keeps that shape when any other entries are put into it. If all entries of a snapshot
describe types, and another snapshot has `k` bad entries put in between, then both give the same
types in the same order, and the second one tells of `k` types that could not be resolved. A check
of it gives the same tree but for this number, and the same findings. -/
theorem bad_entries_cost_themselves (origin : Path) (a : Auditor) :
    (∀ text j s, Json.only (Json.value Json.maxDepth) text = some j →
      Snapshot.ofJson? j = some s → Snapshot.ofText? text = some s) ∧
    (∀ before after xs ys s,
      Snapshot.ofJson? (.object (before ++ ("types", .array xs) :: after)) = some s →
      Snapshot.ofJson? (.object (before ++ ("types", .array ys) :: after)) =
        some { s with entries := ys }) ∧
    ∀ text text' s s' k, Snapshot.ofText? text = some s → Snapshot.ofText? text' = some s' →
      s'.assembly = s.assembly → (∀ e ∈ s.entries, ∃ t, TypeInfo.ofJson? e = some t) →
      WithBad k s.entries s'.entries →
      ∃ u u' events events',
        Surface.ofText text origin = .ok (u, events) ∧
        Surface.ofText text' origin = .ok (u', events') ∧
        s.entries.map TypeInfo.ofJson? = u.types.map some ∧ u.unresolved = 0 ∧
        u' = { u with unresolved := k } ∧
        (a.check u).result.unresolved = 0 ∧
        (a.check u').result = { (a.check u).result with unresolved := k } ∧
        (a.check u').findings = (a.check u).findings := by
  refine ⟨fun text j s => Snapshot.ofText?_of_json,
    fun before after xs ys s => Snapshot.ofJson?_replace, ?_⟩
  intro text text' s s' k hs hs' hassembly hgood hbad
  obtain ⟨hzero, hsurface⟩ := Snapshot.surface_of_withBad origin hassembly hgood hbad
  refine ⟨s.surface origin, s'.surface origin, s.events origin, s'.events origin, ?_, ?_,
    map_ofJson?_eq hgood, hzero, hsurface, ?_, ?_, ?_⟩
  · rw [Surface.ofText, hs]
  · rw [Surface.ofText, hs']
  · rw [a.result_check]
    exact hzero
  · rw [hsurface, a.result_check_unresolved]
  · rw [hsurface, a.findings_check_unresolved]

/-- The text of a snapshot with one type. -/
def widgetSnapshot : String := "\x7b\"types\":[\x7b\"name\":\"Widget\"\x7d]\x7d"

/-- The same snapshot with two bad entries put in. -/
def brokenSnapshot : String := "\x7b\"types\":[null,\x7b\"name\":\"Widget\"\x7d,[]]\x7d"

/-- The entry of both that describes a type. -/
def widgetEntry : Json := .object [("name", .string "Widget")]

/-- The text of this entry, in front of another text. -/
def widgetText (t : List Char) : List Char :=
  '{' :: '"' :: ("name".toList ++ '"' :: ':' :: '"' :: ("Widget".toList ++ '"' :: '}' :: t))

namespace Json

open Text

theorem run_value_widgetText (depth : Nat) (t : List Char) :
    (value (depth + 1)).run (widgetText t) = some (widgetEntry, t) := by
  have hname : (valueWithin.skippedField false (value depth)).run
      ('"' :: ("name".toList ++ '"' :: ':' :: '"' :: ("Widget".toList ++ '"' :: '}' :: t))) =
        some (("name", string "Widget"), '}' :: t) := by
    rw [run_skippedField (by simp [Plain]), run_value_string (by simp [Plain])]
    rfl
  rw [widgetText, run_value_object, Reader.run_separated_of_run isSpace '}' hname]
  simp [isSpace, widgetEntry]

theorem only_types {text : String} {s : List Char} {v : Json}
    (htext : text.toList = '{' :: '"' :: ("types".toList ++ '"' :: ':' :: s))
    (h : (value 126).run s = some (v, ['}'])) :
    only (value maxDepth) text = some (.object [("types", v)]) := by
  have htypes : (valueWithin.skippedField false (value 126)).run
      ('"' :: ("types".toList ++ '"' :: ':' :: s)) = some (("types", v), ['}']) := by
    rw [run_skippedField (by simp [Plain]), h]
    rfl
  rw [only_eq_some_iff, htext, maxDepth, run_value_object,
    Reader.run_separated_of_run isSpace '}' htypes]
  simp [isSpace]

theorem only_widgetSnapshot : only (value maxDepth) widgetSnapshot =
    some (.object [("types", .array [widgetEntry])]) := by
  have htext : widgetSnapshot.toList = '{' :: '"' :: ("types".toList ++ '"' :: ':' ::
      '[' :: widgetText [']', '}']) := by simp [widgetSnapshot, widgetText]
  refine only_types htext ?_
  have hw := run_value_widgetText 124 [']', '}']
  rw [widgetText] at hw ⊢
  rw [run_value_array (by decide), Reader.run_separated_of_run isSpace ']' hw]
  simp [isSpace]

theorem only_brokenSnapshot : only (value maxDepth) brokenSnapshot =
    some (.object [("types", .array [.null, widgetEntry, .array []])]) := by
  have htext : brokenSnapshot.toList = '{' :: '"' :: ("types".toList ++ '"' :: ':' ::
      '[' :: 'n' :: 'u' :: 'l' :: 'l' :: ',' :: widgetText [',', '[', ']', ']', '}']) := by
    simp [brokenSnapshot, widgetText]
  refine only_types htext ?_
  have hlast : (separated isSpace ']' (value 125)).run ['[', ']', ']', '}'] =
      some ([array []], ['}']) := by
    rw [Reader.run_separated_of_run isSpace ']' (run_value_emptyArray 124 _)]
    simp [isSpace]
  have hrest : (separated isSpace ']' (value 125)).run (widgetText [',', '[', ']', ']', '}']) =
      some ([widgetEntry, array []], ['}']) := by
    rw [Reader.run_separated_of_run isSpace ']' (run_value_widgetText 124 _)]
    simp [isSpace, hlast]
  rw [run_value_array (by decide),
    Reader.run_separated_of_run isSpace ']' (run_value_null 125 _)]
  simp [isSpace, hrest]

end Json

/-- A `null` and an empty array in the snapshot of the widget are two unresolved types. -/
theorem bad_entries_cost_themselves_widget :
    let origin : Path := ⟨"lib/Acme.api.json"⟩
    let fragment (id : String) := if id = "T:Widget" then some (Fragment.mk "A widget.") else none
    let a : Auditor := ⟨⟨fragment, .strict⟩, { onlyMissing := false }⟩
    Snapshot.ofText? widgetSnapshot = some ⟨none, [widgetEntry]⟩ ∧
    Snapshot.ofText? brokenSnapshot = some ⟨none, [.null, widgetEntry, .array []]⟩ ∧
    WithBad 2 [widgetEntry] [.null, widgetEntry, .array []] ∧
    ∃ u u' events events',
      Surface.ofText widgetSnapshot origin = .ok (u, events) ∧
      Surface.ofText brokenSnapshot origin = .ok (u', events') ∧
      [widgetEntry].map TypeInfo.ofJson? = u.types.map some ∧ u.unresolved = 0 ∧
      u' = { u with unresolved := 2 } ∧
      (a.check u).result.unresolved = 0 ∧
      (a.check u').result = { (a.check u).result with unresolved := 2 } ∧
      (a.check u').findings = (a.check u).findings := by
  intro origin fragment a
  obtain ⟨hread, hreplace, hchecks⟩ := bad_entries_cost_themselves origin a
  have hs : Snapshot.ofText? widgetSnapshot = some ⟨none, [widgetEntry]⟩ :=
    hread _ _ _ Json.only_widgetSnapshot rfl
  have hs' : Snapshot.ofText? brokenSnapshot = some ⟨none, [.null, widgetEntry, .array []]⟩ :=
    hread _ _ _ Json.only_brokenSnapshot (hreplace [] [] [widgetEntry] _ ⟨none, [widgetEntry]⟩ rfl)
  have hgood : ∀ e ∈ [widgetEntry], ∃ t, TypeInfo.ofJson? e = some t :=
    List.forall_mem_singleton.mpr ⟨_, rfl⟩
  have hbad : WithBad 2 [widgetEntry] [.null, widgetEntry, .array []] :=
    .bad (.inl rfl) (.keep _ (.bad (.inr rfl) .nil))
  exact ⟨hs, hs', hbad, hchecks _ _ _ _ 2 hs hs' rfl hgood hbad⟩

end DocAudit
