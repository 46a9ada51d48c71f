import DocAudit.Proofs.Spelling
/-!
# Overloads have different ids

A legible spelling can be read back: one pass over its characters, with a stack of the argument
lists that are open, finds the form that was spelled. So types with one spelling have one form, and
members with one id have one signature.

* `Reading.step`: one character of a spelling.
* `TypeForm.Reads`: the pass finds the form wherever its spelling stands.
* **`TypeRef.Legible.reads`**: this holds for the form of any legible reference.
* **`ids_tell_signatures`**: the spellings and ids of legible signatures are equal only if the
  signatures are.
-/

namespace DocAudit

/-! ## Reading a spelling -/

/-- What stands behind the last separator: characters without a mark, a whole form, or an array
whose brackets are still open. -/
inductive Pending where
  | text (cs : List Char)
  | form (f : TypeForm)
  | brackets (element : TypeForm) (rank : Nat)

/-- The form that is spelled without a mark, except for the backtick of a type parameter. -/
def TypeForm.leaf : List Char → TypeForm
  | '`' :: ds => .parameter (UInt32.ofNat (Nat.ofDigitChars 10 ds 0))
  | cs => .named (String.ofList cs) []

/-- The form that is pending, unless brackets are open. -/
def Pending.form? : Pending → Option TypeForm
  | text cs => some (.leaf cs)
  | form f => some f
  | brackets _ _ => none

/-- A state of the pass: the generic types whose braces are open, innermost first, with the
arguments before the pending one. -/
structure Reading where
  outer : List (String × List TypeForm)
  pending : Pending

namespace Reading

/-- The state after a mark behind a form; other marks are skipped. -/
def behind (outer : List (String × List TypeForm)) (f : TypeForm) (c : Char) : Reading :=
  match c, outer with
  | '[', outer => ⟨outer, .brackets f 1⟩
  | '@', outer => ⟨outer, .form (.byRef f)⟩
  | ',', (path, fs) :: outer => ⟨(path, fs ++ [f]) :: outer, .text []⟩
  | '}', (path, fs) :: outer => ⟨outer, .form (.named path (fs ++ [f]))⟩
  | _, outer => ⟨outer, .form f⟩

def step : Reading → Char → Reading
  | ⟨outer, .brackets element rank⟩, c =>
    if c = ',' then ⟨outer, .brackets element (rank + 1)⟩ else ⟨outer, .form (.array element rank)⟩
  | ⟨outer, .form f⟩, c => behind outer f c
  | ⟨outer, .text cs⟩, c =>
    if c = '{' then ⟨(String.ofList cs, []) :: outer, .text []⟩
    else if c ∈ spellingMarks then behind outer (.leaf cs) c
    else ⟨outer, .text (cs ++ [c])⟩

/-- The state after some characters. -/
def run (r : Reading) (cs : List Char) : Reading := cs.foldl step r

theorem run_append (r : Reading) (cs ds : List Char) : r.run (cs ++ ds) = (r.run cs).run ds :=
  List.foldl_append

theorem run_cons (r : Reading) (c : Char) (cs : List Char) : r.run (c :: cs) = (r.step c).run cs :=
  rfl

theorem run_singleton (r : Reading) (c : Char) : r.run [c] = r.step c := rfl

variable (outer : List (String × List TypeForm))

theorem run_text (cs ds : List Char) (h : ∀ d ∈ ds, d ∉ spellingMarks) :
    run ⟨outer, .text cs⟩ ds = ⟨outer, .text (cs ++ ds)⟩ := by
  induction ds generalizing cs with
  | nil =>
    rw [List.append_nil]
    rfl
  | cons d ds ih =>
    obtain ⟨hd, hds⟩ := List.forall_mem_cons.mp h
    have hne : d ≠ '{' := by
      rintro rfl
      exact hd (by decide)
    rw [run_cons, step, if_neg hne, if_neg hd, ih _ hds, List.append_assoc, List.singleton_append]

theorem run_commas (element : TypeForm) (rank k : Nat) :
    run ⟨outer, .brackets element rank⟩ (List.replicate k ',') =
      ⟨outer, .brackets element (rank + k)⟩ := by
  induction k generalizing rank with
  | zero => rfl
  | succ k ih =>
    rw [List.replicate_succ, run_cons, step, if_pos rfl, ih, Nat.add_right_comm, Nat.add_assoc]

/-- A mark behind a form is read the same way whether the form was read with or without marks. -/
theorem step_of_form? {p : Pending} {f : TypeForm} (h : p.form? = some f) {c : Char}
    (hc : c ∈ spellingMarks) (hne : c ≠ '{') : step ⟨outer, p⟩ c = behind outer f c := by
  cases p with
  | text cs =>
    cases h
    rw [step, if_neg hne, if_pos hc]
  | form g =>
    cases h
    rfl
  | brackets element rank => cases h

end Reading

/-! ## Every legible spelling is read -/

namespace TypeForm

/-- Wherever the spelling of the form stands, it is read as this form. -/
def Reads (f : TypeForm) : Prop :=
  ∀ outer, ∃ p : Pending, p.form? = some f ∧
    Reading.run ⟨outer, .text []⟩ f.spelling.toList = ⟨outer, p⟩

theorem leaf_of_plain {cs : List Char} (h : Plain cs) : leaf cs = .named (String.ofList cs) [] := by
  unfold leaf
  split
  · exact absurd List.mem_cons_self (h '`' List.mem_cons_self)
  · rfl

theorem not_mem_spellingMarks_of_isDigit {c : Char} (h : c.isDigit = true) :
    c ∉ spellingMarks := by
  intro hc
  have hmarks : spellingMarks.all (! ·.isDigit) = true := rfl
  have hnot := List.all_eq_true.mp hmarks c hc
  rw [h] at hnot
  exact Bool.false_ne_true hnot

theorem reads_parameter (position : UInt32) : (parameter position).Reads := by
  intro outer
  refine ⟨.text ('`' :: Nat.toDigits 10 position.toNat), ?_, ?_⟩
  · rw [Pending.form?, leaf, Nat.ofDigitChars_ten_toDigits, UInt32.ofNat_toNat]
  · rw [spelling, String.toList_append, Nat.toList_repr]
    refine Reading.run_text outer [] _ (List.forall_mem_cons.mpr ⟨by decide, fun c hc => ?_⟩)
    exact not_mem_spellingMarks_of_isDigit
      (Nat.isDigit_of_mem_toDigits (by decide) (by decide) hc)

theorem reads_path {path : String} (h : Plain path.toList) : (named path []).Reads := by
  intro outer
  refine ⟨.text path.toList, ?_, ?_⟩
  · rw [Pending.form?, leaf_of_plain h, String.ofList_toList]
  · exact Reading.run_text outer [] _ h.not_mem_spellingMarks

theorem Reads.array {f : TypeForm} (h : f.Reads) {rank : Nat} (hr : 1 ≤ rank) :
    (array f rank).Reads := by
  intro outer
  obtain ⟨p, hp, hrun⟩ := h outer
  have hopen : Reading.step ⟨outer, p⟩ '[' = ⟨outer, .brackets f 1⟩ :=
    Reading.step_of_form? outer hp (by decide) (by decide)
  refine ⟨.form (.array f rank), rfl, ?_⟩
  have hchars : (TypeForm.array f rank).spelling.toList =
      f.spelling.toList ++ '[' :: (List.replicate (rank - 1) ',' ++ [']']) := by
    simp [spelling]
  rw [hchars, Reading.run_append, hrun, Reading.run_cons, hopen, Reading.run_append,
    Reading.run_commas, Nat.add_sub_cancel' hr]
  rfl

theorem Reads.byRef {f : TypeForm} (h : f.Reads) : (byRef f).Reads := by
  intro outer
  obtain ⟨p, hp, hrun⟩ := h outer
  refine ⟨.form (.byRef f), rfl, ?_⟩
  rw [spelling, String.toList_append, Reading.run_append, hrun]
  exact Reading.step_of_form? outer hp (by decide) (by decide)

theorem run_arguments {f : TypeForm} {fs : List TypeForm} (h : ∀ g ∈ f :: fs, g.Reads)
    (path : String) (gs : List TypeForm) (outer : List (String × List TypeForm)) :
    Reading.run ⟨(path, gs) :: outer, .text []⟩
        ((",".intercalate (spellings (f :: fs))).toList ++ ['}']) =
      ⟨outer, .form (.named path (gs ++ f :: fs))⟩ := by
  induction fs generalizing f gs with
  | nil =>
    obtain ⟨p, hp, hrun⟩ := h f List.mem_cons_self ((path, gs) :: outer)
    rw [spellings, spellings, String.intercalate_singleton, Reading.run_append, hrun]
    exact Reading.step_of_form? _ hp (by decide) (by decide)
  | cons g fs ih =>
    obtain ⟨hf, hfs⟩ := List.forall_mem_cons.mp h
    obtain ⟨p, hp, hrun⟩ := hf ((path, gs) :: outer)
    have hcomma : Reading.step ⟨(path, gs) :: outer, p⟩ ',' =
        ⟨(path, gs ++ [f]) :: outer, .text []⟩ :=
      Reading.step_of_form? _ hp (by decide) (by decide)
    rw [spellings, spellings, String.intercalate_cons_cons, ← spellings, String.toList_append,
      String.toList_append, List.append_assoc, List.append_assoc, Reading.run_append, hrun,
      show ",".toList = [','] from rfl, Reading.run_append, Reading.run_singleton, hcomma, ih hfs,
      List.append_assoc, List.singleton_append]

theorem Reads.generic {path : String} (hpath : Plain path.toList) {f : TypeForm}
    {fs : List TypeForm} (h : ∀ g ∈ f :: fs, g.Reads) : (named path (f :: fs)).Reads := by
  intro outer
  refine ⟨.form (.named path (f :: fs)), rfl, ?_⟩
  have hopen : Reading.run ⟨outer, .text []⟩ (path.toList ++ ['{']) =
      ⟨(path, []) :: outer, .text []⟩ := by
    rw [Reading.run_append, Reading.run_text outer [] _ hpath.not_mem_spellingMarks,
      List.nil_append, Reading.run_singleton, Reading.step, if_pos rfl, String.ofList_toList]
  rw [spelling, String.toList_append, String.toList_append, String.toList_append,
    List.append_assoc, Reading.run_append]
  exact (congrArg (Reading.run · _) hopen).trans (run_arguments h path [] outer)

/-- **Forms that can be read are told apart by their spelling.** -/
theorem Reads.eq_of_spelling {f g : TypeForm} (hf : f.Reads) (hg : g.Reads)
    (h : f.spelling = g.spelling) : f = g := by
  obtain ⟨p, hp, hprun⟩ := hf []
  obtain ⟨q, hq, hqrun⟩ := hg []
  -- the same characters leave the reader in the same state
  have hpq : p = q := by
    rw [h, hqrun] at hprun
    exact (Reading.mk.inj hprun).2.symm
  rw [hpq, hq] at hp
  exact (Option.some.inj hp).symm

/-- Argument lists that can be read are told apart by their spelling. -/
theorem Reads.eq_of_intercalate {f g : TypeForm} {fs gs : List TypeForm}
    (hf : ∀ x ∈ f :: fs, x.Reads) (hg : ∀ x ∈ g :: gs, x.Reads)
    (h : ",".intercalate (spellings (f :: fs)) = ",".intercalate (spellings (g :: gs))) :
    f :: fs = g :: gs := by
  -- both are read as the arguments of one generic type, whose name does not matter
  have hread := run_arguments hf "" [] []
  rw [h, run_arguments hg "" [] []] at hread
  injection hread with _ hread
  injection hread with hread
  injection hread with _ hread
  exact hread.symm

end TypeForm

namespace TypeRef

theorem exists_reads_of_forall {ts : List TypeRef}
    (h : ∀ t ∈ ts, ∃ f, t.form = some f ∧ f.Reads) :
    ∃ fs, ts.map form = fs.map some ∧ formAll ts = some fs ∧ ∀ f ∈ fs, f.Reads := by
  induction ts with
  | nil => exact ⟨[], rfl, rfl, fun f hf => nomatch hf⟩
  | cons t ts ih =>
    obtain ⟨⟨f, hf, hr⟩, hts⟩ := List.forall_mem_cons.mp h
    obtain ⟨fs, hmap, hall, hrs⟩ := ih hts
    refine ⟨f :: fs, ?_, ?_, List.forall_mem_cons.mpr ⟨hr, hrs⟩⟩
    · rw [List.map_cons, hf, hmap, List.map_cons]
    · rw [formAll, hf, hall]

/-- **A legible reference has a form, and its spelling is read as this form.** -/
theorem Legible.reads {t : TypeRef} (h : t.Legible) : ∃ f, t.form = some f ∧ f.Reads := by
  induction t with
  | named ns name declaring args ih =>
    obtain ⟨fs, -, hfs, hr⟩ := exists_reads_of_forall fun t ht => ih t ht (h.argument ht)
    refine ⟨.named (dottedPath ns declaring name) fs, ?_, ?_⟩
    · rw [form, hfs]
      rfl
    · cases fs with
      | nil => exact TypeForm.reads_path h.path
      | cons f fs => exact TypeForm.Reads.generic h.path hr
  | array element rank ih =>
    obtain ⟨f, hf, hr⟩ := ih h.element
    refine ⟨.array f (max rank.toNat 1), ?_, hr.array (Nat.le_max_right _ _)⟩
    rw [form, hf]
    rfl
  | byRef element ih =>
    obtain ⟨f, hf, hr⟩ := ih h.target
    refine ⟨.byRef f, ?_, hr.byRef⟩
    rw [form, hf]
    rfl
  | parameter position name => exact ⟨.parameter position, rfl, TypeForm.reads_parameter position⟩
  | unresolved hint => exact absurd h Legible.not_unresolved

theorem spell_eq_spell_iff {a b : TypeRef} (ha : a.Legible) (hb : b.Legible) :
    a.spell = b.spell ↔ a.form = b.form := by
  obtain ⟨f, hf, hfr⟩ := ha.reads
  obtain ⟨g, hg, hgr⟩ := hb.reads
  rw [spell_eq, spell_eq, hf, hg]
  constructor
  · intro h
    rw [hfr.eq_of_spelling hgr (Option.some.inj h)]
  · intro h
    rw [h]

end TypeRef

/-! ## Signatures -/

/-- The forms of the parameter types. -/
def forms (ps : List ParameterInfo) : List (Option TypeForm) := ps.map (·.type.form)

/-- All parameter types are legible. -/
def LegibleAll (ps : List ParameterInfo) : Prop := ∀ p ∈ ps, p.type.Legible

/-- What an id has behind the name. -/
def TypeForm.suffix : List TypeForm → String
  | [] => ""
  | f :: fs => "(" ++ ",".intercalate (spellings (f :: fs)) ++ ")"

theorem TypeForm.eq_of_suffix {fs gs : List TypeForm} (hf : ∀ f ∈ fs, f.Reads)
    (hg : ∀ g ∈ gs, g.Reads) (h : suffix fs = suffix gs) : fs = gs := by
  cases fs with
  | nil =>
    cases gs with
    | nil => rfl
    | cons g gs => simp [suffix] at h
  | cons f fs =>
    cases gs with
    | nil => simp [suffix] at h
    | cons g gs =>
      rw [suffix, suffix, String.append_left_inj, String.append_right_inj] at h
      exact Reads.eq_of_intercalate hf hg h

theorem TypeForm.takeWhile_append_suffix {name : String} (h : '(' ∉ name.toList)
    (fs : List TypeForm) :
    (name ++ suffix fs).toList.takeWhile (· ≠ '(') = name.toList := by
  have hname : ∀ c ∈ name.toList, decide (c ≠ '(') = true := by
    intro c hc
    refine decide_eq_true ?_
    rintro rfl
    exact h hc
  rw [String.toList_append, List.takeWhile_append_of_pos hname]
  cases fs with
  | nil => exact List.append_nil _
  | cons f fs => simp [suffix]

theorem LegibleAll.exists_forms {ps : List ParameterInfo} (h : LegibleAll ps) :
    ∃ fs, forms ps = fs.map some ∧ (∀ f ∈ fs, f.Reads) ∧
      ∀ name element, spellSignature name ps element = .ok (name ++ TypeForm.suffix fs) := by
  obtain ⟨fs, hmap, hall, hr⟩ :=
    TypeRef.exists_reads_of_forall (List.forall_mem_map.mpr fun p hp => (h p hp).reads)
  rw [List.map_map] at hmap
  refine ⟨fs, hmap, hr, fun name element => ?_⟩
  cases ps with
  | nil =>
    obtain rfl : fs = [] := by simpa using hmap.symm
    rw [spellSignature, TypeForm.suffix, String.append_empty]
  | cons p ps =>
    obtain ⟨f, fs, rfl⟩ : ∃ g gs, fs = g :: gs := by
      refine List.exists_cons_of_ne_nil ?_
      rintro rfl
      cases hmap
    rw [spellSignature, spellParameters, TypeRef.spellAll_eq, hall]
    simp only [Option.map_some, Except.map, TypeForm.suffix, String.append_assoc]

section Signatures

variable {ps qs : List ParameterInfo} (hps : LegibleAll ps) (hqs : LegibleAll qs)
include hps

theorem exists_spellSignature (name element : String) :
    ∃ s, spellSignature name ps element = .ok s := by
  obtain ⟨fs, -, -, hs⟩ := hps.exists_forms
  exact ⟨_, hs name element⟩

include hqs

/-- Behind the same name, signatures are spelled the same only if they have the same forms. -/
theorem spellSignature_eq_iff_forms (name element element' : String) :
    spellSignature name ps element = spellSignature name qs element' ↔ forms ps = forms qs := by
  obtain ⟨fs, hfs, hfr, hf⟩ := hps.exists_forms
  obtain ⟨gs, hgs, hgr, hg⟩ := hqs.exists_forms
  rw [hf, hg, hfs, hgs]
  constructor
  · intro h
    have hsuffix := (String.append_right_inj name).mp (Except.ok.inj h)
    rw [TypeForm.eq_of_suffix hfr hgr hsuffix]
  · intro h
    rw [(List.map_inj_right fun _ _ => Option.some.inj).mp h]

theorem spellSignature_eq_iff {name name' : String} (hn : '(' ∉ name.toList)
    (hn' : '(' ∉ name'.toList) (element element' : String) :
    spellSignature name ps element = spellSignature name' qs element' ↔
      name = name' ∧ forms ps = forms qs := by
  rw [← spellSignature_eq_iff_forms hps hqs name element element']
  obtain ⟨fs, -, -, hf⟩ := hps.exists_forms
  obtain ⟨gs, -, -, hg⟩ := hqs.exists_forms
  constructor
  · intro h
    have heq : name ++ TypeForm.suffix fs = name' ++ TypeForm.suffix gs := by
      rw [hf, hg] at h
      exact Except.ok.inj h
    have hname : name = name' := by
      rw [← String.toList_inj, ← TypeForm.takeWhile_append_suffix hn fs, heq,
        TypeForm.takeWhile_append_suffix hn' gs]
    exact ⟨hname, hname ▸ h⟩
  · rintro ⟨rfl, h⟩
    exact h

end Signatures

/-! ## Keys and ids -/

theorem map_key_inj (letter : Char) (a b : Except SynthesisError String) :
    a.map (MemberKey.mk letter) = b.map (MemberKey.mk letter) ↔ a = b := by
  cases a <;> cases b <;> simp [Except.map]

theorem exists_map_key {a : Except SynthesisError String} (h : ∃ s, a = .ok s) (letter : Char) :
    ∃ k, a.map (MemberKey.mk letter) = .ok k := by
  obtain ⟨s, rfl⟩ := h
  exact ⟨⟨letter, s⟩, rfl⟩

/-- **Spellings and ids are unambiguous.** Legible types are spelled the same only if they have the
same form, and constructors, methods and indexers with legible parameters have the same key only
if they have the same name and the same parameters, one by one. -/
theorem ids_tell_signatures :
    (∀ a b : TypeRef, a.Legible → b.Legible →
      (∃ s, a.spell = some s) ∧ (a.spell = b.spell ↔ a.form = b.form)) ∧
    (∀ (owner : TypeInfo) (c d : MethodInfo),
      LegibleAll c.parameters → LegibleAll d.parameters →
      (∃ id, owner.constructorId c = .ok id) ∧
      (owner.constructorId c = owner.constructorId d ↔
        forms c.parameters = forms d.parameters)) ∧
    (∀ m n : MethodInfo, LegibleAll m.parameters → LegibleAll n.parameters →
      '(' ∉ m.name.toList → '(' ∉ n.name.toList →
      (∃ k, m.key = .ok k) ∧
      (m.key = n.key ↔ m.name = n.name ∧ forms m.parameters = forms n.parameters)) ∧
    (∀ p q : PropertyInfo, LegibleAll p.indexParameters → LegibleAll q.indexParameters →
      '(' ∉ p.name.toList → '(' ∉ q.name.toList →
      (∃ k, p.key = .ok k) ∧
      (p.key = q.key ↔ p.name = q.name ∧ forms p.indexParameters = forms q.indexParameters)) := by
  refine ⟨fun a b ha hb => ⟨?_, TypeRef.spell_eq_spell_iff ha hb⟩,
    fun owner c d hc hd => ⟨exists_spellSignature hc _ _, spellSignature_eq_iff_forms hc hd _ _ _⟩,
    fun m n hm hn hmn hnn => ⟨?_, ?_⟩, fun p q hp hq hpn hqn => ⟨?_, ?_⟩⟩
  · obtain ⟨f, hf, -⟩ := ha.reads
    exact ⟨f.spelling, by rw [TypeRef.spell_eq, hf, Option.map_some]⟩
  · exact exists_map_key (exists_spellSignature hm _ _) _
  · exact (map_key_inj _ _ _).trans (spellSignature_eq_iff hm hn hmn hnn _ _)
  · exact exists_map_key (exists_spellSignature hp _ _) _
  · exact (map_key_inj _ _ _).trans (spellSignature_eq_iff hp hq hpn hqn _ _)

/-- The type `Dictionary<int, int[]>`, with a rank for its arrays. -/
def arrayTable (rank : UInt32) : TypeRef :=
  .named (some "System.Collections.Generic") "Dictionary`2" []
    [.named none "int" [] [], .array (.named none "int" [] []) rank]

theorem arrayTable_legible (rank : UInt32) : (arrayTable rank).Legible where
  resolved hint h := by simp [arrayTable, TypeRef.parts, TypeRef.partsAll] at h
  plain ns name declaring args h := by
    simp only [arrayTable, TypeRef.parts, TypeRef.partsAll, List.mem_cons, List.mem_append,
      List.not_mem_nil, or_false, false_or, reduceCtorEq, TypeRef.named.injEq] at h
    obtain ⟨rfl, rfl, rfl, -⟩ | ⟨rfl, rfl, rfl, -⟩ | ⟨rfl, rfl, rfl, -⟩ := h <;> decide

theorem form_arrayTable (rank : UInt32) :
    (arrayTable rank).form =
      some (.named "System.Collections.Generic.Dictionary"
        [.named "System.Int32" [], .array (.named "System.Int32" []) (max rank.toNat 1)]) := by
  have htable : dottedPath (some "System.Collections.Generic") [] "Dictionary`2" =
      "System.Collections.Generic.Dictionary" := by decide
  have hint : dottedPath none [] "int" = "System.Int32" := by decide
  simp only [arrayTable, TypeRef.form, TypeRef.formAll, Option.map_some, htable, hint]

theorem ids_tell_signatures_arrayTable :
    (arrayTable 0).spell = (arrayTable 1).spell ∧
    TypeInfo.constructorId { name := "Grid" }
        { name := ".ctor", parameters := [{ type := arrayTable 1 }] } ≠
      TypeInfo.constructorId { name := "Grid" }
        { name := ".ctor", parameters := [{ type := arrayTable 2 }] } ∧
    MethodInfo.key { name := "Fill", parameters := [{ type := arrayTable 1 }] } ≠
      MethodInfo.key { name := "Fill", parameters := [{ type := arrayTable 2 }] } ∧
    PropertyInfo.key { name := "Item", getter := some { parameters := [] } } ≠
      PropertyInfo.key
        { name := "Item", getter := some { parameters := [{ type := arrayTable 1 }] } } := by
  obtain ⟨hspell, hconstructor, hmethod, hproperty⟩ := ids_tell_signatures
  have hlegible (rank : UInt32) : LegibleAll [{ type := arrayTable rank }] := by
    intro p hp
    rw [List.mem_singleton.mp hp]
    exact arrayTable_legible rank
  have hne : forms [{ type := arrayTable 1 }] ≠ forms [{ type := arrayTable 2 }] := by
    simp [forms, form_arrayTable]
  refine ⟨?_, ?_, ?_, ?_⟩
  · refine (hspell _ _ (arrayTable_legible 0) (arrayTable_legible 1)).2.mpr ?_
    rw [form_arrayTable, form_arrayTable]
    rfl
  · exact fun h => hne ((hconstructor _ _ _ (hlegible 1) (hlegible 2)).2.mp h)
  · exact fun h =>
      hne ((hmethod _ _ (hlegible 1) (hlegible 2) (by decide) (by decide)).2.mp h).2
  · intro h
    have hnone : LegibleAll [] := fun _ hp => nomatch hp
    have hforms := ((hproperty { name := "Item", getter := some { parameters := [] } }
      { name := "Item", getter := some { parameters := [{ type := arrayTable 1 }] } }
      hnone (hlegible 1) (by decide) (by decide)).2.mp h).2
    exact List.cons_ne_nil _ _ hforms.symm

end DocAudit
