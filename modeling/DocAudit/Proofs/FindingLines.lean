import DocAudit.Console.Lines
import DocAudit.Docs.Documentation
import DocAudit.Proofs.Inventory
import DocAudit.Proofs.Lookups
import DocAudit.Proofs.Spelling
import Mathlib.Data.List.TakeDrop
/-!
# Lines for findings

Each finding is printed with its name and its summary as they are. Blanks around a summary are
removed, line breaks inside it are not: a summary over several lines is printed over several lines.

* `Text.SingleLine`: texts without line breaks.
* `Surface.names`: the names of a library that are printed.
* **`Console.mem_findingLine_iff`**: a printed finding has the line breaks of its name and summary.
* **`Console.count_printed_eq_iff`**: when there are as many printed lines as texts to print.
* **`Auditor.onOneLine_tree_iff`**: when all summaries that a check looks up are on one line.
* **`finding_lines_iff`**: when the findings of a check are printed on one line each.
-/

namespace DocAudit

/-! ## Texts on one line -/

namespace Text

/-- A line feed or a carriage return. -/
def IsLineBreak (c : Char) : Prop := c = '\n' ∨ c = '\r'

instance (c : Char) : Decidable (IsLineBreak c) := inferInstanceAs (Decidable (_ ∨ _))

/-- A text without line breaks. -/
def SingleLine (s : String) : Prop := ∀ c ∈ s.toList, ¬ IsLineBreak c

instance (s : String) : Decidable (SingleLine s) := List.decidableBAll _ s.toList

@[simp] theorem singleLine_append (s t : String) :
    SingleLine (s ++ t) ↔ SingleLine s ∧ SingleLine t := by
  rw [SingleLine, String.toList_append, List.forall_mem_append]
  rfl

theorem singleLine_intercalate {sep : String} (hsep : SingleLine sep) :
    ∀ {ss : List String}, (∀ s ∈ ss, SingleLine s) → SingleLine (sep.intercalate ss)
  | [], _ => fun _ hc => absurd hc List.not_mem_nil
  | [s], h => by
    rw [String.intercalate_singleton]
    exact h s List.mem_cons_self
  | s :: t :: ss, h => by
    obtain ⟨hs, hss⟩ := List.forall_mem_cons.mp h
    rw [String.intercalate_cons_cons, singleLine_append, singleLine_append]
    exact ⟨⟨hs, hsep⟩, singleLine_intercalate hsep hss⟩

theorem singleLine_repr (n : Nat) : SingleLine n.repr := by
  intro c hc
  rw [Nat.toList_repr] at hc
  have hdigit := Nat.isDigit_of_mem_toDigits (by omega) (by omega) hc
  rintro (rfl | rfl) <;> exact absurd hdigit (by decide)

end Text

open Text

/-! ## Printed findings -/

namespace Console

section

variable {c : Char} (hc : IsLineBreak c)

include hc

theorem Style.mem_wrap_iff (style : Style) (text : String) :
    c ∈ (style.wrap text).toList ↔ c ∈ text.toList := by
  have hon : SingleLine (sequence style.on) := by cases style <;> decide
  have hoff : SingleLine (sequence style.off) := by cases style <;> decide
  rw [wrap, String.toList_append, String.toList_append, List.mem_append, List.mem_append]
  constructor
  · rintro ((h | h) | h)
    · exact absurd hc (hon c h)
    · exact h
    · exact absurd hc (hoff c h)
  · exact fun h => .inl (.inr h)

theorem Span.mem_styled_iff (s : Span) : c ∈ s.styled.toList ↔ c ∈ s.text.toList := by
  rw [styled]
  generalize s.text = text
  induction s.styles generalizing text with
  | nil => rfl
  | cons style styles ih => rw [List.foldl_cons, ih, style.mem_wrap_iff hc]

theorem Line.mem_render_iff (color : Bool) (l : Line) :
    c ∈ (l.render color).toList ↔ ∃ s ∈ l, c ∈ s.text.toList := by
  cases color with
  | false => simp [render, plain, String.toList_join]
  | true => simp [render, styled, String.toList_join, Span.mem_styled_iff hc]

/-- **A printed finding has the line breaks of its name and of its summary**, with or without
styles. -/
theorem mem_findingLine_iff (color : Bool) (f : Finding) :
    c ∈ ((findingLine f).render color).toList ↔
      c ∈ f.name.toList ∨ ∃ text ∈ f.summary, c ∈ text.toList := by
  have hindent : SingleLine (indentOf f.kind) := by cases f.kind <;> decide
  have hlabel : SingleLine f.kind.label := by cases f.kind <;> decide
  have hkind : c ∉ (indentOf f.kind).toList ∧ c ∉ f.kind.label.toList :=
    ⟨fun h => hindent c h hc, fun h => hlabel c h hc⟩
  rw [Line.mem_render_iff hc, findingLine]
  rcases hc with rfl | rfl <;> cases f.summary <;> simp [hkind, missingMark]

end

theorem singleLine_findingLine_iff (color : Bool) {f : Finding} (hname : SingleLine f.name) :
    SingleLine ((findingLine f).render color) ↔ ∀ text ∈ f.summary, SingleLine text := by
  constructor
  · exact fun h text htext c hc hbreak =>
      h c ((mem_findingLine_iff hbreak color f).mpr (.inr ⟨text, htext, hc⟩)) hbreak
  · intro h c hc hbreak
    rcases (mem_findingLine_iff hbreak color f).mp hc with hc | ⟨text, htext, hc⟩
    · exact hname c hc hbreak
    · exact h text htext c hc hbreak

/-- What is printed for some texts, each of which is ended. -/
def printed (texts : List String) : String := String.join (texts.map (· ++ "\n"))

theorem count_printed (texts : List String) : (printed texts).toList.count '\n' =
    texts.length + (texts.flatMap String.toList).count '\n' := by
  induction texts with
  | nil => rfl
  | cons text texts ih =>
    have hend : "\n".toList.count '\n' = 1 := by decide
    rw [printed, List.map_cons, String.join_cons, String.toList_append, String.toList_append,
      List.count_append, List.count_append, hend, ← printed, ih, List.length_cons,
      List.flatMap_cons, List.count_append]
    omega

/-- **Each text is one printed line exactly when no text has a line feed in it.** -/
theorem count_printed_eq_iff (texts : List String) :
    (printed texts).toList.count '\n' = texts.length ↔ ∀ text ∈ texts, '\n' ∉ text.toList := by
  rw [count_printed, Nat.add_eq_left, List.count_eq_zero, List.mem_flatMap, not_exists]
  simp only [not_and]

end Console

/-! ## Names -/

theorem singleLine_stripArity {name : String} (h : SingleLine name) :
    SingleLine (stripArity name) := by
  unfold stripArity
  split
  · next digits base hspan =>
    intro c hc
    rw [String.toList_ofList, List.mem_reverse] at hc
    refine h c (List.mem_reverse.mp ?_)
    rw [List.span_eq_takeWhile_dropWhile, Prod.mk.injEq] at hspan
    refine (List.dropWhile_suffix Char.isDigit).mem ?_
    rw [hspan.2]
    exact List.mem_cons_of_mem _ hc
  · exact h

namespace TypeRef

/-- The name that is written at the top of a reference. -/
def ownName? : TypeRef → Option String
  | named _ name _ _ => some name
  | array _ _ => none
  | byRef _ => none
  | parameter _ name => name
  | unresolved hint => hint

/-- The names in a reference that its short name is built from. -/
def names (t : TypeRef) : List String := t.parts.filterMap ownName?

theorem names_named (ns : Option String) (name : String) (declaring : List String)
    (args : List TypeRef) : (named ns name declaring args).names = name :: args.flatMap names := by
  simp only [names, parts, partsAll_eq_flatMap, ownName?, List.filterMap_cons,
    List.filterMap_flatMap]
  rfl

theorem singleLine_shortName (t : TypeRef) :
    (∀ name ∈ t.names, SingleLine name) → SingleLine t.shortName := by
  induction t with
  | named ns name declaring args ih =>
    rw [names_named, List.forall_mem_cons, List.forall_mem_flatMap]
    rintro ⟨hname, hargs⟩
    have hname := singleLine_stripArity hname
    cases args with
    | nil => exact hname
    | cons a as =>
      have hlist : SingleLine (", ".intercalate (shortNames (a :: as))) := by
        refine singleLine_intercalate (by decide) ?_
        rw [shortNames_eq_map, List.forall_mem_map]
        exact fun t ht => ih t ht (hargs t ht)
      simp only [shortName, singleLine_append]
      exact ⟨⟨⟨hname, by decide⟩, hlist⟩, by decide⟩
  | array element rank ih =>
    intro h
    have hcommas : SingleLine (rankCommas rank) := by
      intro c hc
      rw [rankCommas, String.toList_ofList] at hc
      rw [List.eq_of_mem_replicate hc]
      decide
    simp only [shortName, singleLine_append]
    exact ⟨⟨⟨ih h, by decide⟩, hcommas⟩, by decide⟩
  | byRef element ih =>
    intro h
    rw [shortName, singleLine_append]
    exact ⟨ih h, by decide⟩
  | parameter position name =>
    intro h
    cases name with
    | none => exact (singleLine_append _ _).mpr ⟨by decide, singleLine_repr _⟩
    | some name => exact h name List.mem_cons_self
  | unresolved hint =>
    intro h
    cases hint with
    | none => show SingleLine "?"; decide
    | some hint => exact h hint List.mem_cons_self

theorem singleLine_shortNames {ps : List ParameterInfo}
    (h : ∀ name ∈ ps.flatMap (·.type.names), SingleLine name) :
    SingleLine (", ".intercalate (ps.map (·.type.shortName))) := by
  refine singleLine_intercalate (by decide) ?_
  rw [List.forall_mem_map]
  exact fun p hp => p.type.singleLine_shortName (List.forall_mem_flatMap.mp h p hp)

end TypeRef

/-- The names in a constructor or method that are printed. -/
def MethodInfo.names (m : MethodInfo) : List String :=
  m.name :: m.parameters.flatMap (·.type.names)

/-- The names in a property that are printed. -/
def PropertyInfo.names (p : PropertyInfo) : List String :=
  p.name :: p.indexParameters.flatMap (·.type.names)

/-- The names in a type that are printed. -/
def TypeInfo.names (t : TypeInfo) : List String :=
  t.namespaceName :: (t.declaring ++ [t.name]) ++ t.constructors.flatMap (·.names) ++
    t.methods.flatMap (·.names) ++ t.fields.map (·.name) ++ t.properties.flatMap (·.names)

theorem TypeInfo.forall_mem_names {P : String → Prop} {t : TypeInfo} :
    (∀ name ∈ t.names, P name) ↔
      P t.namespaceName ∧ (∀ name ∈ t.declaring, P name) ∧ P t.name ∧
        (∀ c ∈ t.constructors, ∀ name ∈ c.names, P name) ∧
        (∀ m ∈ t.methods, ∀ name ∈ m.names, P name) ∧ (∀ f ∈ t.fields, P f.name) ∧
        ∀ p ∈ t.properties, ∀ name ∈ p.names, P name := by
  simp only [names, List.cons_append, List.nil_append, List.append_assoc, List.forall_mem_cons,
    List.forall_mem_append, List.forall_mem_flatMap, List.forall_mem_map]

/-- The names in a library that are printed. -/
def Surface.names (s : Surface) : List String := s.types.flatMap (·.names)

theorem MethodInfo.singleLine_displayName {m : MethodInfo}
    (h : ∀ name ∈ m.names, SingleLine name) : SingleLine m.displayName := by
  obtain ⟨hname, hparameters⟩ := List.forall_mem_cons.mp h
  simp only [displayName, singleLine_append]
  exact ⟨⟨⟨hname, by decide⟩, TypeRef.singleLine_shortNames hparameters⟩, by decide⟩

theorem PropertyInfo.singleLine_displayName {p : PropertyInfo}
    (h : ∀ name ∈ p.names, SingleLine name) : SingleLine p.displayName := by
  obtain ⟨hname, hparameters⟩ := List.forall_mem_cons.mp h
  unfold displayName
  split
  · exact hname
  · simp only [singleLine_append]
    exact ⟨⟨⟨hname, by decide⟩, TypeRef.singleLine_shortNames hparameters⟩, by decide⟩

theorem singleLine_nameIn {ns name : String} (hns : SingleLine ns) (hname : SingleLine name) :
    SingleLine (nameIn ns name) := by
  unfold nameIn
  split
  · exact hname
  · rw [singleLine_append, singleLine_append]
    exact ⟨⟨hns, by decide⟩, hname⟩

namespace Auditor

variable (a : Auditor)

theorem members_typeNode_eq_map (t : TypeInfo) :
    (a.typeNode t).members = (a.auditedMembers t).map a.memberNode := by
  unfold auditedMembers
  split
  · next h => exact a.members_typeNode_of_skips h
  · next h => exact a.members_typeNode h

theorem singleLine_name_of_mem_auditedMembers {t : TypeInfo} {m : AuditedMember}
    (h : ∀ name ∈ t.names, SingleLine name) (hm : m ∈ a.auditedMembers t) :
    SingleLine m.name := by
  obtain ⟨-, -, -, hconstructors, hmethods, hfields, hproperties⟩ := TypeInfo.forall_mem_names.mp h
  unfold auditedMembers at hm
  split at hm
  · exact absurd hm List.not_mem_nil
  · simp only [List.mem_append, TypeInfo.auditedConstructors, TypeInfo.auditedMethods,
      TypeInfo.auditedFields, TypeInfo.auditedProperties, List.mem_map] at hm
    rcases hm with ((⟨c, hc, rfl⟩ | ⟨m, hm, rfl⟩) | ⟨f, hf, rfl⟩) | ⟨p, hp, rfl⟩
    · exact MethodInfo.singleLine_displayName (hconstructors c (List.mem_filter.mp hc).1)
    · exact MethodInfo.singleLine_displayName (hmethods m (List.mem_filter.mp hm).1)
    · exact hfields f (List.mem_filter.mp hf).1
    · exact PropertyInfo.singleLine_displayName (hproperties p (List.mem_filter.mp hp).1)

/-- **Without line breaks in the names of a library all findings have names on one line.** -/
theorem singleLine_name_of_mem_findings {s : Surface} (h : ∀ name ∈ s.names, SingleLine name) :
    ∀ f ∈ (a.tree s).findings, SingleLine f.name := by
  have htype {t : TypeInfo} (ht : t ∈ s.publicTypes) : ∀ name ∈ t.names, SingleLine name :=
    List.forall_mem_flatMap.mp h t (List.mem_filter.mp ht).1
  intro f hf
  obtain ⟨n, hn, hf⟩ := List.mem_flatMap.mp hf
  obtain ⟨p, hp, rfl⟩ := List.mem_map.mp hn
  have hns : SingleLine p.1 := by
    have hname := ((firstSeen_byNamespace s.publicTypes).mem_iff p.1).mp (List.mem_map_of_mem hp)
    obtain ⟨t, ht, hname⟩ := List.mem_map.mp hname
    rw [← hname]
    exact (TypeInfo.forall_mem_names.mp (htype ht)).1
  rcases List.mem_cons.mp hf with rfl | hf
  · exact hns
  obtain ⟨node, hnode, hf⟩ := List.mem_flatMap.mp hf
  obtain ⟨t, ht, rfl⟩ := List.mem_map.mp hnode
  have htpublic := (Surface.names_of_firstPublic? (Surface.firstPublic?_of_mem_unrepeated hp ht)).1
  have howner : SingleLine (nameIn p.1 (a.typeNode t).name) := by
    obtain ⟨-, hdeclaring, hname, -⟩ := TypeInfo.forall_mem_names.mp (htype htpublic)
    rw [name_typeNode]
    refine singleLine_nameIn hns (singleLine_intercalate (by decide) ?_)
    exact List.forall_mem_append.mpr ⟨hdeclaring, List.forall_mem_singleton.mpr hname⟩
  rcases List.mem_cons.mp hf with rfl | hf
  · exact howner
  obtain ⟨member, hmember, rfl⟩ := List.mem_map.mp hf
  rw [members_typeNode_eq_map] at hmember
  obtain ⟨m, hm, rfl⟩ := List.mem_map.mp hmember
  rw [MemberNode.finding, singleLine_append, singleLine_append]
  exact ⟨⟨howner, by decide⟩, a.singleLine_name_of_mem_auditedMembers (htype htpublic) hm⟩

end Auditor

/-! ## Summaries -/

/-- A summary is on one line, if there is one. -/
def Summary.OnOneLine (s : Summary) : Prop := ∀ text ∈ s.text?, SingleLine text

/-- What is written under an id is on one line, if there is something. -/
def DocIndex.OnOneLine (index : DocIndex) (id : String) : Prop :=
  ∀ f ∈ index.fragment id, SingleLine f.text

instance (index : DocIndex) (id : String) : Decidable (index.OnOneLine id) :=
  inferInstanceAs (Decidable (∀ f ∈ _, _))

theorem Summary.onOneLine_missing : missing.OnOneLine := nofun

theorem Summary.onOneLine_orExempt_iff (s : Summary) : s.orExempt.OnOneLine ↔ s.OnOneLine := by
  cases s <;> rfl

theorem Summary.singleLine_reported_iff (s : Summary) :
    (∀ text ∈ s.reported, SingleLine text) ↔ s.OnOneLine := by
  cases s with
  | present text => rfl
  | missing => rfl
  | exempt => exact iff_of_true (by decide : ∀ text ∈ some exemptNote, SingleLine text) nofun

theorem DocIndex.onOneLine_written_iff (index : DocIndex) (id : String) :
    (index.written id).OnOneLine ↔ index.OnOneLine id := by
  unfold written OnOneLine
  cases index.fragment id with
  | none => exact iff_of_true Summary.onOneLine_missing nofun
  | some f =>
    simp only [Option.mem_some_iff, forall_eq', Summary.ofText]
    split
    · next hempty =>
      rw [hempty]
      exact iff_of_true Summary.onOneLine_missing (by decide)
    · simp [Summary.OnOneLine, Summary.text?]

namespace Auditor

variable (a : Auditor)

theorem onOneLine_memberNode_iff (m : AuditedMember) :
    (a.memberNode m).summary.OnOneLine ↔ ∀ l ∈ m.lookups, a.index.OnOneLine l.id := by
  have hfound : (a.found m).OnOneLine ↔ ∀ l ∈ m.lookups, a.index.OnOneLine l.id := by
    unfold found AuditedMember.lookups
    cases m.id with
    | ok id => rw [List.forall_mem_singleton, a.index.onOneLine_written_iff]
    | error e => exact iff_of_true Summary.onOneLine_missing nofun
  unfold memberNode
  split
  · rw [Summary.onOneLine_orExempt_iff, hfound]
  · exact hfound

theorem onOneLine_typeNode_iff (ns : String) (t : TypeInfo) :
    (∀ f ∈ (a.typeNode t).findings ns, ∀ text ∈ f.summary, SingleLine text) ↔
      ∀ l ∈ a.typeLookups t, a.index.OnOneLine l.id := by
  rw [TypeNode.findings, members_typeNode_eq_map, typeLookups, List.singleton_append,
    List.forall_mem_cons, List.forall_mem_cons, Summary.singleLine_reported_iff,
    summary_typeNode, a.index.onOneLine_written_iff, List.forall_mem_map, List.forall_mem_map,
    List.forall_mem_flatMap]
  simp only [MemberNode.finding, Summary.singleLine_reported_iff, onOneLine_memberNode_iff]

theorem onOneLine_namespaceNode_iff (p : String × List TypeInfo) :
    (∀ f ∈ (a.namespaceNode p).findings, ∀ text ∈ f.summary, SingleLine text) ↔
      ∀ l ∈ a.namespaceLookups p, a.index.OnOneLine l.id := by
  have hsummary : (a.namespaceNode p).summary.OnOneLine ↔
      ∀ l ∈ if p.2.isEmpty then [] else [Lookup.mk p.1 (namespaceId p.1)],
        a.index.OnOneLine l.id := by
    unfold namespaceNode
    split
    · exact iff_of_true Summary.onOneLine_missing nofun
    · rw [List.forall_mem_singleton, a.index.onOneLine_written_iff]
  rw [NamespaceNode.findings, namespaceLookups, List.forall_mem_cons, List.forall_mem_append,
    Summary.singleLine_reported_iff, hsummary, List.forall_mem_flatMap, List.forall_mem_flatMap]
  show _ ∧ (∀ node ∈ (unrepeated [] p.2).map a.typeNode, _) ↔ _
  rw [List.forall_mem_map]
  simp only [onOneLine_typeNode_iff]

/-- **The summaries in a tree are on one line exactly when all that is looked up is.** -/
theorem onOneLine_tree_iff (s : Surface) :
    (∀ f ∈ (a.tree s).findings, ∀ text ∈ f.summary, SingleLine text) ↔
      ∀ l ∈ a.lookups s, a.index.OnOneLine l.id := by
  rw [Coverage.findings, tree, lookups, List.forall_mem_flatMap, List.forall_mem_flatMap,
    List.forall_mem_map]
  simp only [onOneLine_namespaceNode_iff]

end Auditor

/-! ## The lines of a check -/

/-- **Which findings are printed on one line.** Let no name in a library have a line break. A
finding is then printed on one line exactly when its summary is on one line. All findings of a check
are, exactly when only missing summaries are reported, or the check looks up no summary over several
lines. There are as many printed lines as findings exactly when no summary has a line feed in it. -/
theorem finding_lines_iff (a : Auditor) (s : Surface) (h : ∀ name ∈ s.names, SingleLine name)
    (color : Bool) (output : String) :
    let findings := (a.check s).findings
    (∀ f ∈ findings, SingleLine ((Console.findingLine f).render color) ↔
      ∀ text ∈ f.summary, SingleLine text) ∧
    ((∀ f ∈ findings, SingleLine ((Console.findingLine f).render color)) ↔
      a.options.onlyMissing = true ∨ ∀ l ∈ a.lookups s, a.index.OnOneLine l.id) ∧
    ((Console.printed (Console.findings color output findings)).toList.count '\n' =
        findings.length ↔
      ∀ f ∈ findings, ∀ text ∈ f.summary, '\n' ∉ text.toList) := by
  intro findings
  have hfindings : findings = (a.tree s).findings.filter a.options.reports := by
    rw [← Coverage.findings_aggregate, ← a.result_check]
    exact a.findings_check s
  have hname : ∀ f ∈ findings, SingleLine f.name := fun f hf =>
    a.singleLine_name_of_mem_findings h f (List.mem_filter.mp (hfindings ▸ hf)).1
  have hline : ∀ f ∈ findings, SingleLine ((Console.findingLine f).render color) ↔
      ∀ text ∈ f.summary, SingleLine text :=
    fun f hf => Console.singleLine_findingLine_iff color (hname f hf)
  refine ⟨hline, ?_, ?_⟩
  · rw [← a.onOneLine_tree_iff, forall₂_congr hline, hfindings, AuditOptions.filter_reports]
    cases a.options.onlyMissing with
    | true =>
      -- a missing summary is no text at all
      refine iff_of_true (fun f hf text htext => ?_) (.inl rfl)
      have hmissing : f.summary = none := Option.isNone_iff_eq_none.mp (List.mem_filter.mp hf).2
      rw [hmissing] at htext
      cases htext
    | false => simp
  · have hlength : (Console.findings color output findings).length = findings.length :=
      List.length_map _
    rw [← hlength, Console.count_printed_eq_iff, Console.findings, List.forall_mem_map]
    refine forall₂_congr fun f hf => ?_
    rw [Console.mem_findingLine_iff (.inl rfl)]
    have hfeed : '\n' ∉ f.name.toList := fun hmem => hname f hf '\n' hmem (.inl rfl)
    simp [hfeed]

/-- Blanks around a summary, line breaks too, do no harm. -/
theorem padded_summary_on_one_line :
    let s : Surface := { assembly := "Acme", types := [{ ns := some "Acme", name := "Widget" }] }
    let d : Documentation := ⟨none, [("N:Acme", ⟨some "Widgets."⟩),
      ("T:Acme.Widget", ⟨some "\n    A widget.\n"⟩)]⟩
    let findings := (Auditor.check ⟨d.index, { onlyMissing := false }⟩ s).findings
    (∀ name ∈ s.names, SingleLine name) ∧
      ∀ color, ∀ f ∈ findings, SingleLine ((Console.findingLine f).render color) := by
  intro s d findings
  have hnames : ∀ name ∈ s.names, SingleLine name := by decide
  refine ⟨hnames, fun color => ?_⟩
  have hlookups : ∀ l ∈ Auditor.lookups ⟨d.index, { onlyMissing := false }⟩ s,
      d.index.OnOneLine l.id := by decide
  exact (finding_lines_iff _ s hnames color "human").2.1.mpr (.inr hlookups)

deriving instance DecidableEq for Documentation

/-- **A summary that is written over two lines is printed over two lines**, although no name has a
line break. -/
theorem two_line_summary :
    let s : Surface := { assembly := "Acme", types := [{ ns := some "Acme", name := "Widget" }] }
    let text := "<doc><members><member name=\"N:Acme\"><summary>Widgets.</summary></member>" ++
      "<member name=\"T:Acme.Widget\"><summary>A widget.\nIt turns.</summary></member>" ++
      "</members></doc>"
    let d : Documentation := ⟨none, [("N:Acme", ⟨some "Widgets."⟩),
      ("T:Acme.Widget", ⟨some "A widget.\nIt turns."⟩)]⟩
    let findings := (Auditor.check ⟨d.index, { onlyMissing := false }⟩ s).findings
    (∀ name ∈ s.names, SingleLine name) ∧ Documentation.ofText text = .ok d ∧
      (∀ color, ∃ f ∈ findings, ¬ SingleLine ((Console.findingLine f).render color)) ∧
      findings.length = 2 ∧
      (Console.printed (Console.findings false "human" findings)).toList.count '\n' = 3 := by
  refine ⟨by decide, by decide +kernel, by decide, by decide, by decide⟩

end DocAudit
