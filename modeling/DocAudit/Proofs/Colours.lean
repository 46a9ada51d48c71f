import DocAudit.Proofs.FindingLines
/-!
# Colours change nothing but colours

A styled line has control sequences in it, and otherwise the same characters as the plain line. With
the sequences deleted the output for people is what is printed without colours.

* `withoutSequences`: a text without its control sequences.
* `Shows`: a text that is another one but for its sequences, wherever it stands.
* **`Line.shows_styled`**: a styled line shows the plain line.
* **`colours_deleted`**: what is printed about findings and libraries.
-/

namespace DocAudit

namespace Console

/-! ## Deleting control sequences -/

/-- What opens a control sequence. -/
def escape : Char := '\x1b'

/-- What follows the rest of a control sequence behind its escape: a bracket, digits and an `m`. -/
def afterSequence? : List Char → Option (List Char)
  | '[' :: cs =>
    match cs.span Char.isDigit with
    | (_ :: _, 'm' :: rest) => some rest
    | _ => none
  | _ => none

theorem length_afterSequence? {cs rest : List Char} (h : afterSequence? cs = some rest) :
    rest.length < cs.length := by
  unfold afterSequence? at h
  split at h
  · next cs =>
    split at h
    · next hspan =>
      cases h
      rw [List.span_eq_takeWhile_dropWhile, Prod.mk.injEq] at hspan
      have hlength := (List.dropWhile_suffix (l := cs) Char.isDigit).length_le
      rw [hspan.2] at hlength
      exact Nat.lt_succ_of_lt hlength
    · cases h
  · cases h

/-- A text without its control sequences. -/
def withoutSequences : List Char → List Char
  | [] => []
  | c :: cs =>
    if c = escape then
      match h : afterSequence? cs with
      | some rest =>
        have := length_afterSequence? h
        withoutSequences rest
      | none => c :: withoutSequences cs
    else c :: withoutSequences cs
termination_by cs => cs.length

/-- A text without its control sequences. -/
def deleteSequences (s : String) : String := String.ofList (withoutSequences s.toList)

theorem withoutSequences_cons {c : Char} (hc : c ≠ escape) (cs : List Char) :
    withoutSequences (c :: cs) = c :: withoutSequences cs := by
  rw [withoutSequences, if_neg hc]

theorem withoutSequences_escape {cs rest : List Char} (h : afterSequence? cs = some rest) :
    withoutSequences (escape :: cs) = withoutSequences rest := by
  rw [withoutSequences, if_pos rfl]
  split
  · next h' => rw [Option.some.inj (h.symm.trans h')]
  · next h' => cases h.symm.trans h'

/-! ## Texts that show others -/

/-- A text without escapes. -/
def NoEscape (s : String) : Prop := escape ∉ s.toList

instance (s : String) : Decidable (NoEscape s) := inferInstanceAs (Decidable (¬ _))

/-- Whatever follows it, the first text is the second one but for its control sequences. -/
def Shows (styled shown : String) : Prop := ∀ rest : List Char,
  withoutSequences (styled.toList ++ rest) = shown.toList ++ withoutSequences rest

namespace Shows

theorem deleteSequences_eq {styled shown : String} (h : Shows styled shown) :
    deleteSequences styled = shown := by
  have hnil := h []
  rw [List.append_nil, withoutSequences, List.append_nil] at hnil
  rw [deleteSequences, hnil, String.ofList_toList]

theorem self {s : String} (h : NoEscape s) : Shows s s := by
  intro rest
  unfold NoEscape at h
  generalize s.toList = cs at h ⊢
  induction cs with
  | nil => rfl
  | cons c cs ih =>
    rw [List.mem_cons, not_or] at h
    rw [List.cons_append, withoutSequences_cons (Ne.symm h.1), ih h.2, List.cons_append]

theorem append {s s' t t' : String} (hs : Shows s s') (ht : Shows t t') :
    Shows (s ++ t) (s' ++ t') := by
  intro rest
  rw [String.toList_append, String.toList_append, List.append_assoc, List.append_assoc, hs, ht]

theorem join {α : Type} {styled shown : α → String} {as : List α}
    (h : ∀ a ∈ as, Shows (styled a) (shown a)) :
    Shows (String.join (as.map styled)) (String.join (as.map shown)) := by
  induction as with
  | nil => exact fun _ => rfl
  | cons a as ih =>
    obtain ⟨ha, has⟩ := List.forall_mem_cons.mp h
    rw [List.map_cons, List.map_cons, String.join_cons, String.join_cons]
    exact ha.append (ih has)

theorem sequence {number : String} (hne : number.toList ≠ [])
    (hdigits : number.toList.all Char.isDigit = true) : Shows (Style.sequence number) "" := by
  intro rest
  have hdigits := List.all_eq_true.mp hdigits
  have htext : (Style.sequence number).toList ++ rest =
      escape :: '[' :: (number.toList ++ 'm' :: rest) := by
    simp [Style.sequence, escape]
  have hspan : (number.toList ++ 'm' :: rest).span Char.isDigit = (number.toList, 'm' :: rest) := by
    rw [List.span_eq_takeWhile_dropWhile, List.takeWhile_append_of_pos hdigits,
      List.dropWhile_append_of_pos hdigits]
    simp
  obtain ⟨d, ds, hnumber⟩ := List.exists_cons_of_ne_nil hne
  have hafter : afterSequence? ('[' :: (number.toList ++ 'm' :: rest)) = some rest := by
    rw [afterSequence?, hspan, hnumber]
    rfl
  rw [htext, withoutSequences_escape hafter]
  rfl

/-- **A style shows the text that it is put on.** -/
theorem wrap {text shown : String} (h : Shows text shown) (style : Style) :
    Shows (style.wrap text) shown := by
  have hon : Shows (Style.sequence style.on) "" := by
    cases style <;> exact sequence (by decide) (by decide)
  have hoff : Shows (Style.sequence style.off) "" := by
    cases style <;> exact sequence (by decide) (by decide)
  have hwrap := (hon.append h).append hoff
  rwa [String.empty_append, String.append_empty] at hwrap

end Shows

theorem Span.shows_styled {s : Span} (h : NoEscape s.text) : Shows s.styled s.text := by
  have hfold (shown : String) : ∀ text, Shows text shown →
      Shows (s.styles.foldl (fun text style => style.wrap text) text) shown := by
    induction s.styles with
    | nil => exact fun _ htext => htext
    | cons style styles ih => exact fun text htext => ih _ (htext.wrap style)
  exact hfold s.text s.text (.self h)

/-- A line without escapes. -/
def Line.NoEscape (l : Line) : Prop := ∀ s ∈ l, Console.NoEscape s.text

/-- **A styled line shows the plain line.** -/
theorem Line.shows_styled {l : Line} (h : l.NoEscape) : Shows l.styled l.plain :=
  .join fun s hs => s.shows_styled (h s hs)

/-! ## The output for people -/

theorem NoEscape.append {s t : String} (hs : NoEscape s) (ht : NoEscape t) :
    NoEscape (s ++ t) := by
  rw [NoEscape, String.toList_append, List.mem_append]
  exact not_or.mpr ⟨hs, ht⟩

theorem noEscape_repr (n : Nat) : NoEscape n.repr := by
  intro hc
  rw [Nat.toList_repr] at hc
  exact absurd (Nat.isDigit_of_mem_toDigits (by omega) (by omega) hc) (by decide)

/-- The texts of a finding that are printed. -/
def findingTexts (f : Finding) : List String := f.name :: f.summary.toList

/-- The texts of a report that are printed. -/
def reportTexts (r : LibraryReport) : List String :=
  r.library :: r.error.toList ++ r.coverage.toList.map (·.assembly)

theorem noEscape_findingLine {f : Finding} (h : ∀ text ∈ findingTexts f, NoEscape text) :
    (findingLine f).NoEscape := by
  have hindent : NoEscape (indentOf f.kind) := by cases f.kind <;> decide
  have hlabel : NoEscape f.kind.label := by cases f.kind <;> decide
  have hname : NoEscape f.name := h _ List.mem_cons_self
  unfold findingLine
  split
  · simp only [Line.NoEscape, List.forall_mem_cons]
    exact ⟨hindent, by decide, by decide, hlabel, by decide, hname, by decide, by decide, nofun⟩
  · next text hsummary =>
    have htext : NoEscape text := h _ (by simp [findingTexts, hsummary])
    simp only [Line.NoEscape, List.forall_mem_cons]
    exact ⟨hindent, by decide, by decide, hlabel, by decide, hname, by decide, htext, nofun⟩

theorem noEscape_verdictLine {sign word library message : String} (color : Style)
    (hsign : NoEscape sign) (hword : NoEscape word) (hlibrary : NoEscape library)
    (hmessage : NoEscape message) :
    (verdictLine sign word color library message).NoEscape := by
  have hbrackets : NoEscape ("⟦" ++ word ++ "⟧") :=
    (NoEscape.append (by decide) hword).append (by decide)
  simp only [Line.NoEscape, verdictLine, List.forall_mem_cons]
  exact ⟨hsign, by decide, hbrackets, by decide, hlibrary, .append (by decide) hmessage, nofun⟩

theorem noEscape_reportLine {r : LibraryReport} (h : ∀ text ∈ reportTexts r, NoEscape text) :
    (reportLine r).NoEscape := by
  have hlibrary : NoEscape r.library := h _ List.mem_cons_self
  unfold reportLine
  split
  · next error herror =>
    have herror : NoEscape error := h _ (by simp [reportTexts, herror])
    exact noEscape_verdictLine _ (by decide) (by decide) hlibrary herror
  · next c _ hcoverage =>
    have hassembly : NoEscape c.assembly := h _ (by simp [reportTexts, hcoverage])
    split
    · have hnamespaces := (hassembly.append (t := " (") (by decide)).append
        (noEscape_repr c.namespaces.length)
      have herrors := (hnamespaces.append (t := "): check completed with ") (by decide)).append
        (noEscape_repr c.errors)
      exact noEscape_verdictLine _ (by decide) (by decide) hlibrary (herrors.append (by decide))
    · exact noEscape_verdictLine _ (by decide) (by decide) hlibrary
        (hassembly.append (by decide))
  · simp only [Line.NoEscape, List.forall_mem_cons]
    exact ⟨(NoEscape.append (by decide) hlibrary).append (by decide), nofun⟩

theorem noEscape_summaryLine (t : Totals) : (summaryLine t).NoEscape := by
  have hlibraries := NoEscape.append (s := "— Summary — libraries=") (by decide)
    (noEscape_repr t.libraries)
  have hfailed := (hlibraries.append (t := " failed=") (by decide)).append (noEscape_repr t.failed)
  have herrors := (hfailed.append (t := " errors=") (by decide)).append (noEscape_repr t.errors)
  simp only [Line.NoEscape, summaryLine, List.forall_mem_cons]
  exact ⟨herrors, nofun⟩

/-- The lines that are printed for people. -/
def humanLines (findings : List Finding) (reports : List LibraryReport) : List Line :=
  findings.map findingLine ++ reportLines reports

theorem findings_append_reports {output : String} (houtput : isJson output = false) (color : Bool)
    (fs : List Finding) (rs : List LibraryReport) :
    findings color output fs ++ reports color output rs =
      (humanLines fs rs).map (Line.render color) := by
  have hcolor : usesColor color output = color := by rw [usesColor, houtput]; rfl
  rw [findings, reports, houtput, if_neg Bool.false_ne_true, hcolor, humanLines, List.map_append,
    List.map_map]
  rfl

theorem noEscape_humanLines {fs : List Finding} {rs : List LibraryReport}
    (hfs : ∀ f ∈ fs, ∀ text ∈ findingTexts f, NoEscape text)
    (hrs : ∀ r ∈ rs, ∀ text ∈ reportTexts r, NoEscape text) :
    ∀ l ∈ humanLines fs rs, l.NoEscape := by
  rw [humanLines, reportLines, List.forall_mem_append, List.forall_mem_append,
    List.forall_mem_map, List.forall_mem_map, List.forall_mem_singleton]
  exact ⟨fun f hf => noEscape_findingLine (hfs f hf), fun r hr => noEscape_reportLine (hrs r hr),
    noEscape_summaryLine _⟩

end Console

open Console

/-- **Colours change nothing but colours.** Let no text of some findings and reports have an escape
in it. With the control sequences deleted, each line that is printed for people with colours is the
line that is printed without: the lines of the findings, those of the libraries and the summary. So
is all that is printed, with its line ends. -/
theorem colours_deleted {output : String} (houtput : isJson output = false)
    {findings : List Finding} {reports : List LibraryReport}
    (hfindings : ∀ f ∈ findings, ∀ text ∈ findingTexts f, NoEscape text)
    (hreports : ∀ r ∈ reports, ∀ text ∈ reportTexts r, NoEscape text) :
    let lines (color : Bool) :=
      Console.findings color output findings ++ Console.reports color output reports
    (lines true).map deleteSequences = lines false ∧
      deleteSequences (printed (lines true)) = printed (lines false) := by
  intro lines
  have hplain := noEscape_humanLines hfindings hreports
  have hlines (color : Bool) :
      lines color = (humanLines findings reports).map (Line.render color) :=
    findings_append_reports houtput color findings reports
  rw [hlines, hlines]
  constructor
  · rw [List.map_map]
    exact List.map_congr_left fun l hl => (Line.shows_styled (hplain l hl)).deleteSequences_eq
  · rw [printed, printed, List.map_map, List.map_map]
    refine Shows.deleteSequences_eq (.join fun l hl => ?_)
    exact (Line.shows_styled (hplain l hl)).append (.self (by decide))

/-- A missing summary, one that looks like half of a sequence, and a library of each kind. -/
theorem colours_deleted_acme :
    let fs : List Finding := [⟨.type, "Acme.Widget", none⟩, ⟨.type, "Acme.Gear", some "[31m"⟩]
    let rs : List LibraryReport := [⟨"Acme.dll", some { assembly := "Acme" }, none⟩,
      ⟨"Lost.dll", none, some "not found"⟩, ⟨"Left.dll", none, none⟩]
    let lines (color : Bool) :=
      Console.findings color "human" fs ++ Console.reports color "human" rs
    isJson "human" = false ∧ (∀ f ∈ fs, ∀ text ∈ findingTexts f, NoEscape text) ∧
      (∀ r ∈ rs, ∀ text ∈ reportTexts r, NoEscape text) ∧
      (lines true).map deleteSequences = lines false ∧
      deleteSequences (printed (lines true)) = printed (lines false) := by
  intro fs rs lines
  have houtput : isJson "human" = false := by decide
  have hfs : ∀ f ∈ fs, ∀ text ∈ findingTexts f, NoEscape text := by decide
  have hrs : ∀ r ∈ rs, ∀ text ∈ reportTexts r, NoEscape text := by decide
  exact ⟨houtput, hfs, hrs, colours_deleted houtput hfs hrs⟩

end DocAudit
