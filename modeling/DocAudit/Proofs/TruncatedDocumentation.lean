import DocAudit.Proofs.WrittenDocumentation
/-!
# Truncated documentation

A document ends with the end tag of its root element. Before the last character of that tag the
root element is open, and behind a root element that is closed nothing is opened any more. So the
root element is closed nowhere before, and no text that breaks off earlier is a document.

* `Scan.Closed`: the root element is closed; **`Scan.Closed.run`**: it stays so to the end.
* **`Scan.root?_eq_none_of_append`**: what comes before an open element is no document.
* **`truncated_documentation_refused`**: documentation that breaks off anywhere is malformed.
-/

namespace DocAudit

open Xml

/-! ## Behind the root element -/

namespace Xml.Scan

/-- A step that opens and closes nothing: only the construct changes. -/
def Idle (s : Scan) (step : Option Scan) : Prop := ∀ s' ∈ step, ∃ m, s' = s.within m

namespace Idle

variable {s : Scan}

theorem none : s.Idle none := nofun

theorem within (m : Mode) : s.Idle (some (s.within m)) := by
  rintro _ ⟨⟩
  exact ⟨m, rfl⟩

theorem ite {p : Prop} [Decidable p] {a b : Option Scan} (ha : s.Idle a) (hb : s.Idle b) :
    s.Idle (if p then a else b) := by
  split
  · exact ha
  · exact hb

theorem map {α : Type} (m : α → Mode) (o : Option α) : s.Idle (o.map fun a => s.within (m a)) := by
  cases o with
  | none => exact .none
  | some a => exact .within (m a)

end Idle

/-- The root element is closed: nothing is open, and no other element may follow. -/
structure Closed (s : Scan) : Prop where
  ancestors : s.ancestors = []
  root : s.root.isSome = true

namespace Closed

variable {s s' : Scan} (h : s.Closed) {c : Char}
include h

theorem within (m : Mode) : (s.within m).Closed := ⟨h.ancestors, h.root⟩

theorem append_eq (n : Node) : s.append n = s := by rw [append, h.ancestors]

theorem appendText_eq (text : List Char) : s.appendText text = s := by
  rw [appendText, h.append_eq, ite_self]

theorem enter_eq (t : Tag) : s.enter t = none := if_pos ⟨h.ancestors, h.root⟩

theorem empty_eq (t : Tag) : s.empty t = none := if_pos ⟨h.ancestors, h.root⟩

theorem leave_eq (name : QName) : s.leave name = none := by rw [leave, h.ancestors]

theorem stepContent (text : List Written) (brackets : Nat) :
    s.Idle (s.stepContent text brackets c) := by
  rw [Scan.stepContent, h.appendText_eq, if_pos h.ancestors]
  exact .ite (.within _) (.ite (.within _) .none)

theorem stepComment (text : List Char) : s.Idle (s.stepComment text c) := by
  unfold Scan.stepComment
  split
  · rw [h.append_eq]
    exact .ite (.within _) .none
  · exact .within _

theorem stepCdata (text : List Char) : s.Idle (s.stepCdata text c) := by
  unfold Scan.stepCdata
  split
  · rw [h.appendText_eq]
    exact .within _
  · exact .within _

theorem stepInstruction (question : Bool) : s.Idle (s.stepInstruction question c) := by
  rw [Scan.stepInstruction, h.append_eq]
  exact .ite (.within _) (.within _)

theorem stepTag (t : Tag) (spaced : Bool) : s.Idle (s.stepTag t spaced c) := by
  rw [Scan.stepTag, h.enter_eq]
  exact .ite (.within _) (.ite .none (.ite (.within _) (.ite (.within _) .none)))

theorem stepTagName (name : List Char) : s.Idle (s.stepTagName name c) := by
  refine .ite ?_ (.within _)
  split
  · exact h.stepTag _ _
  · exact .none

theorem stepEndTag (name : QName) : s.Idle (s.stepEndTag name c) := by
  rw [Scan.stepEndTag, h.leave_eq]
  exact .ite (.within _) (.ite .none .none)

theorem stepEndName (name : List Char) : s.Idle (s.stepEndName name c) := by
  refine .ite ?_ (.within _)
  split
  · exact h.stepEndTag _
  · exact .none

/-- A character behind the root element only changes the construct. One case for each construct. -/
theorem step : s.Idle (s.step c) := by
  refine .ite ?_ .none
  match s.mode with
  | .content text brackets => exact h.stepContent text brackets
  | .reference text name => exact .ite (.map _ _) (.within _)
  | .markup =>
    exact .ite (.within _) (.ite (.within _) (.ite (.within _) (.ite (.within _) .none)))
  | .exclamation read =>
    exact .ite (.within _) (.ite (.ite .none (.within _)) (.ite (.within _) .none))
  | .comment text => exact h.stepComment text
  | .cdata text => exact h.stepCdata text
  | .instructionName name => exact .ite (.within _) (.ite .none (.within _))
  | .instruction question => exact h.stepInstruction question
  | .tagName name => exact h.stepTagName name
  | .tag t spaced => exact h.stepTag t spaced
  | .emptyTag t =>
    dsimp only
    rw [h.empty_eq]
    exact .ite .none .none
  | .attributeName t name =>
    refine .ite ?_ (.within _)
    split
    · exact .ite (.within _) (.ite (.within _) .none)
    · exact .none
  | .attributeEquals t name => exact .ite (.within _) (.ite (.within _) .none)
  | .attributeQuote t name => exact .ite (.within _) (.ite (.within _) .none)
  | .attributeValue t name quote value =>
    exact .ite (.within _) (.ite .none (.ite (.within _) (.within _)))
  | .attributeReference t name quote value reference => exact .ite (.map _ _) (.within _)
  | .endName name => exact h.stepEndName name
  | .endTag name => exact h.stepEndTag name

/-- **Behind the root element nothing is opened any more.** -/
theorem run {text : List Char} (hread : s.Reads text s') : s'.Closed := by
  induction text generalizing s with
  | nil => exact Option.some.inj hread ▸ h
  | cons c cs ih =>
    rw [Reads, Scan.run, List.foldlM_cons] at hread
    obtain ⟨s₁, hstep, hrest⟩ := Option.bind_eq_some_iff.mp hread
    obtain ⟨m, rfl⟩ := h.step s₁ hstep
    exact ih (h.within m) hrest

end Closed

theorem closed_of_root? {s : Scan} {root : Node} (h : s.root? = some root) : s.Closed := by
  unfold root? at h
  split at h
  · next hancestors _ => exact ⟨hancestors, by rw [h]; rfl⟩
  · cases h

/-- **What comes before an open element is no document.** -/
theorem root?_eq_none_of_append {s s₁ s₂ : Scan} {text rest : List Char} (h : s.Reads text s₁)
    (hread : s.Reads (text ++ rest) s₂) (hopen : s₂.ancestors ≠ []) : s₁.root? = none := by
  rw [Reads, run, List.foldlM_append] at hread
  rw [Reads, run] at h
  rw [h] at hread
  cases hroot : s₁.root? with
  | none => rfl
  | some root => exact absurd ((closed_of_root? hroot).run hread).ancestors hopen

end Xml.Scan

/-! ## Documents that break off -/

namespace Documentation

open Scan

variable (E : Escaping)

theorem exists_open (entries : List (XmlText × XmlText)) : ∃ text s,
    (documentText E entries).toList = text ++ ['>'] ∧ (between [] none).Reads text s ∧
      s.ancestors ≠ [] := by
  let inDoc : List OpenElement :=
    [.bare "doc" [] [.element "members" [] (entries.map memberNode)]]
  have hendName : (between inDoc none).Reads ('<' :: '/' :: "doc".toList)
      ((between inDoc none).within (.endName "doc".toList.reverse)) :=
    .cons rfl (reads_endName rfl)
  refine ⟨_, _, ?_, (reads_unclosed E entries).append hendName, List.cons_ne_nil _ _⟩
  rw [toList_documentText, List.append_assoc]

theorem ofText?_of_prefix {cut : String} {cs : List Char} (h : cut.toList <+: '<' :: 'd' :: cs) :
    Node.ofText? cut = ((between [] none).run cut.toList).bind Scan.root? := by
  have hstart : afterDeclaration (cut.toList.dropWhile (· = '\ufeff')) = some cut.toList := by
    obtain ⟨rest, h⟩ := h
    generalize cut.toList = s at h
    match s with
    | [] => rfl
    | [_] =>
      cases h
      rfl
    | _ :: _ :: _ =>
      cases h
      rfl
  rw [Node.ofText?, hstart]
  rfl

end Documentation

/-- **Documentation that breaks off is refused.** Wherever a document is cut, be it inside of a tag,
a value, a reference or a text or behind any number of members, what is left is no document: it is
malformed, and not the documentation of the members before the cut. -/
theorem truncated_documentation_refused (E : Escaping) (entries : List (XmlText × XmlText))
    {cut : String} (hcut : cut.toList <+: (Documentation.documentText E entries).toList)
    (hne : cut ≠ Documentation.documentText E entries) :
    Documentation.ofText cut = .error .malformedXml := by
  have hstart : Node.ofText? cut = ((Scan.between [] none).run cut.toList).bind Scan.root? := by
    rw [Documentation.toList_documentText] at hcut
    exact Documentation.ofText?_of_prefix hcut
  obtain ⟨text, s, htext, hread, hopen⟩ := Documentation.exists_open E entries
  obtain ⟨rest, hrest⟩ : cut.toList <+: text := by
    rw [htext, List.prefix_concat_iff, ← htext] at hcut
    exact hcut.resolve_left fun h => hne (String.toList_inj.mp h)
  have hnone : Node.ofText? cut = none := by
    rw [hstart]
    cases hrun : (Scan.between [] none).run cut.toList with
    | none => rfl
    | some s₁ => exact Scan.root?_eq_none_of_append hrun (hrest ▸ hread) hopen
  rw [Documentation.ofText, hnone]

/-- A cut behind a member that is complete. -/
theorem truncated_documentation_refused_member :
    let entries : List (XmlText × XmlText) := [(⟨"T:A", by decide⟩, ⟨"a < b", by decide⟩)]
    let cut := "<doc><members><member name=\"T:A\"><summary>a &lt; b</summary></member>"
    cut.toList <+: (Documentation.documentText .standard entries).toList ∧
      cut ≠ Documentation.documentText .standard entries ∧
      Documentation.ofText cut = .error .malformedXml := by
  intro entries cut
  have hcut : cut.toList <+: (Documentation.documentText .standard entries).toList :=
    ⟨"</members></doc>".toList, by decide⟩
  have hne : cut ≠ Documentation.documentText .standard entries := by decide
  exact ⟨hcut, hne, truncated_documentation_refused .standard entries hcut hne⟩

end DocAudit
