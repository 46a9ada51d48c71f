import DocAudit.Docs.Documentation
import DocAudit.Proofs.Scanning
import Mathlib.Data.Finset.Card
/-!
# Written documentation is read again

Documentation is a list of ids with their summaries. It is written as a document with one member
for each, and what is read again are the same texts, character for character.

* `Escaping`: a way to write texts, of which `Escaping.standard` is one.
* `Documentation.documentText`: the document for a list of ids with summaries.
* `Documentation.find?_firstOfEach`: of members with one id the first one counts.
* **`documentation_survives_writing`**: what is read again.
-/

namespace DocAudit

open Xml

/-! ## Texts -/

/-- The characters of XML 1.0, by their numbers. -/
def IsDocumentChar (c : Char) : Prop :=
  c.toNat = 0x9 ∨ c.toNat = 0xa ∨ c.toNat = 0xd ∨ (0x20 ≤ c.toNat ∧ c.toNat ≤ 0xd7ff) ∨
    (0xe000 ≤ c.toNat ∧ c.toNat ≤ 0xfffd) ∨ (0x10000 ≤ c.toNat ∧ c.toNat ≤ 0x10ffff)

instance (c : Char) : Decidable (IsDocumentChar c) := inferInstanceAs (Decidable (_ ∨ _))

-- the characters of the text, not all characters
instance (cs : List Char) : Decidable (∀ c ∈ cs, IsDocumentChar c) :=
  List.decidableBAll IsDocumentChar cs

theorem isXmlChar_of_isDocumentChar {c : Char} (h : IsDocumentChar c) : isXmlChar c = true := by
  have hnumber {d : Char} (hd : c.toNat = d.toNat) : c = d := Char.toNat_inj.mp hd
  unfold isXmlChar
  rcases h with h | h | h | h
  · rw [hnumber (d := '\t') h]
    rfl
  · rw [hnumber (d := '\n') h]
    rfl
  · rw [hnumber (d := '\r') h]
    rfl
  · -- the other ranges begin with the space and leave out U+FFFE and U+FFFF
    have hspace : ¬ c < ' ' := fun hlt => by
      have hlt : c.toNat < 0x20 := hlt
      omega
    rw [if_neg hspace, Bool.and_eq_true, decide_eq_true_eq, decide_eq_true_eq]
    constructor <;>
    · rintro rfl
      revert h
      decide

/-- A text that a document may hold. -/
structure XmlText where
  text : String
  valid : ∀ c ∈ text.toList, IsDocumentChar c

theorem XmlText.isXmlChar (t : XmlText) : ∀ c ∈ t.text.toList, isXmlChar c = true :=
  fun c hc => isXmlChar_of_isDocumentChar (t.valid c hc)

/-- A way to write texts into documents. Marks are always written as references, with names or
numbers; they need not be written the same way everywhere. -/
structure Escaping where
  write : XmlText → String
  writes (t : XmlText) : WrittenAs t.text.toList (write t).toList

namespace Escaping

/-- The reference for a mark, or else the character itself. -/
def escape : Char → List Char
  | '&' => "&amp;".toList
  | '<' => "&lt;".toList
  | '>' => "&gt;".toList
  | '"' => "&quot;".toList
  | '\t' => "&#9;".toList
  | '\n' => "&#10;".toList
  | '\r' => "&#xD;".toList
  | c => [c]

theorem escape_of_mem {c : Char} (hc : c ∈ marks) :
    ∃ name, Refers c name ∧ escape c = '&' :: name ++ [';'] := by
  simp only [marks, List.mem_cons, List.not_mem_nil, or_false] at hc
  rcases hc with rfl | rfl | rfl | rfl | rfl | rfl | rfl
  · exact ⟨_, .ampersand, rfl⟩
  · exact ⟨_, .less, rfl⟩
  · exact ⟨_, .greater, rfl⟩
  · exact ⟨_, .quote, rfl⟩
  · exact ⟨_, .decimal (.digit (d := 9) (by decide) (.inl rfl)), rfl⟩
  · have hten : Numeral 10 10 ['1', '0'] :=
      .append (n := 1) (d := 0) (.digit (by decide) (.inl rfl)) (by decide) (.inl rfl)
    exact ⟨_, .decimal hten, rfl⟩
  · exact ⟨_, .hexadecimal (.digit (d := 13) (by decide) (.inr rfl)), rfl⟩

theorem escape_of_not_mem {c : Char} (hc : c ∉ marks) : escape c = [c] := by
  simp only [marks, List.mem_cons, List.not_mem_nil, or_false, not_or] at hc
  obtain ⟨h₁, h₂, h₃, h₄, h₅, h₆, h₇⟩ := hc
  unfold escape
  split <;> first | contradiction | rfl

theorem writtenAs_flatMap_escape (cs : List Char) : WrittenAs cs (cs.flatMap escape) := by
  induction cs with
  | nil => exact ⟨[], .nil, rfl⟩
  | cons c cs ih =>
    obtain ⟨ws, hspells, hchars⟩ := ih
    rw [List.flatMap_cons]
    by_cases hc : c ∈ marks
    · refine ⟨⟨c, true⟩ :: ws, ?_, by rw [List.map_cons, hchars]⟩
      obtain ⟨name, hname, hescape⟩ := escape_of_mem hc
      rw [hescape, List.append_assoc]
      exact .reference hname hspells
    · refine ⟨⟨c, false⟩ :: ws, ?_, by rw [List.map_cons, hchars]⟩
      rw [escape_of_not_mem hc]
      exact .plain hc hspells

/-- Marks with names are written with their names, the others with their numbers. -/
def standard : Escaping where
  write t := String.ofList (t.text.toList.flatMap escape)
  writes t := by
    rw [String.toList_ofList]
    exact writtenAs_flatMap_escape _

example : "a<b\n".toList.flatMap escape = "a&lt;b&#10;".toList := rfl

end Escaping

namespace Documentation

/-! ## Documents -/

variable (E : Escaping)

/-- The member for an id with its summary. -/
def memberText (e : XmlText × XmlText) : String :=
  "<member name=\"" ++ E.write e.1 ++ "\"><summary>" ++ E.write e.2 ++ "</summary></member>"

/-- The document for a list of ids with their summaries. -/
def documentText (entries : List (XmlText × XmlText)) : String :=
  "<doc><members>" ++ String.join (entries.map (memberText E)) ++ "</members></doc>"

/-- The node for a member. -/
def memberNode (e : XmlText × XmlText) : Node :=
  .element "member" [⟨none, "name", e.1.text⟩]
    [.element "summary" [] (textNodes e.2.text.toList)]

/-- The root element of a document. -/
def documentNode (entries : List (XmlText × XmlText)) : Node :=
  .element "doc" [] [.element "members" [] (entries.map memberNode)]

variable {es : List OpenElement} {root : Option Node} {children : List Node}

open Scan

theorem toList_memberText (e : XmlText × XmlText) : (memberText E e).toList =
    ('<' :: "member".toList ++ [' '] ++ "name".toList ++ ['=', '"'] ++ (E.write e.1).toList ++
      ['"', '>']) ++ ('<' :: "summary".toList ++ ['>']) ++
      ((E.write e.2).toList ++ ('<' :: ('/' :: "summary".toList) ++ ['>'])) ++
      ('<' :: ('/' :: "member".toList) ++ ['>']) := by
  -- the literals stay apart from the reasoning about appended texts
  have happend {a b c x y : String} {as bs bs' cs cs' : List Char} (ha : a.toList = as)
      (hb : b.toList = bs ++ bs') (hc : c.toList = cs ++ cs') :
      (a ++ x ++ b ++ y ++ c).toList =
        as ++ x.toList ++ bs ++ bs' ++ (y.toList ++ cs) ++ cs' := by
    simp only [String.toList_append, ha, hb, hc, List.append_assoc]
  exact happend (by simp) (by simp) (by simp)

/-- **A member is read as its node.** -/
theorem reads_member (e : XmlText × XmlText) :
    (between (.bare "members" [] children :: es) root).Reads (memberText E e).toList
      (between (.bare "members" [] (memberNode e :: children) :: es) root) := by
  rw [toList_memberText]
  let inMembers := .bare "members" [] children :: es
  let inMember := .bare "member" [⟨none, "name", e.1.text⟩] [] :: inMembers
  have hmember : (between inMembers root).Reads _ (between inMember root) :=
    reads_startTag_attribute ready_bare rfl rfl (by decide) (E.writes e.1) e.1.isXmlChar
  have hsummary : (between inMember root).Reads _
      (between (.bare "summary" [] [] :: inMember) root) := reads_startTag ready_bare rfl
  have hclosing := (hmember.append hsummary).append
    (reads_closing rfl (E.writes e.2) e.2.isXmlChar)
  exact hclosing.append (reads_closing_nil rfl)

/-- **The members of a document are read as their nodes.** -/
theorem reads_members (entries : List (XmlText × XmlText)) : ∀ children : List Node,
    (between (.bare "members" [] children :: es) root).Reads
      (String.join (entries.map (memberText E))).toList
      (between (.bare "members" [] ((entries.map memberNode).reverse ++ children) :: es) root) := by
  induction entries with
  | nil => exact fun _ => .nil
  | cons e entries ih =>
    intro children
    rw [List.map_cons, List.map_cons, List.reverse_cons, List.append_assoc, String.join_cons,
      String.toList_append]
    exact (reads_member E e).append (ih _)

/-- A document without the end tag of its root element. -/
def unclosedText (entries : List (XmlText × XmlText)) : List Char :=
  ('<' :: "doc".toList ++ ['>']) ++ ('<' :: "members".toList ++ ['>']) ++
    (String.join (entries.map (memberText E))).toList ++
    ('<' :: ('/' :: "members".toList) ++ ['>'])

theorem toList_documentText (entries : List (XmlText × XmlText)) :
    (documentText E entries).toList =
      unclosedText E entries ++ ('<' :: ('/' :: "doc".toList) ++ ['>']) := by
  have happend {a b x : String} {as as' bs bs' : List Char} (ha : a.toList = as ++ as')
      (hb : b.toList = bs ++ bs') :
      (a ++ x ++ b).toList = as ++ as' ++ x.toList ++ bs ++ bs' := by
    simp only [String.toList_append, ha, hb, List.append_assoc]
  exact happend (by simp) (by simp)

theorem reads_unclosed (entries : List (XmlText × XmlText)) :
    (between [] none).Reads (unclosedText E entries)
      (between [.bare "doc" [] [.element "members" [] (entries.map memberNode)]] none) := by
  have hdoc : (between [] none).Reads _ (between [.bare "doc" [] []] none) :=
    reads_startTag ready_start rfl
  have hmembers : (between [.bare "doc" [] []] none).Reads _
      (between [.bare "members" [] [], .bare "doc" [] []] none) := reads_startTag ready_bare rfl
  have hopened := (hdoc.append hmembers).append (reads_members E entries [])
  rw [List.append_nil] at hopened
  have hclosed := hopened.append (reads_closing_nil rfl)
  rw [List.reverse_reverse] at hclosed
  exact hclosed

/-- **A document is read as its root element.** -/
theorem ofText?_documentText (entries : List (XmlText × XmlText)) :
    Node.ofText? (documentText E entries) = some (documentNode entries) := by
  have hread : (between [] none).Reads (documentText E entries).toList
      (between [] (some (documentNode entries))) := by
    rw [toList_documentText]
    exact (reads_unclosed E entries).append (reads_closing_nil rfl)
  have hstart : afterDeclaration ((documentText E entries).toList.dropWhile (· = '\ufeff')) =
      some (documentText E entries).toList := by
    rw [toList_documentText]
    rfl
  rw [Node.ofText?, hstart]
  show ((between [] none).run (documentText E entries).toList).bind Scan.root? = _
  rw [hread]
  rfl

theorem innerTexts_textNodes (text : String) : Node.innerTexts (textNodes text.toList) = text := by
  unfold textNodes
  split
  · next h => exact (String.toList_eq_nil_iff.mp h).symm
  · rw [Node.innerTexts, Node.innerText, Node.innerTexts, String.ofList_toList, String.append_empty]

theorem entry?_memberNode (e : XmlText × XmlText) :
    entry? (memberNode e) = some (e.1.text, ⟨some e.2.text⟩) := by
  show some (e.1.text, Fragment.mk (some (Node.innerTexts (textNodes e.2.text.toList)))) = _
  rw [innerTexts_textNodes]

theorem filterMap_memberNode (entries : List (XmlText × XmlText)) :
    ((entries.map memberNode).filter (Node.isElement "member")).filterMap entry? =
      entries.map fun e => (e.1.text, ⟨some e.2.text⟩) := by
  rw [List.filter_eq_self.mpr, List.filterMap_map]
  · rw [← List.filterMap_eq_map]
    exact congrArg (List.filterMap · entries) (funext entry?_memberNode)
  · intro n hn
    obtain ⟨e, -, rfl⟩ := List.mem_map.mp hn
    rfl

theorem ofText_documentText (entries : List (XmlText × XmlText)) :
    ofText (documentText E entries) =
      .ok ⟨none, firstOfEach (entries.map fun e => (e.1.text, ⟨some e.2.text⟩))⟩ := by
  rw [ofText, ofText?_documentText]
  show Except.ok (Documentation.mk none
    (firstOfEach (((entries.map memberNode).filter _).filterMap entry?))) = _
  rw [filterMap_memberNode]

/-! ## Repeated ids -/

section

variable {α : Type}

/-- **Of the entries with one key the first one counts.** -/
theorem find?_firstOfEach (key : String) (entries : List (String × α)) :
    (firstOfEach entries).find? (·.1 = key) = entries.find? (·.1 = key) := by
  induction entries with
  | nil => rfl
  | cons e entries ih =>
    rw [firstOfEach, List.find?_cons, List.find?_cons]
    by_cases he : e.1 = key
    · simp [he]
    · rw [decide_eq_false he]
      dsimp only
      rw [List.find?_filter, ← ih]
      congr 1
      funext f
      by_cases hf : f.1 = key
      · simp [hf, Ne.symm he]
      · simp [hf]

theorem mem_keys_firstOfEach (key : String) (entries : List (String × α)) :
    key ∈ (firstOfEach entries).map (·.1) ↔ key ∈ entries.map (·.1) := by
  have hfind (es : List (String × α)) :
      key ∈ es.map (·.1) ↔ (es.find? (·.1 = key)).isSome = true := by
    simp [List.find?_isSome, List.mem_map]
  rw [hfind, hfind, find?_firstOfEach]

theorem nodup_keys_firstOfEach (entries : List (String × α)) :
    ((firstOfEach entries).map (·.1)).Nodup := by
  induction entries with
  | nil => exact List.nodup_nil
  | cons e entries ih =>
    rw [firstOfEach, List.map_cons, List.nodup_cons]
    refine ⟨fun he => ?_, ih.sublist (List.filter_sublist.map _)⟩
    obtain ⟨f, hf, hkey⟩ := List.mem_map.mp he
    exact of_decide_eq_true (List.mem_filter.mp hf).2 hkey

end

theorem length_firstOfEach {α : Type} (entries : List (String × α)) :
    (firstOfEach entries).length = (entries.map (·.1)).toFinset.card := by
  have hkeys : ((firstOfEach entries).map (·.1)).toFinset = (entries.map (·.1)).toFinset := by
    ext key
    rw [List.mem_toFinset, List.mem_toFinset, mem_keys_firstOfEach]
  rw [← hkeys, List.toFinset_card_of_nodup (nodup_keys_firstOfEach entries), List.length_map]

end Documentation

/-- **Documentation survives writing**, in whatever way its texts are written. The document can be
read, and what is read has as many elements as there are different ids. Under each id stands the
summary that came with it first, character for character, even if it is empty; under any other id
nothing stands. -/
theorem documentation_survives_writing (E : Escaping) (entries : List (XmlText × XmlText)) :
    ∃ d, Documentation.ofText (Documentation.documentText E entries) = .ok d ∧
      d.size = (entries.map (·.1.text)).toFinset.card ∧
      ∀ id : String, d.fragment id =
        (entries.find? (·.1.text = id)).map fun e => ⟨some e.2.text⟩ := by
  refine ⟨_, Documentation.ofText_documentText E entries, ?_, fun id => ?_⟩
  · rw [Documentation.size, Documentation.length_firstOfEach, List.map_map]
    rfl
  · rw [Documentation.fragment, Documentation.find?_firstOfEach, List.find?_map, Option.map_map]
    rfl

end DocAudit
