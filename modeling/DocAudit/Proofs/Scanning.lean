import DocAudit.Proofs.References
import Mathlib.Data.List.TakeDrop
import Mathlib.Data.List.TakeWhile
/-!
# Scanning what was written

A text is written into a document character by character. Marks that would be taken for markup or
for white space are written as references, and what is scanned again is the text that was meant.

* `Spells`: the ways to write a text.
* `Scan.Reads`: a scan takes a text and comes to another state.
* **`Scan.reads_spelled`**: a text is read as it was meant, between tags and in values.
* `Scan.reads_startTag`, `Scan.reads_startTag_attribute`: the start of an element.
* `Scan.reads_closing`: a text in an element, with its end tag.
-/

namespace DocAudit.Xml

/-! ## Written texts -/

/-- The characters that are written as references. -/
def marks : List Char := ['&', '<', '>', '"', '\t', '\n', '\r']

/-- The ways to write characters: as they are, if they are no marks, or as references. -/
inductive Spells : List Written → List Char → Prop
  | nil : Spells [] []
  | plain {c : Char} {ws : List Written} {cs : List Char} (hc : c ∉ marks) (h : Spells ws cs) :
      Spells (⟨c, false⟩ :: ws) (c :: cs)
  | reference {c : Char} {name : List Char} {ws : List Written} {cs : List Char}
      (hname : Refers c name) (h : Spells ws cs) :
      Spells (⟨c, true⟩ :: ws) ('&' :: name ++ ';' :: cs)

namespace Spells

variable {ws : List Written} {cs : List Char}

/-- Between tags written characters are the text that was meant: no carriage return is written as
it is. -/
theorem plainText_eq (h : Spells ws cs) : plainText ws = ws.map (·.char) := by
  have hfrom (b : Bool) : plainTextFrom b ws = ws.map (·.char) := by
    induction h generalizing b with
    | nil => rfl
    | @plain c ws cs hc _ ih =>
      have hreturn : c ≠ '\r' := by
        rintro rfl
        exact hc (by decide)
      simp only [plainTextFrom, if_neg hreturn, ih, List.map_cons]
    | reference _ _ ih => rw [plainTextFrom, ih, List.map_cons]
  exact hfrom false

theorem valueText_eq (h : Spells ws cs) : valueText ws = ws.map (·.char) := by
  induction h with
  | nil => rfl
  | @plain c ws cs hc _ ih =>
    have hreturn : c ≠ '\r' := by
      rintro rfl
      exact hc (by decide)
    rw [valueText, ih, List.map_cons]
    · by_cases hspace : isSpace c = true
      · have hblank : c = ' ' := by
          simp only [isSpace, Bool.or_eq_true, decide_eq_true_eq] at hspace
          rcases hspace with ((hspace | rfl) | rfl) | rfl
          · exact hspace
          all_goals exact absurd (by decide) hc
        rw [hblank]
        rfl
      · simp [hspace]
    · exact fun _ _ hc _ => hreturn hc
  | reference hname _ ih =>
    rw [valueText, ih]
    · rfl
    · nofun

end Spells

/-- A text as it is written in some way. -/
def WrittenAs (text cs : List Char) : Prop := ∃ ws, Spells ws cs ∧ ws.map (·.char) = text

/-! ## Names -/

theorem isXmlChar_of_isNameChar {c : Char} (h : isNameChar c = true) : isXmlChar c = true := by
  have hspace : ¬ c < ' ' := fun hlt => by
    have hlt : c.toNat < 32 := hlt
    simp only [isNameChar, isNameStart, isIn, nameStartRanges, nameOnlyRanges, List.any_cons,
      List.any_nil, Bool.or_false, Bool.or_eq_true, Bool.and_eq_true, decide_eq_true_eq] at h
    omega
  rw [isXmlChar, if_neg hspace, Bool.and_eq_true, decide_eq_true_eq, decide_eq_true_eq]
  constructor <;>
  · rintro rfl
    exact absurd h (by decide)

theorem isNameChar_of_isNameStart {c : Char} (h : isNameStart c = true) : isNameChar c = true := by
  rw [isNameChar, h, Bool.true_or]

theorem ne_of_isNameChar {c d : Char} (h : isNameChar c = true) (hd : isNameChar d = false) :
    c ≠ d := by
  rintro rfl
  rw [h] at hd
  cases hd

theorem isSpace_of_isNameChar {c : Char} (h : isNameChar c = true) : isSpace c = false := by
  simp [isSpace, ne_of_isNameChar h (d := ' ') rfl, ne_of_isNameChar h (d := '\t') rfl,
    ne_of_isNameChar h (d := '\n') rfl, ne_of_isNameChar h (d := '\r') rfl]

theorem isNameChar_of_mem {cs : List Char} (h : isName cs = true) :
    ∀ c ∈ cs, isNameChar c = true := by
  cases cs with
  | nil => nofun
  | cons c cs =>
    rw [isName, Bool.and_eq_true, List.all_eq_true] at h
    exact List.forall_mem_cons.mpr ⟨isNameChar_of_isNameStart h.1, h.2⟩

theorem ofChars?_of_isName {cs : List Char} (h : isName cs = true) :
    QName.ofChars? cs = some ⟨"", String.ofList cs⟩ := by
  have hchars : ∀ c ∈ cs, (c != ':') = true := fun c hc => by
    simpa using ne_of_isNameChar (isNameChar_of_mem h c hc) (d := ':') rfl
  have hspan : cs.span (· != ':') = (cs, []) := by
    rw [List.span_eq_takeWhile_dropWhile, List.takeWhile_eq_self_iff.mpr hchars,
      List.dropWhile_eq_nil_iff.mpr hchars]
  rw [QName.ofChars?, hspan]
  simp [h]

/-! ## Scans -/

/-- An element that was opened in a document without namespaces. -/
def OpenElement.bare (name : String) (attributes : List Attribute) (children : List Node) :
    OpenElement := ⟨⟨"", name⟩, attributes, [], children⟩

/-- The node for a text, if there is one. -/
def textNodes (text : List Char) : List Node :=
  if text = [] then [] else [.text (String.ofList text)]

theorem reverse_textNodes (text : List Char) : (textNodes text).reverse = textNodes text := by
  unfold textNodes
  split <;> rfl

namespace Scan

/-- A scan takes a text and comes to another state. -/
def Reads (s : Scan) (text : List Char) (s' : Scan) : Prop := s.run text = some s'

variable {s s' s'' : Scan} {c : Char} {cs text text' : List Char}

namespace Reads

theorem nil : s.Reads [] s := rfl

theorem cons (hc : s.step c = some s') (h : s'.Reads cs s'') : s.Reads (c :: cs) s'' := by
  rw [Reads, run, List.foldlM_cons, hc]
  exact h

theorem single (hc : s.step c = some s') : s.Reads [c] s' := cons hc nil

theorem append (h : s.Reads text s') (h' : s'.Reads text' s'') : s.Reads (text ++ text') s'' := by
  rw [Reads, run, List.foldlM_append]
  rw [Reads, run] at h
  rw [h]
  exact h'

end Reads

/-- **Characters are collected** as long as each step only adds one. -/
theorem reads_collecting (s : Scan) (mode : List Char → Mode) (cs : List Char)
    (hstep : ∀ read, ∀ c ∈ cs, (s.within (mode read)).step c = some (s.within (mode (c :: read)))) :
    ∀ read, (s.within (mode read)).Reads cs (s.within (mode (cs.reverse ++ read))) := by
  induction cs with
  | nil => exact fun _ => .nil
  | cons c cs ih =>
    intro read
    have hrest := ih (fun read d hd => hstep read d (List.mem_cons_of_mem _ hd)) (c :: read)
    rw [List.reverse_cons, List.append_assoc]
    exact .cons (hstep read c List.mem_cons_self) hrest

/-- **What was written is read as it was meant.** A property of what was written so far and of the
scan behind it is kept by plain characters and by references, and so by a whole text. -/
theorem reads_spelled (At : List Written → Scan → Prop)
    (hplain : ∀ {ws s c}, At ws s → isXmlChar c = true → c ∉ marks →
      ∃ s', s.step c = some s' ∧ At (⟨c, false⟩ :: ws) s')
    (hreference : ∀ {ws s c name}, At ws s → isXmlChar c = true → Refers c name →
      ∃ s', s.Reads ('&' :: name ++ [';']) s' ∧ At (⟨c, true⟩ :: ws) s')
    {ws : List Written} (h : Spells ws cs) (hws : ∀ w ∈ ws, isXmlChar w.char = true) :
    ∀ {before s}, At before s → ∃ s', s.Reads cs s' ∧ At (ws.reverse ++ before) s' := by
  induction h with
  | nil => exact fun hs => ⟨_, .nil, hs⟩
  | plain hc _ ih =>
    intro before s hs
    obtain ⟨hw, hws⟩ := List.forall_mem_cons.mp hws
    obtain ⟨s₁, hstep, hs₁⟩ := hplain hs hw hc
    obtain ⟨s₂, hread, hs₂⟩ := ih hws hs₁
    rw [List.reverse_cons, List.append_assoc]
    exact ⟨s₂, .cons hstep hread, hs₂⟩
  | reference hname _ ih =>
    intro before s hs
    obtain ⟨hw, hws⟩ := List.forall_mem_cons.mp hws
    obtain ⟨s₁, hfirst, hs₁⟩ := hreference hs hw hname
    obtain ⟨s₂, hread, hs₂⟩ := ih hws hs₁
    rw [List.reverse_cons, List.append_assoc, List.append_cons]
    exact ⟨s₂, hfirst.append hread, hs₂⟩

theorem not_mem_marks {d : Char} (hc : c ∉ marks) (hd : d ∈ marks) : c ≠ d := by
  rintro rfl
  exact hc hd

section

variable (s) {ws : List Written} {name : List Char} {t : Tag} {key : QName} {quote : Char}
  {spaced : Bool}

theorem step_reference (hc : isXmlChar c = true) :
    (s.within (.reference ws name)).step c = s.stepReference ws name c := if_pos hc

theorem step_markup (hc : isXmlChar c = true) :
    (s.within .markup).step c = s.stepMarkup c := if_pos hc

theorem step_tagName (hc : isXmlChar c = true) :
    (s.within (.tagName name)).step c = s.stepTagName name c := if_pos hc

theorem step_tag (hc : isXmlChar c = true) :
    (s.within (.tag t spaced)).step c = s.stepTag t spaced c := if_pos hc

theorem step_attributeName (hc : isXmlChar c = true) :
    (s.within (.attributeName t name)).step c = s.stepAttributeName t name c := if_pos hc

theorem step_attributeValue (hc : isXmlChar c = true) :
    (s.within (.attributeValue t key quote ws)).step c = s.stepAttributeValue t key quote ws c :=
  if_pos hc

theorem step_attributeReference (hc : isXmlChar c = true) :
    (s.within (.attributeReference t key quote ws name)).step c =
      s.stepAttributeReference t key quote ws name c := if_pos hc

theorem step_endName (hc : isXmlChar c = true) :
    (s.within (.endName name)).step c = (s.within (.endName name)).stepEndName name c := if_pos hc

end

/-! ### Texts and values -/

/-- Between tags, inside of an element. How many brackets came last does not matter: they count
only before a `>`, which is written as a reference. -/
def InContent (e : OpenElement) (es : List OpenElement) (root : Option Node) (ws : List Written)
    (s : Scan) : Prop := ∃ brackets, s = ⟨e :: es, root, .content ws brackets⟩

theorem reads_reference {e : OpenElement} {es : List OpenElement} {root : Option Node}
    {ws : List Written} {brackets : Nat} {name : List Char} (hc : isXmlChar c = true)
    (hname : Refers c name) :
    (⟨e :: es, root, .content ws brackets⟩ : Scan).Reads ('&' :: name ++ [';'])
      ⟨e :: es, root, .content (⟨c, true⟩ :: ws) 0⟩ := by
  have hcollect := reads_collecting ⟨e :: es, root, .content ws 0⟩ (.reference ws) name
    (fun read d hd => by
      obtain ⟨hxml, hend⟩ := hname.plain d hd
      exact (step_reference _ hxml).trans (if_neg hend)) []
  rw [List.append_nil] at hcollect
  refine .append (.cons rfl hcollect) (.single ?_)
  rw [step_reference _ rfl, stepReference, if_pos rfl, List.reverse_reverse, hname.resolve hc]
  rfl

theorem reads_text {e : OpenElement} {es : List OpenElement} {root : Option Node}
    {ws : List Written} (h : Spells ws cs) (hws : ∀ w ∈ ws, isXmlChar w.char = true) :
    ∃ s', (⟨e :: es, root, .content [] 0⟩ : Scan).Reads cs s' ∧
      InContent e es root ws.reverse s' := by
  rw [← List.append_nil ws.reverse]
  refine reads_spelled (InContent e es root) ?_ ?_ h hws ⟨0, rfl⟩
  · rintro ws _ c ⟨brackets, rfl⟩ hxml hc
    refine ⟨_, ?_, if c = ']' then brackets + 1 else 0, rfl⟩
    rw [step, if_pos hxml]
    dsimp only
    rw [stepContent, if_neg (not_mem_marks hc (by decide)), if_neg (List.cons_ne_nil _ _),
      if_neg (not_mem_marks hc (by decide)), if_neg (fun h => not_mem_marks hc (by decide) h.1)]
    rfl
  · rintro ws _ c name ⟨brackets, rfl⟩ hxml hname
    exact ⟨_, reads_reference hxml hname, 0, rfl⟩

theorem reads_valueReference {t : Tag} {key : QName} {ws : List Written} {name : List Char}
    (hc : isXmlChar c = true) (hname : Refers c name) :
    (s.within (.attributeValue t key '"' ws)).Reads ('&' :: name ++ [';'])
      (s.within (.attributeValue t key '"' (⟨c, true⟩ :: ws))) := by
  have hcollect := reads_collecting s (.attributeReference t key '"' ws) name
    (fun read d hd => by
      obtain ⟨hxml, hend⟩ := hname.plain d hd
      exact (step_attributeReference _ hxml).trans (if_neg hend)) []
  rw [List.append_nil] at hcollect
  refine .append (.cons rfl hcollect) (.single ?_)
  rw [step_attributeReference _ rfl, stepAttributeReference, if_pos rfl, List.reverse_reverse,
    hname.resolve hc]
  rfl

theorem reads_value {t : Tag} {key : QName} {ws : List Written} (h : Spells ws cs)
    (hws : ∀ w ∈ ws, isXmlChar w.char = true) :
    (s.within (.attributeValue t key '"' [])).Reads cs
      (s.within (.attributeValue t key '"' ws.reverse)) := by
  have hspelled : ∃ s', (s.within (.attributeValue t key '"' [])).Reads cs s' ∧
      s' = s.within (.attributeValue t key '"' (ws.reverse ++ [])) := by
    refine reads_spelled (fun ws s' => s' = s.within (.attributeValue t key '"' ws)) ?_ ?_ h hws rfl
    · rintro ws _ c rfl hxml hc
      refine ⟨_, ?_, rfl⟩
      rw [step_attributeValue _ hxml, stepAttributeValue, if_neg (not_mem_marks hc (by decide)),
        if_neg (not_mem_marks hc (by decide)), if_neg (not_mem_marks hc (by decide))]
    · rintro ws _ c name rfl hxml hname
      exact ⟨_, reads_valueReference hxml hname, rfl⟩
  obtain ⟨_, hread, rfl⟩ := hspelled
  rwa [List.append_nil] at hread

/-! ### Tags -/

variable {name : String}

theorem reads_tagName {cs : List Char} (hname : isName cs = true) :
    (s.within .markup).Reads cs (s.within (.tagName cs.reverse)) := by
  cases cs with
  | nil => cases hname
  | cons c cs =>
    obtain ⟨hc, hcs⟩ := List.forall_mem_cons.mp (isNameChar_of_mem hname)
    rw [isName, Bool.and_eq_true] at hname
    have hfirst : (s.within .markup).step c = some (s.within (.tagName [c])) := by
      rw [step_markup _ (isXmlChar_of_isNameChar hc), stepMarkup,
        if_neg (ne_of_isNameChar hc rfl), if_neg (ne_of_isNameChar hc rfl),
        if_neg (ne_of_isNameChar hc rfl), if_pos (.inl hname.1)]
    have hcollect := reads_collecting s .tagName cs (fun read d hd => by
      have hd := hcs d hd
      rw [step_tagName _ (isXmlChar_of_isNameChar hd), stepTagName, if_neg]
      simp [isSpace_of_isNameChar hd, ne_of_isNameChar hd (d := '>') rfl,
        ne_of_isNameChar hd (d := '/') rfl]) [c]
    rw [List.reverse_cons]
    exact .cons hfirst hcollect

/-- The scan between two pieces of content. -/
def between (ancestors : List OpenElement) (root : Option Node) : Scan := { ancestors, root }

/-- An element can be opened in a document without namespaces. -/
structure Ready (es : List OpenElement) (root : Option Node) : Prop where
  single : es = [] → root = none
  unscoped : (between es root).scope = []

variable {es : List OpenElement} {root : Option Node} {attributes : List Attribute}
  {children : List Node}

theorem ready_start : Ready [] none := ⟨fun _ => rfl, rfl⟩

theorem ready_bare : Ready (.bare name attributes children :: es) root := ⟨nofun, rfl⟩

theorem Ready.not_second (h : Ready es root) : ¬ (es = [] ∧ root.isSome = true) := by
  rintro ⟨hes, hroot⟩
  rw [h.single hes] at hroot
  cases hroot

theorem enter_bare (h : Ready es root) (mode : Mode) :
    (⟨es, root, mode⟩ : Scan).enter ⟨⟨"", name⟩, []⟩ =
      some (between (.bare name [] [] :: es) root) := by
  have hscope : (⟨es, root, mode⟩ : Scan).scope = [] := h.unscoped
  rw [enter, if_neg h.not_second, hscope]
  rfl

theorem enter_attribute (h : Ready es root) (mode : Mode) {key value : String}
    (hkey : key ≠ "xmlns") :
    (⟨es, root, mode⟩ : Scan).enter ⟨⟨"", name⟩, [(⟨"", key⟩, value)]⟩ =
      some (between (.bare name [⟨none, key, value⟩] [] :: es) root) := by
  have hscope : (⟨es, root, mode⟩ : Scan).scope = [] := h.unscoped
  rw [enter, if_neg h.not_second, hscope]
  simp [Tag.open?, declarations, resolveAttributes, attributeSpace?, hkey]
  rfl

/-- **A start tag without attributes opens its element.** -/
theorem reads_startTag (h : Ready es root) (hname : isName name.toList = true) :
    (between es root).Reads ('<' :: name.toList ++ ['>'])
      (between (.bare name [] [] :: es) root) := by
  have hread := reads_tagName (s := between es root) hname
  refine .append (.cons rfl hread) (.single ?_)
  rw [step_tagName _ rfl, stepTagName, if_pos (.inr (.inl rfl)), List.reverse_reverse,
    ofChars?_of_isName hname, String.ofList_toList]
  exact enter_bare h _

theorem reads_attributeName {t : Tag} {cs : List Char} (hname : isName cs = true) :
    (s.within (.tag t true)).Reads cs (s.within (.attributeName t cs.reverse)) := by
  cases cs with
  | nil => cases hname
  | cons c cs =>
    obtain ⟨hc, hcs⟩ := List.forall_mem_cons.mp (isNameChar_of_mem hname)
    have hfirst : (s.within (.tag t true)).step c = some (s.within (.attributeName t [c])) := by
      rw [step_tag _ (isXmlChar_of_isNameChar hc), stepTag, isSpace_of_isNameChar hc,
        if_neg Bool.false_ne_true, if_neg (ne_of_isNameChar hc rfl),
        if_neg (ne_of_isNameChar hc rfl), if_pos rfl]
    have hcollect := reads_collecting s (.attributeName t) cs (fun read d hd => by
      have hd := hcs d hd
      rw [step_attributeName _ (isXmlChar_of_isNameChar hd), stepAttributeName, if_neg]
      simp [isSpace_of_isNameChar hd, ne_of_isNameChar hd (d := '=') rfl]) [c]
    rw [List.reverse_cons]
    exact .cons hfirst hcollect

/-- **A start tag with an attribute opens its element**, and the value is as it was meant. -/
theorem reads_startTag_attribute (h : Ready es root) {key value : String}
    (hname : isName name.toList = true) (hkey : isName key.toList = true) (hxmlns : key ≠ "xmlns")
    (hvalue : WrittenAs value.toList cs) (hxml : ∀ c ∈ value.toList, isXmlChar c = true) :
    (between es root).Reads
      ('<' :: name.toList ++ [' '] ++ key.toList ++ ['=', '"'] ++ cs ++ ['"', '>'])
      (between (.bare name [⟨none, key, value⟩] [] :: es) root) := by
  obtain ⟨ws, hspells, hchars⟩ := hvalue
  have hws : ∀ w ∈ ws, isXmlChar w.char = true := by
    rw [← hchars, List.forall_mem_map] at hxml
    exact hxml
  let t : Tag := ⟨⟨"", name⟩, []⟩
  have hstart : (between es root).Reads ('<' :: name.toList)
      ((between es root).within (.tagName name.toList.reverse)) :=
    .cons rfl (reads_tagName hname)
  have hspace : ((between es root).within (.tagName name.toList.reverse)).step ' ' =
      some ((between es root).within (.tag t true)) := by
    rw [step_tagName _ rfl, stepTagName, if_pos (.inl rfl), List.reverse_reverse,
      ofChars?_of_isName hname, String.ofList_toList]
    rfl
  have hequals : ((between es root).within (.attributeName t key.toList.reverse)).step '=' =
      some ((between es root).within (.attributeQuote t ⟨"", key⟩)) := by
    rw [step_attributeName _ rfl, stepAttributeName, if_pos (.inr rfl), List.reverse_reverse,
      ofChars?_of_isName hkey, String.ofList_toList]
    rfl
  have hquote : ((between es root).within (.attributeValue t ⟨"", key⟩ '"' ws.reverse)).step '"' =
      some ((between es root).within (.tag ⟨⟨"", name⟩, [(⟨"", key⟩, value)]⟩ false)) := by
    rw [step_attributeValue _ rfl, stepAttributeValue, if_pos rfl, List.reverse_reverse,
      hspells.valueText_eq, hchars, String.ofList_toList]
  have hvalueStart : ((between es root).within (.attributeName t key.toList.reverse)).Reads
      ['=', '"'] ((between es root).within (.attributeValue t ⟨"", key⟩ '"' [])) :=
    .cons hequals (.single rfl)
  have hnames := (hstart.append (.single hspace)).append (reads_attributeName hkey)
  have hvalue := (hnames.append hvalueStart).append (reads_value hspells hws)
  exact hvalue.append (.cons hquote (.single (enter_attribute h _ hxmlns)))

theorem appendText_content {e : OpenElement} {mode : Mode} (text : List Char) :
    ((⟨e :: es, root, mode⟩ : Scan).appendText text) =
      ⟨{ e with children := textNodes text ++ e.children } :: es, root, mode⟩ := by
  unfold appendText textNodes
  split <;> rfl

theorem reads_endName {cs : List Char} (hname : isName cs = true) :
    (s.within .markup).Reads ('/' :: cs) (s.within (.endName cs.reverse)) := by
  have hcollect := reads_collecting s .endName cs (fun read d hd => by
    have hd := isNameChar_of_mem hname d hd
    rw [step_endName _ (isXmlChar_of_isNameChar hd), stepEndName, if_neg]
    · rfl
    · simp [isSpace_of_isNameChar hd, ne_of_isNameChar hd (d := '>') rfl]) []
  rw [List.append_nil] at hcollect
  exact .cons rfl hcollect

/-- **An end tag closes its element**, with the text before it. -/
theorem reads_endTag {ws : List Written} {brackets : Nat} (hname : isName name.toList = true) :
    (⟨.bare name attributes children :: es, root, .content ws brackets⟩ : Scan).Reads
      ('<' :: ('/' :: name.toList) ++ ['>'])
      ((between es root).finish
        (.element name attributes (children.reverse ++ textNodes (plainText ws.reverse)))) := by
  have hopening : (⟨.bare name attributes children :: es, root, .content ws brackets⟩ : Scan).step
      '<' = some ((between (.bare name attributes
        (textNodes (plainText ws.reverse) ++ children) :: es) root).within .markup) := by
    show some ((appendText _ _).within .markup) = _
    rw [appendText_content]
    rfl
  refine .append (.cons hopening (reads_endName hname)) (.single ?_)
  rw [step_endName _ rfl, stepEndName, if_pos (.inr rfl), List.reverse_reverse,
    ofChars?_of_isName hname, String.ofList_toList]
  dsimp only
  rw [stepEndTag, if_neg (by decide), if_pos rfl]
  have hnode : (OpenElement.bare name attributes
      (textNodes (plainText ws.reverse) ++ children)).close =
      .element name attributes (children.reverse ++ textNodes (plainText ws.reverse)) := by
    rw [OpenElement.close, OpenElement.bare, List.reverse_append, reverse_textNodes]
  refine (if_pos rfl).trans (congrArg some ?_)
  rw [hnode]
  -- the outermost element becomes the root, any other one a child
  cases es <;> rfl

/-- **A written text is read up to the end of its element.** -/
theorem reads_closing {text : List Char} (hname : isName name.toList = true)
    (htext : WrittenAs text cs) (hxml : ∀ c ∈ text, isXmlChar c = true) :
    (between (.bare name attributes children :: es) root).Reads
      (cs ++ ('<' :: ('/' :: name.toList) ++ ['>']))
      ((between es root).finish (.element name attributes (children.reverse ++ textNodes text))) := by
  obtain ⟨ws, hspells, rfl⟩ := htext
  obtain ⟨_, hread, brackets, rfl⟩ := reads_text hspells (List.forall_mem_map.mp hxml)
  rw [← hspells.plainText_eq, ← ws.reverse_reverse]
  exact hread.append (reads_endTag hname)

theorem reads_closing_nil (hname : isName name.toList = true) :
    (between (.bare name attributes children :: es) root).Reads
      ('<' :: ('/' :: name.toList) ++ ['>'])
      ((between es root).finish (.element name attributes children.reverse)) := by
  rw [← List.append_nil children.reverse]
  exact reads_closing hname ⟨[], .nil, rfl⟩ nofun

end Scan

end DocAudit.Xml
