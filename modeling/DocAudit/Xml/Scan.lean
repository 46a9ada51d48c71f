import DocAudit.Xml.LineEnd
import DocAudit.Xml.Node
/-!
# Scanning a document

A document is read one character at a time. A `Scan` holds what was read so far: the elements that
are still open, the root element once it is closed, and in which construct the next character
stands. `Scan.step` takes one character or refuses it, so that the scan of a text goes on where the
scan of its beginning ended.

* `Scan.step`: one character.
* `Scan.run`: all characters of a text.
* `Scan.root?`: the root element, if the document is complete.
* `resolveReference`: the character that a reference stands for.
-/

namespace DocAudit.Xml

/-! ## References -/

/-- The value of a digit in bases up to sixteen. -/
def digitValue? (base : Nat) (c : Char) : Option Nat :=
  let v? :=
    if '0' ≤ c ∧ c ≤ '9' then some (c.toNat - '0'.toNat)
    else if 'a' ≤ c ∧ c ≤ 'f' then some (c.toNat - 'a'.toNat + 10)
    else if 'A' ≤ c ∧ c ≤ 'F' then some (c.toNat - 'A'.toNat + 10)
    else none
  v?.bind fun v => if v < base then some v else none

/-- The number below 2³² that one or more digits stand for. -/
def codePoint? (base : Nat) : List Char → Option Nat
  | [] => none
  | cs =>
    let n? := cs.foldlM (fun n c => (digitValue? base c).map (n * base + ·)) 0
    n?.bind fun n => if n < UInt32.size then some n else none

/-- The character with the given code point. What is no character at all becomes U+FFFD, a
character that documents may not hold is refused. -/
def referredChar? (n : Nat) : Option Char :=
  let c := if n.isValidChar then Char.ofNat n else '\ufffd'
  if isXmlChar c then some c else none

/-- The character that the text between `&` and `;` stands for. -/
def resolveReference : List Char → Option Char
  | '#' :: 'x' :: cs => (codePoint? 16 cs).bind referredChar?
  | '#' :: cs => (codePoint? 10 cs).bind referredChar?
  | ['a', 'm', 'p'] => some '&'
  | ['l', 't'] => some '<'
  | ['g', 't'] => some '>'
  | ['q', 'u', 'o', 't'] => some '"'
  | ['a', 'p', 'o', 's'] => some '\''
  | _ => none

/-! ## Names, tags and namespaces -/

/-- A name, split at its colon. A name without colon has the empty prefix. -/
structure QName where
  space : String
  name : String
deriving DecidableEq, Repr

/-- A name with at most one colon. What stands before the colon may be empty. -/
def QName.ofChars? (cs : List Char) : Option QName :=
  let make (space name : List Char) : Option QName :=
    if (space = [] ∨ isName space) ∧ isName name then
      some ⟨String.ofList space, String.ofList name⟩
    else none
  match cs.span (· != ':') with
  | (name, []) => make [] name
  | (space, _ :: name) => make space name

/-- A start tag as far as it was read. -/
structure Tag where
  name : QName
  attributes : List (QName × String) := []

/-- The namespaces that prefixes stand for, innermost first. -/
abbrev Scope := List (String × String)

/-- The namespace of the prefix `xml`. -/
def xmlSpace : String := "http://www.w3.org/XML/1998/namespace"

/-- The namespace of the prefix `xmlns`. -/
def xmlnsSpace : String := "http://www.w3.org/2000/xmlns/"

/-- The namespace declarations of a tag: the prefix and the namespace of each. The two reserved
namespaces belong to their own prefixes, and no prefix is declared twice. -/
def declarations : List (QName × String) → Scope → Option Scope
  | [], declared => some declared
  | (name, value) :: rest, declared =>
    if name.space = "xmlns" then
      if value = xmlnsSpace then none
      else if (name.name = "xml") ≠ (value = xmlSpace) then none
      else if declared.any (·.1 = name.name) then none
      else declarations rest (if value = xmlSpace then declared else (name.name, value) :: declared)
    else if name.name = "xmlns" then
      if value = xmlSpace ∨ value = xmlnsSpace then none else declarations rest declared
    else declarations rest declared

/-- The namespace of an attribute: none without prefix, else that of the prefix, which has to be
declared. -/
def attributeSpace? (scope : Scope) (space : String) : Option (Option String) :=
  if space = "" then some none
  else if space = "xml" then some (some xmlSpace)
  else (scope.lookup space).map some

/-- The attributes of a tag without its namespace declarations. No two of them may have the same
namespace and name. -/
def resolveAttributes (scope : Scope) : List (QName × String) → List Attribute →
    Option (List Attribute)
  | [], done => some done.reverse
  | (name, value) :: rest, done =>
    if name.space = "xmlns" ∨ name.name = "xmlns" then resolveAttributes scope rest done
    else
      match attributeSpace? scope name.space with
      | none => none
      | some space =>
        if done.any fun a => a.space = space ∧ a.name = name.name then none
        else resolveAttributes scope rest (⟨space, name.name, value⟩ :: done)

/-- An element that is still open: its name, attributes, namespaces, and its children so far, the
last one first. -/
structure OpenElement where
  name : QName
  attributes : List Attribute
  scope : Scope
  children : List Node := []

/-- The finished element. -/
def OpenElement.close (e : OpenElement) : Node :=
  .element e.name.name e.attributes e.children.reverse

/-- The element that a start tag opens. -/
def Tag.open? (t : Tag) (outer : Scope) : Option OpenElement :=
  let attributes := t.attributes.reverse
  match declarations attributes [] with
  | none => none
  | some declared =>
    let scope := declared ++ outer
    if t.name.space = "xmlns" then none
    else if t.name.space ≠ "" ∧ (scope.lookup t.name.space).isNone then none
    else (resolveAttributes scope attributes []).map fun as => ⟨t.name, as, scope, []⟩

/-! ## The state of a scan -/

/-- In which construct the next character stands. Lists of characters hold the last one first. -/
inductive Mode where
  /-- Outside of markup: the text since the last markup, and how many of its last characters are
  brackets `]` that are not written as references. -/
  | content (text : List Written) (brackets : Nat)
  /-- Behind an `&` in text. -/
  | reference (text : List Written) (name : List Char)
  /-- Behind a `<`. -/
  | markup
  /-- Behind `<!`: what was read of the opening of a comment or a CDATA section. -/
  | exclamation (read : List Char)
  | comment (text : List Char)
  | cdata (text : List Char)
  /-- The name of a processing instruction. -/
  | instructionName (name : List Char)
  /-- The rest of a processing instruction, and whether it ends in `?` so far. -/
  | instruction (question : Bool)
  /-- The name in a start tag. -/
  | tagName (name : List Char)
  /-- In a start tag, between attributes, and whether white space was read. -/
  | tag (t : Tag) (spaced : Bool)
  /-- Behind the `/` of an empty tag. -/
  | emptyTag (t : Tag)
  | attributeName (t : Tag) (name : List Char)
  /-- Behind the name of an attribute. -/
  | attributeEquals (t : Tag) (name : QName)
  /-- Behind the `=` of an attribute. -/
  | attributeQuote (t : Tag) (name : QName)
  | attributeValue (t : Tag) (name : QName) (quote : Char) (value : List Written)
  /-- Behind an `&` in a value. -/
  | attributeReference (t : Tag) (name : QName) (quote : Char) (value : List Written)
    (reference : List Char)
  /-- The name in an end tag. -/
  | endName (name : List Char)
  /-- Behind the name in an end tag. -/
  | endTag (name : QName)

/-- What was read of a document: the open elements, innermost first, the root element once it is
closed, and the current construct. -/
structure Scan where
  ancestors : List OpenElement := []
  root : Option Node := none
  mode : Mode := .content [] 0

namespace Scan

/-- The scan with another construct. -/
def within (s : Scan) (m : Mode) : Scan := { s with mode := m }

/-- Adds a node to the innermost open element; outside of the root element it is left out. -/
def append (s : Scan) (n : Node) : Scan :=
  match s.ancestors with
  | [] => s
  | e :: es => { s with ancestors := { e with children := n :: e.children } :: es }

/-- Adds a text, unless it is empty. -/
def appendText (s : Scan) (text : List Char) : Scan :=
  if text = [] then s else s.append (.text (String.ofList text))

/-- Goes back to content. -/
def resume (s : Scan) : Scan := s.within (.content [] 0)

/-- Takes a finished element: it is a child of the innermost open element, or the root. -/
def finish (s : Scan) (n : Node) : Scan :=
  match s.ancestors with
  | [] => { s with root := some n }.resume
  | _ :: _ => (s.append n).resume

/-- The namespaces in force. -/
def scope (s : Scan) : Scope :=
  match s.ancestors with
  | [] => []
  | e :: _ => e.scope

/-- Opens an element; there is only one root element. -/
def enter (s : Scan) (t : Tag) : Option Scan :=
  if s.ancestors = [] ∧ s.root.isSome then none
  else (t.open? s.scope).map fun e => { s with ancestors := e :: s.ancestors }.resume

/-- A tag that opens an element and closes it at once. -/
def empty (s : Scan) (t : Tag) : Option Scan :=
  if s.ancestors = [] ∧ s.root.isSome then none
  else (t.open? s.scope).map fun e => s.finish e.close

/-- Closes the innermost open element, which has to have the given name. -/
def leave (s : Scan) (name : QName) : Option Scan :=
  match s.ancestors with
  | [] => none
  | e :: es => if e.name = name then some ({ s with ancestors := es }.finish e.close) else none

/-! ## One character -/

/-- A character outside of markup. Outside of the root element there is only white space, and
`]]>` does not stand in text. -/
def stepContent (s : Scan) (text : List Written) (brackets : Nat) (c : Char) : Option Scan :=
  if c = '<' then some ((s.appendText (plainText text.reverse)).within .markup)
  else if s.ancestors = [] then if isSpace c then some s.resume else none
  else if c = '&' then some (s.within (.reference text []))
  else if c = '>' ∧ 2 ≤ brackets then none
  else some (s.within (.content (⟨c, false⟩ :: text) (if c = ']' then brackets + 1 else 0)))

/-- A character of a reference in text. -/
def stepReference (s : Scan) (text : List Written) (name : List Char) (c : Char) : Option Scan :=
  if c = ';' then
    (resolveReference name.reverse).map fun r => s.within (.content (⟨r, true⟩ :: text) 0)
  else some (s.within (.reference text (c :: name)))

/-- The character behind a `<`. -/
def stepMarkup (s : Scan) (c : Char) : Option Scan :=
  if c = '/' then some (s.within (.endName []))
  else if c = '!' then some (s.within (.exclamation []))
  else if c = '?' then some (s.within (.instructionName []))
  else if isNameStart c ∨ c = ':' then some (s.within (.tagName [c]))
  else none

/-- A character behind `<!`, where only comments and, inside elements, CDATA sections begin. -/
def stepExclamation (s : Scan) (read : List Char) (c : Char) : Option Scan :=
  let read' := read ++ [c]
  if read' = "--".toList then some (s.within (.comment []))
  else if read' = "[CDATA[".toList then
    if s.ancestors = [] then none else some (s.within (.cdata []))
  else if read'.isPrefixOf "--".toList ∨ read'.isPrefixOf "[CDATA[".toList then
    some (s.within (.exclamation read'))
  else none

/-- A character of a comment; two hyphens only stand at its end. -/
def stepComment (s : Scan) (text : List Char) (c : Char) : Option Scan :=
  match text with
  | '-' :: '-' :: _ => if c = '>' then some (s.append .comment).resume else none
  | _ => some (s.within (.comment (c :: text)))

/-- A character of a CDATA section. -/
def stepCdata (s : Scan) (text : List Char) (c : Char) : Option Scan :=
  match c, text with
  | '>', ']' :: ']' :: text => some (s.appendText (unifyLineEnds text.reverse)).resume
  | c, text => some (s.within (.cdata (c :: text)))

/-- Whether the characters of the name of an instruction are fine; a colon is a letter here. -/
def isInstructionName : List Char → Bool
  | [] => false
  | c :: cs => (isNameStart c || c = ':') && cs.all fun d => isNameChar d || d = ':'

/-- A character of the name of a processing instruction. The name `xml` before a space belongs to
the declaration of a document, which stands only at its start. -/
def stepInstructionName (s : Scan) (name : List Char) (c : Char) : Option Scan :=
  if isInstructionName (name.reverse ++ [c]) then some (s.within (.instructionName (c :: name)))
  else if name = [] ∨ (name = ['l', 'm', 'x'] ∧ c = ' ') then none
  else some (s.within (.instruction (c = '?')))

/-- A character of a processing instruction behind its name. -/
def stepInstruction (s : Scan) (question : Bool) (c : Char) : Option Scan :=
  if question ∧ c = '>' then some (s.append .instruction).resume
  else some (s.within (.instruction (c = '?')))

/-- A character inside a start tag, between attributes. -/
def stepTag (s : Scan) (t : Tag) (spaced : Bool) (c : Char) : Option Scan :=
  if isSpace c then some (s.within (.tag t true))
  else if c = '>' then s.enter t
  else if c = '/' then some (s.within (.emptyTag t))
  else if spaced then some (s.within (.attributeName t [c]))
  else none

/-- A character of the name in a start tag. -/
def stepTagName (s : Scan) (name : List Char) (c : Char) : Option Scan :=
  if isSpace c ∨ c = '>' ∨ c = '/' then
    match QName.ofChars? name.reverse with
    | some q => s.stepTag ⟨q, []⟩ false c
    | none => none
  else some (s.within (.tagName (c :: name)))

/-- A character behind the name of an attribute. -/
def stepAttributeEquals (s : Scan) (t : Tag) (name : QName) (c : Char) : Option Scan :=
  if isSpace c then some (s.within (.attributeEquals t name))
  else if c = '=' then some (s.within (.attributeQuote t name))
  else none

/-- A character of the name of an attribute. -/
def stepAttributeName (s : Scan) (t : Tag) (name : List Char) (c : Char) : Option Scan :=
  if isSpace c ∨ c = '=' then
    match QName.ofChars? name.reverse with
    | some q => s.stepAttributeEquals t q c
    | none => none
  else some (s.within (.attributeName t (c :: name)))

/-- A character behind the `=` of an attribute. -/
def stepAttributeQuote (s : Scan) (t : Tag) (name : QName) (c : Char) : Option Scan :=
  if isSpace c then some (s.within (.attributeQuote t name))
  else if c = '"' ∨ c = '\'' then some (s.within (.attributeValue t name c []))
  else none

/-- A character of the value of an attribute. -/
def stepAttributeValue (s : Scan) (t : Tag) (name : QName) (quote : Char) (value : List Written)
    (c : Char) : Option Scan :=
  if c = quote then
    let text := String.ofList (valueText value.reverse)
    some (s.within (.tag ⟨t.name, (name, text) :: t.attributes⟩ false))
  else if c = '<' then none
  else if c = '&' then some (s.within (.attributeReference t name quote value []))
  else some (s.within (.attributeValue t name quote (⟨c, false⟩ :: value)))

/-- A character of a reference in the value of an attribute. -/
def stepAttributeReference (s : Scan) (t : Tag) (name : QName) (quote : Char)
    (value : List Written) (reference : List Char) (c : Char) : Option Scan :=
  if c = ';' then
    (resolveReference reference.reverse).map fun r =>
      s.within (.attributeValue t name quote (⟨r, true⟩ :: value))
  else some (s.within (.attributeReference t name quote value (c :: reference)))

/-- A character behind the name in an end tag. -/
def stepEndTag (s : Scan) (name : QName) (c : Char) : Option Scan :=
  if isSpace c then some (s.within (.endTag name))
  else if c = '>' then s.leave name
  else none

/-- A character of the name in an end tag. -/
def stepEndName (s : Scan) (name : List Char) (c : Char) : Option Scan :=
  if isSpace c ∨ c = '>' then
    match QName.ofChars? name.reverse with
    | some q => s.stepEndTag q c
    | none => none
  else some (s.within (.endName (c :: name)))

/-- Takes one character, or refuses it. -/
def step (s : Scan) (c : Char) : Option Scan :=
  if isXmlChar c then
    match s.mode with
    | .content text brackets => s.stepContent text brackets c
    | .reference text name => s.stepReference text name c
    | .markup => s.stepMarkup c
    | .exclamation read => s.stepExclamation read c
    | .comment text => s.stepComment text c
    | .cdata text => s.stepCdata text c
    | .instructionName name => s.stepInstructionName name c
    | .instruction question => s.stepInstruction question c
    | .tagName name => s.stepTagName name c
    | .tag t spaced => s.stepTag t spaced c
    | .emptyTag t => if c = '>' then s.empty t else none
    | .attributeName t name => s.stepAttributeName t name c
    | .attributeEquals t name => s.stepAttributeEquals t name c
    | .attributeQuote t name => s.stepAttributeQuote t name c
    | .attributeValue t name quote value => s.stepAttributeValue t name quote value c
    | .attributeReference t name quote value reference =>
      s.stepAttributeReference t name quote value reference c
    | .endName name => s.stepEndName name c
    | .endTag name => s.stepEndTag name c
  else none

/-- Takes all characters of a text. -/
def run (s : Scan) (text : List Char) : Option Scan := text.foldlM step s

/-- The root element, if nothing is left open. -/
def root? (s : Scan) : Option Node :=
  match s.ancestors, s.mode with
  | [], .content _ _ => s.root
  | _, _ => none

end Scan

end DocAudit.Xml
