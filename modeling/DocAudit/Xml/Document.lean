import DocAudit.Text.Reader
import DocAudit.Xml.Scan
/-!
# Reading a document

* `afterDeclaration`: what follows the declaration of a document, if it has one.
* `Node.ofText?`: the root element of a well-formed document.
-/

namespace DocAudit.Xml

open Text

/-- What follows the white space at the start of a text. -/
def skipSpace (s : List Char) : List Char := s.dropWhile isSpace

/-- What follows an attribute in a declaration, which may hold any value. Behind it has to stand
white space or the end of the declaration. -/
def afterAttribute (s : List Char) : Option (List Char) :=
  let name := s.takeWhile fun c => isNameChar c || c = ':'
  match QName.ofChars? name, skipSpace (s.drop name.length) with
  | some _, '=' :: r =>
    match skipSpace r with
    | quote :: r =>
      if quote = '"' ∨ quote = '\'' then
        match r.span fun c => isXmlChar c && c ≠ quote && c ≠ '<' with
        | (_, c :: r) => if c = quote then some r else none
        | _ => none
      else none
    | [] => none
  | _, _ => none

/-- What follows white space, which may be missing only before the end of the declaration. -/
def afterSeparator (s : List Char) : Option (List Char) :=
  match s with
  | c :: _ => if isSpace c ∨ "?>".toList.isPrefixOf s then some (skipSpace s) else none
  | [] => none

/-- What follows an attribute of a declaration, if there is one of the given name. -/
def afterOptional (name : String) (s : List Char) : Option (List Char) :=
  if name.toList.isPrefixOf s then (afterAttribute s).bind afterSeparator else some s

/-- What follows the declaration of a document: the version, and then perhaps the encoding and
whether the document stands alone. A document without declaration is left as it is. -/
def afterDeclaration (s : List Char) : Option (List Char) :=
  if "<?xml ".toList.isPrefixOf s then do
    let s := skipSpace (s.drop 5)
    let s ← if "version".toList.isPrefixOf s then afterOptional "version" s else none
    let s ← afterOptional "encoding" s
    let s ← if "standalone".toList.isPrefixOf s then afterAttribute s else some s
    let s := skipSpace s
    if "?>".toList.isPrefixOf s then some (s.drop 2) else none
  else some s

/-- The root element of a well-formed document. Byte order marks before it are left out. -/
def Node.ofText? (text : String) : Option Node := do
  let s ← afterDeclaration (text.toList.dropWhile (· = '\ufeff'))
  let scan ← Scan.run {} s
  scan.root?

end DocAudit.Xml
