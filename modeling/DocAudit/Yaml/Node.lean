import DocAudit.Yaml.Token
/-!
# YAML nodes

A document is a tree of scalars, sequences and mappings. An alias stands for a node with an anchor,
which has a number.

* `Node`: a node, with the tag it has.
* `Document`: the node that a document is, and the nodes that aliases in it stand for.
* `Document.ofText?`: the single document in a text; an empty text is an empty scalar.
-/

namespace DocAudit.Yaml

/-- A node. -/
inductive Node where
  | scalar (tag : Option String) (style : ScalarStyle) (text : String)
  | sequence (items : List Node)
  | mapping (entries : List (Node × Node))
  /-- An alias, with the number of what it stands for. -/
  | alias (number : Nat)

namespace Node

/-- The scalar that stands where nothing is written. -/
def empty : Node := .scalar none .plain ""

instance : Inhabited Node := ⟨empty⟩

/-! ## From tokens to nodes -/

/-- The names known so far. -/
structure Names where
  /-- What the handles of tags stand for. -/
  handles : List (String × String)
  /-- The anchors, each with the number it was given last. -/
  anchors : List (String × Nat) := []
  /-- The nodes with anchors that were begun, in order, each with the number of its anchor. -/
  anchored : List (Nat × Node) := []

/-- The names at the start of a node with an anchor. The number of the anchor is how many others
there are by then. So where a name comes again, it gets a number that the next new name gets
too. -/
def Names.begin (names : Names) (anchor : String) : Names :=
  let number := names.anchors.length
  { names with
    anchors := (anchor, number) :: names.anchors.filter (·.1 ≠ anchor)
    anchored := names.anchored ++ [(number, empty)] }

/-- The names at the end of a node with an anchor, given how many such nodes began before it. -/
def Names.finish (names : Names) (before : Nat) (n : Node) : Names :=
  { names with anchored := names.anchored.modify before fun (number, _) => (number, n) }

/-- Tokens that are left, and the names known by then. -/
abbrev Rest := List Token × Names

/-- The tag that a handle and a suffix stand for. -/
def tagName? (names : Names) (handle suffix : String) : Option String :=
  if handle = "" then some suffix
  else (names.handles.lookup handle).map fun meaning => meaning ++ suffix

/-- What stands before the content of a node: an anchor and a tag, each at most once. -/
structure Properties where
  anchor : Option String := none
  tag : Option String := none

/-- Reads the anchor and the tag of a node. -/
def readProperties (names : Names) : List Token → Option (Properties × List Token)
  | .anchor a :: .tag handle suffix :: ts =>
    (tagName? names handle suffix).map fun t => (⟨some a, some t⟩, ts)
  | .tag handle suffix :: .anchor a :: ts =>
    (tagName? names handle suffix).map fun t => (⟨some a, some t⟩, ts)
  | .anchor a :: ts => some (⟨some a, none⟩, ts)
  | .tag handle suffix :: ts => (tagName? names handle suffix).map fun t => (⟨none, some t⟩, ts)
  | ts => some ({}, ts)

/-- Where a node stands, which decides what it may be. -/
inductive Place where
  /-- In a document, or an item of a sequence by indentation. -/
  | block
  /-- A key or a value of a mapping by indentation, where the hyphens of a sequence need not be
  indented. -/
  | blockEntry
  /-- Inside of brackets or braces. -/
  | flow
deriving DecidableEq

/-- Whether nothing stands before a token where an item by indentation could stand. -/
def endsBlockItem : List Token → Bool
  | .blockEntry :: _ | .blockEnd :: _ => true
  | _ => false

/-- The same, for an item with hyphens that are not indented. -/
def endsLooseItem : List Token → Bool
  | .blockEntry :: _ | .key :: _ | .value :: _ | .blockEnd :: _ => true
  | _ => false

/-- The same, for a key or a value by indentation. -/
def endsBlockEntry : List Token → Bool
  | .key :: _ | .value :: _ | .blockEnd :: _ => true
  | _ => false

/-- The same, inside of brackets or braces with the given closing one. -/
def endsFlowEntry (closing : Token) : List Token → Bool
  | .flowEntry :: _ | .value :: _ => true
  | t :: _ => t = closing
  | [] => false

mutual

/-- Reads a node. -/
def readNode (place : Place) : Nat → Rest → Option (Node × Rest)
  | 0, _ => none
  | _ + 1, (.alias name :: ts, names) =>
    (names.anchors.lookup name).map fun number => (.alias number, (ts, names))
  | fuel + 1, (ts, names) => do
    let (properties, ts) ← readProperties names ts
    match properties.anchor with
    | none => readContent place properties fuel (ts, names)
    | some anchor =>
      let (node, ts, names') ← readContent place properties fuel (ts, names.begin anchor)
      some (node, ts, names'.finish names.anchored.length node)

/-- Reads the content of a node. A node with an anchor or a tag may be empty. An exclamation mark
is no tag of a scalar that is there. -/
def readContent (place : Place) (properties : Properties) : Nat → Rest → Option (Node × Rest)
  | 0, _ => none
  | fuel + 1, (ts, names) =>
    match ts with
    | .scalar text style :: ts =>
      some (.scalar (properties.tag.filter (· ≠ "!")) style text, (ts, names))
    | .flowSequenceStart :: ts =>
      (readFlowItems true fuel (ts, names)).map fun (items, r) => (.sequence items, r)
    | .flowMappingStart :: ts =>
      (readFlowEntries true fuel (ts, names)).map fun (entries, r) => (.mapping entries, r)
    | .blockSequenceStart :: ts =>
      if place = .flow then none
      else (readBlockItems fuel (ts, names)).map fun (items, r) => (.sequence items, r)
    | .blockMappingStart :: ts =>
      if place = .flow then none
      else (readBlockEntries fuel (ts, names)).map fun (entries, r) => (.mapping entries, r)
    | ts =>
      if place = .blockEntry ∧ ts.head? = some .blockEntry then
        (readLooseItems fuel (ts, names)).map fun (items, r) => (.sequence items, r)
      else if properties.anchor.isSome ∨ properties.tag.isSome then
        some (.scalar properties.tag .plain "", (ts, names))
      else none

/-- Reads the items of a sequence by indentation, up to its end. -/
def readBlockItems : Nat → Rest → Option (List Node × Rest)
  | 0, _ => none
  | _ + 1, (.blockEnd :: ts, names) => some ([], (ts, names))
  | fuel + 1, (.blockEntry :: ts, names) => do
    let (item, r) ← if endsBlockItem ts then some (empty, (ts, names))
      else readNode .block fuel (ts, names)
    let (items, r) ← readBlockItems fuel r
    some (item :: items, r)
  | _ + 1, _ => none

/-- Reads the items of a sequence with hyphens that are not indented. -/
def readLooseItems : Nat → Rest → Option (List Node × Rest)
  | 0, _ => none
  | fuel + 1, (.blockEntry :: ts, names) => do
    let (item, r) ← if endsLooseItem ts then some (empty, (ts, names))
      else readNode .block fuel (ts, names)
    let (items, r) ← readLooseItems fuel r
    some (item :: items, r)
  | _ + 1, r => some ([], r)

/-- Reads the entries of a mapping by indentation, up to its end. -/
def readBlockEntries : Nat → Rest → Option (List (Node × Node) × Rest)
  | 0, _ => none
  | _ + 1, (.blockEnd :: ts, names) => some ([], (ts, names))
  | fuel + 1, (.key :: ts, names) => do
    let (k, ts, names) ← if endsBlockEntry ts then some (empty, (ts, names))
      else readNode .blockEntry fuel (ts, names)
    let (v, r) ← match ts with
      | .value :: ts =>
        if endsBlockEntry ts then some (empty, (ts, names))
        else readNode .blockEntry fuel (ts, names)
      | ts => some (empty, (ts, names))
    let (entries, r) ← readBlockEntries fuel r
    some ((k, v) :: entries, r)
  | _ + 1, _ => none

/-- Reads the items between brackets. An item with a key is a mapping of its own. Behind the sign
of a key that is empty, the colon, comma or bracket that shows this does not count any more. -/
def readFlowItems (first : Bool) : Nat → Rest → Option (List Node × Rest)
  | 0, _ => none
  | fuel + 1, (ts, names) =>
    let ts? := match first, ts with
      | false, .flowEntry :: ts => some ts
      | false, .flowSequenceEnd :: _ | true, _ => some ts
      | false, _ => none
    match ts? with
    | none => none
    | some (.flowSequenceEnd :: ts) => some ([], (ts, names))
    | some (.key :: ts) => do
      let (k, ts, names) ←
        if endsFlowEntry .flowSequenceEnd ts then some (empty, (ts.drop 1, names))
        else readNode .flow fuel (ts, names)
      let (v, r) ← readFlowValue .flowSequenceEnd fuel (ts, names)
      let (items, r) ← readFlowItems false fuel r
      some (.mapping [(k, v)] :: items, r)
    | some ts => do
      let (item, r) ← readNode .flow fuel (ts, names)
      let (items, r) ← readFlowItems false fuel r
      some (item :: items, r)

/-- Reads the value behind a key inside of brackets or braces, if there is one. -/
def readFlowValue (closing : Token) : Nat → Rest → Option (Node × Rest)
  | 0, _ => none
  | fuel + 1, (.value :: ts, names) =>
    match ts with
    | .flowEntry :: _ => some (empty, (ts, names))
    | t :: _ => if t = closing then some (empty, (ts, names)) else readNode .flow fuel (ts, names)
    | [] => none
  | _ + 1, r => some (empty, r)

/-- Reads the entries between braces. An entry without colon is a key with an empty value. -/
def readFlowEntries (first : Bool) : Nat → Rest → Option (List (Node × Node) × Rest)
  | 0, _ => none
  | fuel + 1, (ts, names) =>
    let ts? := match first, ts with
      | false, .flowEntry :: ts => some ts
      | false, .flowMappingEnd :: _ | true, _ => some ts
      | false, _ => none
    match ts? with
    | none => none
    | some (.flowMappingEnd :: ts) => some ([], (ts, names))
    | some (.key :: ts) => do
      let (k, ts, names) ← if endsFlowEntry .flowMappingEnd ts then some (empty, (ts, names))
        else readNode .flow fuel (ts, names)
      let (v, r) ← readFlowValue .flowMappingEnd fuel (ts, names)
      let (entries, r) ← readFlowEntries false fuel r
      some ((k, v) :: entries, r)
    | some ts => do
      let (k, r) ← readNode .flow fuel (ts, names)
      let (entries, r) ← readFlowEntries false fuel r
      some ((k, empty) :: entries, r)

end

end Node

/-! ## Documents -/

/-- A document. -/
structure Document where
  root : Node
  /-- The nodes with anchors in the order of their starts, each with the number of its anchor. -/
  anchored : List (Nat × Node) := []

namespace Document

/-- The node that a node stands for: for an alias the last one with its number. -/
def target (d : Document) : Node → Node
  | .alias number => (d.anchored.reverse.lookup number).getD .empty
  | n => n

/-- The handles of tags that need no directive. -/
def defaultHandles : List (String × String) := [("!", "!"), ("!!", "tag:yaml.org,2002:")]

/-- Reads directives; none may come twice. -/
def readDirectives (version : Bool) (handles : List (String × String)) :
    List Token → Option (List (String × String) × List Token)
  | .versionDirective :: ts => if version then none else readDirectives true handles ts
  | .tagDirective handle meaning :: ts =>
    if handles.any (·.1 = handle) then none
    else readDirectives version (handles ++ [(handle, meaning)]) ts
  | ts => some (handles, ts)

/-- Whether a document without content ends here. -/
def endsDocument : List Token → Bool
  | [] | .documentStart :: _ | .documentEnd :: _ | .versionDirective :: _
  | .tagDirective .. :: _ => true
  | _ => false

/-- The only document of a list of tokens. It may be empty behind a document marker, which
directives need, and where there are no tokens at all. -/
def ofTokens? (tokens : List Token) : Option Document := do
  let (handles, ts) ← readDirectives false [] tokens
  let names : Node.Names := { handles := handles ++ defaultHandles }
  let read (ts : List Token) : Option (Node × Node.Rest) :=
    Node.readNode .block (4 * ts.length + 4) (ts, names)
  let (root, ts, names) ← match ts with
    | .documentStart :: ts => if endsDocument ts then some (.empty, ts, names) else read ts
    | ts =>
      if ts.length < tokens.length then none
      else if ts = [] then some (.empty, ts, names)
      else read ts
  if ts.all (· = .documentEnd) then some { root, anchored := names.anchored } else none

/-- The single document in a text. -/
def ofText? (text : String) : Option Document := (Token.ofText? text).bind ofTokens?

end Document

end DocAudit.Yaml
