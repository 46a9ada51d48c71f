import DocAudit.Yaml.Cursor
/-!
# YAML scalars

Scalars are plain, in single or double quotes, or blocks of lines. All but literal blocks fold
their lines: one line end between two lines is a space, and of several the first does not count.

* `quoted`, `plain`, `block`: a scalar at a place, with the place behind it.
-/

namespace DocAudit.Yaml

/-! ## Folding -/

/-- White space inside a scalar that may still turn out to be the end of it. -/
structure Gap where
  /-- Blanks on the same line. -/
  blanks : List Char := []
  /-- A line end was read. -/
  broken : Bool := false
  /-- The first line end. -/
  first : List Char := []
  /-- The further line ends. -/
  more : List Char := []

/-- The text that white space inside a scalar stands for. -/
def Gap.text (g : Gap) : List Char :=
  if !g.broken then g.blanks
  else if g.first = ['\n'] then (if g.more = [] then [' '] else g.more)
  else g.first ++ g.more

/-- Reads white space. A tab before the given column at the start of a line is refused. -/
def readGap (limit : Nat) : Nat → Cursor → Gap → Option (Cursor × Gap)
  | 0, _, _ => none
  | fuel + 1, c, g =>
    match c.rest with
    | [] => some (c, g)
    | x :: _ =>
      if isBlank x then
        if g.broken ∧ c.column < limit ∧ x = '\t' then none
        else
          readGap limit fuel (c.advance 1)
            (if g.broken then g else { g with blanks := g.blanks ++ [x] })
      else if isBreak x then
        let g := if g.broken then { g with more := g.more ++ c.breakText }
          else { g with broken := true, first := c.breakText }
        readGap limit fuel c.nextLine g
      else some (c, g)

/-! ## Quoted scalars -/

def hexValue? (c : Char) : Option Nat :=
  if c.isDigit then some (c.toNat - '0'.toNat)
  else if 'a' ≤ c ∧ c ≤ 'f' then some (c.toNat - 'a'.toNat + 10)
  else if 'A' ≤ c ∧ c ≤ 'F' then some (c.toNat - 'A'.toNat + 10)
  else none

/-- The character with a code of the given number of hexadecimal digits, and its length. -/
def codedChar? (count : Nat) (s : List Char) : Option (Char × Nat) :=
  let ds := s.take count
  if ds.length = count then
    (ds.foldlM (fun n d => (hexValue? d).map (n * 16 + ·)) 0).bind fun n =>
      if n.isValidChar then some (Char.ofNat n, count + 1) else none
  else none

/-- The character behind a backslash, and how many characters stand for it. -/
def escape? : List Char → Option (Char × Nat)
  | [] => none
  | c :: s =>
    match c with
    | '0' => some ('\x00', 1)
    | 'a' => some ('\x07', 1)
    | 'b' => some ('\x08', 1)
    | 't' | '\t' => some ('\t', 1)
    | 'n' => some ('\n', 1)
    | 'v' => some ('\x0b', 1)
    | 'f' => some ('\x0c', 1)
    | 'r' => some ('\r', 1)
    | 'e' => some ('\x1b', 1)
    | ' ' | '"' | '/' | '\\' => some (c, 1)
    | 'N' => some ('\u0085', 1)
    | '_' => some ('\u00a0', 1)
    | 'L' => some ('\u2028', 1)
    | 'P' => some ('\u2029', 1)
    | 'x' => codedChar? 2 s
    | 'u' => codedChar? 4 s
    | 'U' => codedChar? 8 s
    | _ => none

/-- The characters of a quoted scalar up to its closing quote, behind those that were read, the
last one first. -/
def quotedBody (quote : Char) : Nat → Cursor → List Char → Option (List Char × Cursor)
  | 0, _, _ => none
  | fuel + 1, c, before =>
    if c.atMarker then none
    else
      match c.rest with
      | [] => none
      | x :: s =>
        if x = quote then
          if quote = '\'' ∧ s.head? = some '\'' then
            quotedBody quote fuel (c.advance 2) ('\'' :: before)
          else some (before.reverse, c.advance 1)
        else if isSpace x then
          (readGap 0 (fuel + 1) c {}).bind fun (c, g) =>
            quotedBody quote fuel c (g.text.reverseAux before)
        else if x = '\\' ∧ quote = '"' then
          if (s.head?).any isBreak then
            let start := (c.advance 1).nextLine
            (readGap 0 (fuel + 1) start { broken := true }).bind fun (c, g) =>
              quotedBody quote fuel c (g.text.reverseAux before)
          else
            (escape? s).bind fun (y, length) =>
              quotedBody quote fuel (c.advance (length + 1)) (y :: before)
        else quotedBody quote fuel (c.advance 1) (x :: before)

/-- A quoted scalar. Every step reads a character, so what is left bounds their number. -/
def quoted (quote : Char) (c : Cursor) : Option (String × Cursor) :=
  (quotedBody quote c.rest.length (c.advance 1) []).map fun (text, c) => (String.ofList text, c)

/-! ## Plain scalars -/

/-- An indicator that ends plain scalars inside brackets and braces. -/
def isFlowIndicator (c : Char) : Bool :=
  c = ',' || c = '[' || c = ']' || c = '\x7b' || c = '\x7d'

/-- The characters of a plain scalar up to the next white space or indicator. Inside brackets a
colon before an indicator is refused. -/
def plainRun (flow : Bool) : List Char → Option (List Char)
  | [] => some []
  | x :: s =>
    if isSpace x then some []
    else if flow ∧ x = ':' ∧ (s.head?).any (fun y => isFlowIndicator y || y = '?') then none
    else if (x = ':' ∧ (s.head?).all isSpace) ∨ (flow ∧ isFlowIndicator x) then some []
    else (plainRun flow s).map (x :: ·)

/-- The lines of a plain scalar. The scalar ends before a comment, before a document marker, and
before a line that is not indented enough. -/
def plainBody (flow : Bool) (indent : Nat) :
    Nat → Cursor → Gap → List Char → Option (List Char × Cursor × Bool)
  | 0, _, _, _ => none
  | fuel + 1, c, g, text =>
    if c.atMarker ∨ c.rest.head? = some '#' then some (text, c, g.broken)
    else
      (plainRun flow c.rest).bind fun run =>
        if run = [] then some (text, c, g.broken)
        else
          let c := c.advance run.length
          let text := text ++ g.text ++ run
          if (c.rest.head?).any isSpace then
            (readGap indent (c.rest.length + 1) c {}).bind fun (c, g) =>
              if !flow ∧ c.column < indent then some (text, c, g.broken)
              else plainBody flow indent fuel c g text
          else some (text, c, false)

/-- A plain scalar, and whether line ends were read behind it. Outside of brackets its lines are
indented at least to the given column. -/
def plain (flow : Bool) (indent : Nat) (c : Cursor) : Option (String × Cursor × Bool) :=
  (plainBody flow indent (c.rest.length + 1) c {} []).map fun (text, c, broken) =>
    (String.ofList text, c, broken)

/-! ## Block scalars -/

/-- What happens to the line ends at the end of a block. -/
inductive Chomping where
  | strip
  | clip
  | keep
deriving DecidableEq

/-- The indicators behind the sign of a block: chomping, and the indentation if it is given. -/
def blockHeader (c : Cursor) : Option (Chomping × Option Nat × Cursor) :=
  let chomping? (c : Cursor) : Option (Chomping × Cursor) :=
    match c.rest with
    | '+' :: _ => some (.keep, c.advance 1)
    | '-' :: _ => some (.strip, c.advance 1)
    | _ => none
  let digit? (c : Cursor) : Option (Option Nat × Cursor) :=
    match c.rest with
    | d :: _ =>
      if d = '0' then none
      else if d.isDigit then some (some (d.toNat - '0'.toNat), c.advance 1)
      else some (none, c)
    | [] => some (none, c)
  match chomping? c with
  | some (chomping, c) => (digit? c).map fun (indent, c) => (chomping, indent, c)
  | none =>
    (digit? c).map fun (indent, c) =>
      match indent, chomping? c with
      | some _, some (chomping, c) => (chomping, indent, c)
      | _, _ => (.clip, indent, c)

/-- Reads the indentation of lines and the line ends of empty lines. If the indentation is not
known yet, it is the largest that comes up, but at least the given one. -/
def blockBreaks (least : Nat) (indent : Option Nat) :
    Nat → Cursor → Nat → List Char → Option (Nat × List Char × Cursor)
  | 0, _, _, _ => none
  | fuel + 1, c, largest, breaks =>
    let wanted := match indent with
      | some i => i - c.column
      | none => c.rest.length
    let c := c.advance (min wanted (c.rest.takeWhile (· = ' ')).length)
    let largest := max largest c.column
    if (indent.all (c.column < ·)) ∧ c.rest.head? = some '\t' then none
    else if c.atBreak then blockBreaks least indent fuel c.nextLine largest (breaks ++ c.breakText)
    else some (indent.getD (max largest least), breaks, c)

/-- The lines of a block. -/
def blockLines (literal : Bool) (indent : Nat) :
    Nat → Cursor → List Char → List Char → List Char → Bool →
      Option (List Char × List Char × List Char × Cursor)
  | 0, _, _, _, _, _ => none
  | fuel + 1, c, text, first, more, afterBlank =>
    match c.rest with
    | [] => some (text, first, more, c)
    | x :: _ =>
      if c.column ≠ indent then some (text, first, more, c)
      else
        let startsBlank := isBlank x
        let gap :=
          if !literal ∧ first.head? = some '\n' ∧ !afterBlank ∧ !startsBlank then
            (if more = [] then [' '] else more)
          else first ++ more
        let line := c.rest.takeWhile fun x => !isBreak x
        let c := c.advance line.length
        (blockBreaks 0 (some indent) (c.rest.length + 1) c.nextLine 0 []).bind
          fun (_, more', c') =>
            blockLines literal indent fuel c' (text ++ gap ++ line) c.breakText more' startsBlank

/-- A block scalar behind its sign, inside a collection with the given indentation. -/
def block (literal : Bool) (outer : Option Nat) (c : Cursor) : Option (String × Cursor) := do
  let (chomping, increment, c) ← blockHeader c
  let c := c.skipWhile isBlank
  let c := if c.rest.head? = some '#' then c.skipLine else c
  if c.rest ≠ [] ∧ ¬c.atBreak then none
  let indent := increment.map (outer.getD 0 + ·)
  let least := max 1 (match outer with
    | some i => i + 1
    | none => 0)
  let fuel := c.rest.length + 1
  let (indent, more, c) ← blockBreaks least indent fuel c.nextLine 0 []
  let (text, first, more, c) ← blockLines literal indent fuel c [] [] more false
  let tail := match chomping with
    | .strip => []
    | .clip => first
    | .keep => first ++ more
  some (String.ofList (text ++ tail), c)

end DocAudit.Yaml
