import DocAudit.Json.Basic
/-!
# Writing JSON

* `Json.compact`: the value on one line, without spaces.
* `Json.pretty`: two spaces for each level, one item or field a line, empty containers on one line.
-/

namespace DocAudit

/-- The digits of a number. -/
def JsonNumber.text : JsonNumber → String
  | natural n => n.repr
  | negative n => "-" ++ n.repr
  | decimal isNegative digits exponent =>
    (if isNegative then "-" else "") ++ digits.repr ++ "e" ++
      (if exponent < 0 then "-" else "") ++ exponent.natAbs.repr

namespace Json

/-- A hexadecimal digit, in lower case. -/
def hexDigit (n : Nat) : Char := Nat.digitChar (n % 16)

/-- How a character is written inside a string. Only the quote, the backslash and the characters
below U+0020 are escaped. -/
def escaped (c : Char) : List Char :=
  if c = '"' then ['\\', '"']
  else if c = '\\' then ['\\', '\\']
  else if c = '\n' then ['\\', 'n']
  else if c = '\r' then ['\\', 'r']
  else if c = '\t' then ['\\', 't']
  else if c = '\x08' then ['\\', 'b']
  else if c = '\x0c' then ['\\', 'f']
  else if c < ' ' then ['\\', 'u', '0', '0', hexDigit (c.toNat / 16), hexDigit c.toNat]
  else [c]

/-- A string with its quotes. -/
def quoted (s : String) : String := String.ofList ('"' :: s.toList.flatMap escaped ++ ['"'])

/-- A value that holds no other value, or an empty container. -/
def atom : Json → String
  | null => "null"
  | bool true => "true"
  | bool false => "false"
  | number n => n.text
  | string s => quoted s
  | array _ => "[]"
  | object _ => "\x7b\x7d"

mutual

/-- The value on one line, without spaces. -/
def compact : Json → String
  | array (v :: vs) => "[" ++ ",".intercalate (compactItems (v :: vs)) ++ "]"
  | object (f :: fs) => "\x7b" ++ ",".intercalate (compactFields (f :: fs)) ++ "\x7d"
  | v => v.atom

def compactItems : List Json → List String
  | [] => []
  | v :: vs => compact v :: compactItems vs

def compactFields : List (String × Json) → List String
  | [] => []
  | (name, v) :: fs => (quoted name ++ ":" ++ compact v) :: compactFields fs

end

/-- Lines of items, each but the last with a comma, between brackets. -/
def block (opening closing indent : String) (items : List String) : String :=
  opening ++ "\n" ++ ",\n".intercalate (items.map fun i => indent ++ "  " ++ i) ++ "\n" ++ indent ++
    closing

mutual

/-- The value over several lines, of which all but the first start with `indent`. -/
def prettyFrom (indent : String) : Json → String
  | array (v :: vs) => block "[" "]" indent (prettyItems (indent ++ "  ") (v :: vs))
  | object (f :: fs) => block "\x7b" "\x7d" indent (prettyFields (indent ++ "  ") (f :: fs))
  | v => v.atom

def prettyItems (indent : String) : List Json → List String
  | [] => []
  | v :: vs => prettyFrom indent v :: prettyItems indent vs

def prettyFields (indent : String) : List (String × Json) → List String
  | [] => []
  | (name, v) :: fs => (quoted name ++ ": " ++ prettyFrom indent v) :: prettyFields indent fs

end

/-- The value over several lines. -/
def pretty (v : Json) : String := prettyFrom "" v

end Json

end DocAudit
