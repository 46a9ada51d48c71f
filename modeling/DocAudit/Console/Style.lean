/-!
# Styled text

A line for the console is a list of pieces of text with their styles. The same line can be written
plainly, and with the control sequences of a terminal around each styled piece.

* `Line.plain`, `Line.styled`: the two ways to write a line.
* `Line.render`: one of them.
-/

namespace DocAudit.Console

/-- A style of text. -/
inductive Style where
  | red
  | green
  | blue
  | grey
  | bold
deriving DecidableEq, Repr

namespace Style

/-- The number that turns a style on. -/
def on : Style → String
  | red => "31"
  | green => "32"
  | blue => "34"
  | grey => "90"
  | bold => "1"

/-- The number that turns a style off. -/
def off : Style → String
  | bold => "0"
  | _ => "39"

/-- The control sequence with a number. -/
def sequence (number : String) : String := "\x1b[" ++ number ++ "m"

/-- A text between the control sequences of a style. -/
def wrap (s : Style) (text : String) : String := sequence s.on ++ text ++ sequence s.off

end Style

/-- A piece of text with its styles, the innermost first. -/
structure Span where
  text : String
  styles : List Style := []

/-- A piece of text with the control sequences around it. -/
def Span.styled (s : Span) : String := s.styles.foldl (fun text style => style.wrap text) s.text

/-- A line for the console. -/
abbrev Line := List Span

/-- A line without styles. -/
def Line.plain (l : Line) : String := String.join (l.map Span.text)

/-- A line with the control sequences of its styles. -/
def Line.styled (l : Line) : String := String.join (l.map Span.styled)

/-- A line, with or without its styles. -/
def Line.render (color : Bool) (l : Line) : String := if color then l.styled else l.plain

end DocAudit.Console
