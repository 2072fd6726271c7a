/-!
# Lines

A line ends at a line feed, and a carriage return right before the line feed belongs to the ending.
A text that ends with a line feed has no further, empty line after it. Macro sources may also end
their lines with a lone carriage return; `unifyBreaks` turns every ending into a line feed.
-/

namespace GameMacros.Text

/-- A line without the carriage return that belongs to its line feed. The line is held backwards. -/
def closeLine : List Char → List Char
  | '\r' :: rest => rest.reverse
  | line => line.reverse

/-- The lines still to come, given the line being read, which is held backwards. -/
def linesAfter (current : List Char) : List Char → List (List Char)
  | [] => if current.isEmpty then [] else [current.reverse]
  | c :: rest =>
    if c = '\n' then closeLine current :: linesAfter [] rest
    else linesAfter (c :: current) rest

/-- The lines of a text, without their endings. -/
def lines (s : List Char) : List (List Char) :=
  linesAfter [] s

/-- Every line ending, be it `\r\n`, `\r` or `\n`, becomes a line feed. -/
def unifyBreaks : List Char → List Char
  | '\r' :: '\n' :: rest => '\n' :: unifyBreaks rest
  | '\r' :: rest => '\n' :: unifyBreaks rest
  | c :: rest => c :: unifyBreaks rest
  | [] => []

/-- The lines put together with a line feed between each two. -/
def joinLines (parts : List (List Char)) : List Char :=
  List.intercalate ['\n'] parts

end GameMacros.Text
