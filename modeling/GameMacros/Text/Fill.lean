import GameMacros.Text.Blank

/-!
# Filling lines

Running text is broken at its blanks so that each line holds as many words as fit into a width. A
word that is longer than the width has a line of its own.
-/

namespace GameMacros.Text

/-- The lines of a text that goes on with `remaining` after the line `line`. -/
def fillFrom (width : Nat) (line : List Char) : (remaining : List (List Char)) → List (List Char)
  | [] => [line]
  | word :: others =>
    if line.length + 1 + word.length ≤ width then
      fillFrom width (line ++ ' ' :: word) others
    else line :: fillFrom width word others

/-- The words of a text, put into lines of at most `width` characters. -/
def fill (width : Nat) (s : List Char) : List (List Char) :=
  match words s with
  | [] => []
  | first :: others => fillFrom width first others

end GameMacros.Text
