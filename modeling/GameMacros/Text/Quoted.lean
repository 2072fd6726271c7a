/-!
# Quoted names

A name with blanks may be put between double quotes. One pair of quotes is taken off, and only when
the text has both: a lone quote is an ordinary character.
-/

namespace GameMacros.Text

/-- A text without the pair of double quotes around it. -/
def unquote : List Char → List Char
  | '"' :: rest =>
    match rest.getLast? with
    | some '"' => rest.dropLast
    | _ => '"' :: rest
  | s => s

/-- A text between double quotes. -/
def quote (s : List Char) : List Char :=
  '"' :: s ++ ['"']

/-- Quoting a text and taking the quotes off gives it back, whatever it holds. -/
theorem unquote_quote (s : List Char) : unquote (quote s) = s := by
  simp [unquote, quote]

end GameMacros.Text
