/-!
# Blank characters

What counts as blank is Unicode's property White_Space. Trimming removes blanks from the ends of a
text, and the words of a text are its maximal runs without a blank.
-/

namespace GameMacros.Text

/-- The characters with Unicode's property White_Space. -/
def isBlank (c : Char) : Bool :=
  let n := c.toNat
  (9 ≤ n && n ≤ 13) || n == 0x20 || n == 0x85 || n == 0xA0 || n == 0x1680 ||
    (0x2000 ≤ n && n ≤ 0x200A) || n == 0x2028 || n == 0x2029 || n == 0x202F || n == 0x205F ||
    n == 0x3000

/-- A text without the blanks it starts with. -/
def trimStart (s : List Char) : List Char :=
  s.dropWhile isBlank

/-- A text without the blanks it ends with. -/
def trimEnd (s : List Char) : List Char :=
  (s.reverse.dropWhile isBlank).reverse

/-- A text without the blanks at its two ends. -/
def trim (s : List Char) : List Char :=
  trimEnd (trimStart s)

/-- A string without the blanks at its two ends. -/
def trimmed (s : String) : String :=
  String.ofList (trim s.toList)

/-- The words still to come, given the word being read, which is held backwards. -/
def wordsAfter (current : List Char) : List Char → List (List Char)
  | [] => if current.isEmpty then [] else [current.reverse]
  | c :: rest =>
    if isBlank c then
      if current.isEmpty then wordsAfter [] rest else current.reverse :: wordsAfter [] rest
    else wordsAfter (c :: current) rest

/-- The words of a text, in order. -/
def words (s : List Char) : List (List Char) :=
  wordsAfter [] s

end GameMacros.Text
