/-!
# Quoted text in TOML

Text stands between double quotes, with escapes, or between single quotes, as it is. Three quotes
instead of one let it extend over several lines: a line break right after the opening quotes does
not count, every line break is read as a line feed, and up to two quotes may stand before the
closing ones.
-/

namespace GameMacros.Toml

/-- A reader takes a value off the front of a text, and leaves the rest. -/
abbrev Reader (α : Type) := List Char → Option (α × List Char)

/-- Blanks within a line. -/
def isBlank (c : Char) : Bool :=
  c == ' ' || c == '\t'

/-- The characters that may stand anywhere in a line: all but control characters, and the tab. -/
def isPlain (c : Char) : Bool :=
  c == '\t' || (0x20 ≤ c.toNat && c.toNat != 0x7F)

/-- What follows a line break. -/
def afterBreak? : List Char → Option (List Char)
  | '\n' :: rest => some rest
  | '\r' :: '\n' :: rest => some rest
  | _ => none

namespace Quoted

/-- The value of a digit in base sixteen. -/
def hexValue? (c : Char) : Option Nat :=
  if '0' ≤ c ∧ c ≤ '9' then some (c.toNat - '0'.toNat)
  else if 'a' ≤ c ∧ c ≤ 'f' then some (c.toNat - 'a'.toNat + 10)
  else if 'A' ≤ c ∧ c ≤ 'F' then some (c.toNat - 'A'.toNat + 10)
  else none

/-- The character with a number given in base sixteen. Not every number has one. -/
def numbered? (digits : List Char) : Option Char := do
  let values ← digits.mapM hexValue?
  let number := values.foldl (fun number digit => number * 16 + digit) 0
  if number.isValidChar then some (Char.ofNat number) else none

/-- The character that a backslash and a letter stand for. -/
def escaped? : Char → Option Char
  | 'b' => some '\x08'
  | 't' => some '\t'
  | 'n' => some '\n'
  | 'f' => some '\x0c'
  | 'r' => some '\r'
  | '"' => some '"'
  | '\\' => some '\\'
  | _ => none

/-- Puts a character that may be missing in front of text that is read after it. -/
def prepend (c : Option Char) (read : Option (List Char × List Char)) :
    Option (List Char × List Char) := do
  let first ← c
  let (text, rest) ← read
  return (first :: text, rest)

/-- The rest of a text between double quotes. -/
def basic : Reader (List Char)
  | '"' :: rest => some ([], rest)
  | '\\' :: 'u' :: a :: b :: c :: d :: rest => prepend (numbered? [a, b, c, d]) (basic rest)
  | '\\' :: 'U' :: a :: b :: c :: d :: e :: f :: g :: h :: rest =>
    prepend (numbered? [a, b, c, d, e, f, g, h]) (basic rest)
  | '\\' :: c :: rest => prepend (escaped? c) (basic rest)
  | c :: rest => if isPlain c then prepend (some c) (basic rest) else none
  | [] => none

/-- The rest of a text between single quotes. -/
def literal : Reader (List Char)
  | '\'' :: rest => some ([], rest)
  | c :: rest => if isPlain c then prepend (some c) (literal rest) else none
  | [] => none

/-- At most `count` quotes that a text starts with. -/
def quotesUpTo (quote : Char) : (count : Nat) → List Char → List Char × List Char
  | 0, s => ([], s)
  | _ + 1, [] => ([], [])
  | count + 1, c :: rest =>
    if c = quote then
      let (quotes, left) := quotesUpTo quote count rest
      (c :: quotes, left)
    else ([], c :: rest)

/-- The quotes that belong to the text although they stand after three closing ones. -/
def extraQuotes (quote : Char) : Reader (List Char) := fun s =>
  some (quotesUpTo quote 2 s)

/-- The line ends after the blanks. -/
def endsLine (s : List Char) : Bool :=
  (afterBreak? (s.dropWhile isBlank)).isSome

/-- The rest of a text between three double quotes. After a backslash at the end of a line, blanks
and line breaks are skipped. -/
def basicLines (skipping : Bool) : Reader (List Char)
  | '"' :: '"' :: '"' :: rest => extraQuotes '"' rest
  | '\r' :: '\n' :: rest =>
    if skipping then basicLines true rest else prepend (some '\n') (basicLines false rest)
  | '\\' :: 'u' :: a :: b :: c :: d :: rest =>
    prepend (numbered? [a, b, c, d]) (basicLines false rest)
  | '\\' :: 'U' :: a :: b :: c :: d :: e :: f :: g :: h :: rest =>
    prepend (numbered? [a, b, c, d, e, f, g, h]) (basicLines false rest)
  | '\\' :: c :: rest =>
    if endsLine (c :: rest) then basicLines true (c :: rest)
    else prepend (escaped? c) (basicLines false rest)
  | c :: rest =>
    if skipping && (c == '\n' || isBlank c) then basicLines true rest
    else if c = '\n' || isPlain c then prepend (some c) (basicLines false rest)
    else none
  | [] => none

/-- The rest of a text between three single quotes. -/
def literalLines : Reader (List Char)
  | '\'' :: '\'' :: '\'' :: rest => extraQuotes '\'' rest
  | '\r' :: '\n' :: rest => prepend (some '\n') (literalLines rest)
  | c :: rest => if c = '\n' || isPlain c then prepend (some c) (literalLines rest) else none
  | [] => none

/-- A text without the line break that it starts with, if it starts with one. -/
def skipBreak (s : List Char) : List Char :=
  (afterBreak? s).getD s

/-- A text in quotes of either kind, on one line or several. -/
def text? : Reader String
  | '"' :: '"' :: '"' :: rest => (basicLines false (skipBreak rest)).map (·.map .ofList id)
  | '"' :: rest => (basic rest).map (·.map .ofList id)
  | '\'' :: '\'' :: '\'' :: rest => (literalLines (skipBreak rest)).map (·.map .ofList id)
  | '\'' :: rest => (literal rest).map (·.map .ofList id)
  | _ => none

/-- A text in quotes of either kind, on one line. -/
def lineText? : Reader String
  | '"' :: rest => (basic rest).map (·.map .ofList id)
  | '\'' :: rest => (literal rest).map (·.map .ofList id)
  | _ => none

end Quoted

end GameMacros.Toml
