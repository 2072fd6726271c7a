import GameMacros.Number.Numeral
import GameMacros.Script.Reference
import GameMacros.Text.Blank
import GameMacros.Text.Lowercase
import GameMacros.Text.Names
import GameMacros.Text.Pieces

/-!
# Completion

What the line typed so far may go on with: the name of a saved macro where one is to be run, and
otherwise one of the terms of the prompt. Places in a line are counted in bytes of UTF-8.
-/

namespace GameMacros

/-- What the text from a place on may be replaced with. -/
structure Completion where
  start : Nat
  candidates : List String
  deriving DecidableEq, Repr

namespace Completion

/-- How many bytes a text takes. -/
def byteSize : List Char → Nat
  | [] => 0
  | c :: rest => c.utf8Size + byteSize rest

/-- The characters that lie in the first bytes of a text. -/
def upTo (bytes : Nat) : List Char → List Char
  | [] => []
  | c :: rest => if c.utf8Size ≤ bytes then c :: upTo (bytes - c.utf8Size) rest else []

/-- What the prompt itself understands. -/
def keywords : List String := [
  "run", "run loop", "pause", "pause loop", "resume", "step", "stop", "stop loop", "status", "list",
  "help", "login", "logout", "exec", "quit"]

/-- What can be asked for at the prompt, apart from names. -/
def terms : List String :=
  Text.sortedSet (keywords ++ Reference.verbs.map fun entry => "help " ++ entry.verb.name)

/-- The text after a keyword and a blank, without the blanks it starts with. The keyword is read in
either case of its letters. -/
def after? (keyword : String) (s : List Char) : Option (List Char) :=
  (Text.dropHeadBy Text.sameLetter (keyword.toList ++ [' ']) s).map Text.trimStart

/-- The text after a count and a blank, without the blanks it starts with. -/
def afterCount? (s : List Char) : Option (List Char) :=
  let isDigit (c : Char) := (Numeral.digit? c).isSome
  match s.takeWhile isDigit, s.dropWhile isDigit with
  | _ :: _, ' ' :: rest => some (Text.trimStart rest)
  | _, _ => none

/-- The part of a name that was typed after `run`, or after `run loop` and a count. -/
def typedName? (s : List Char) : Option (List Char) :=
  (after? "run" s).map fun rest => ((after? "loop" rest).bind afterCount?).getD rest

/-- The names that start with what was typed, in either case of the ASCII letters. -/
def matching (names : List String) (typed : List Char) : List String :=
  names.filter fun name =>
    (typed.map Text.asciiLower).isPrefixOf (name.toList.map Text.asciiLower)

/-- Completes what was typed before a place in a line, given the names of the saved macros. -/
def ofLine (names : List String) (line : List Char) (position : Nat) : Completion :=
  let typed := Text.trimStart (upTo position line)
  if typed.isEmpty then ⟨position, []⟩
  else
    match typedName? typed with
    | some name => ⟨position - byteSize name, matching names name⟩
    | none =>
      ⟨position - byteSize typed,
        terms.filter fun term => (Text.lower typed).isPrefixOf term.toList⟩

end Completion

end GameMacros
