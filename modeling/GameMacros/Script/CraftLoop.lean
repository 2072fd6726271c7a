import GameMacros.Library.Settings
import GameMacros.Number.Numeral
import GameMacros.Text.Blank
import GameMacros.Text.Lines
import GameMacros.Text.Lowercase
import GameMacros.Text.Pieces

/-!
# Craft loops

A macro for a craft loop holds the crafting actions only. Before it is read it is wrapped in the
lines that lead from the crafting log to the synthesis window and back, or in a template of the
user's. Another change made before reading sets the count of a macro's last loop.
-/

namespace GameMacros.CraftLoop

/-- What a macro is wrapped in. -/
inductive Template where
  | custom (text : String)
  | standard (echo : Bool) (maxWaitSeconds : Nat)
  deriving DecidableEq, Repr

/-- The template that the settings select. -/
def Template.ofSettings (settings : Settings) : Template :=
  if settings.useCraftLoopTemplate then .custom settings.craftLoopTemplate
  else .standard settings.craftLoopEcho settings.craftLoopMaxWait

/-- What is odd about a template and yet no error. -/
inductive Warning where
  | missingMacroPlaceholder
  deriving DecidableEq, Repr

/-- The wording of the warning. -/
def Warning.message : Warning → String
  | .missingMacroPlaceholder => "craft loop template does not contain " ++ macroPlaceholder

/-- The count that a template shows for a loop without an end. -/
def endlessCount : Int := 999999

/-- The template with its placeholders filled in, first the macro and then the count. -/
def fillIn (template body : List Char) (count : Int) : List Char :=
  let shown := if count < 0 then endlessCount else count
  Text.replaceAll countPlaceholder.toList (toString shown).toList
    (Text.replaceAll macroPlaceholder.toList body template)

/-- The lines that lead from the crafting log to the synthesis window. -/
def openSynthesis (maxWaitSeconds : Nat) : List Char :=
  (s!"/waitaddon \"RecipeNote\" <maxwait.{maxWaitSeconds}>\n/click \"synthesize\"\n" ++
    s!"/waitaddon \"Synthesis\" <maxwait.{maxWaitSeconds}>").toList

/-- The gate that lets the given number of crafts pass. -/
def gate (echo : Bool) (count : Int) : List Char :=
  (if echo then s!"/craft {count} <echo>" else s!"/craft {count}").toList

/-- The parts of the standard wrap around a trimmed body, for a count other than zero. -/
def standardParts (body : List Char) (fromCraftingLog : Bool) (count : Int) (echo : Bool)
    (maxWaitSeconds : Nat) : List (List Char) :=
  let steps := openSynthesis maxWaitSeconds
  let loop := "/loop".toList
  if fromCraftingLog then
    if count < 0 then [steps, body, loop]
    else if count = 1 then [steps, body]
    else [gate echo count, steps, body, loop]
  else
    if count < 0 then [body, steps, loop]
    else if count = 1 then [body]
    else [body, gate echo (count - 1), steps, loop]

/-- The body wrapped for a number of crafts. Zero leaves it as it is. -/
def wrap (template : Template) (fromCraftingLog : Bool) (count : Int) (body : List Char) :
    List Char :=
  if count = 0 then body
  else
    match template with
    | .custom text => fillIn text.toList body count
    | .standard echo maxWaitSeconds =>
      Text.trim (Text.joinLines
        (standardParts (Text.trim body) fromCraftingLog count echo maxWaitSeconds))

/-- What is odd about the template that a body is wrapped in. -/
def warnings (template : Template) (count : Int) : List Warning :=
  match template with
  | .custom text =>
    if count ≠ 0 ∧ ¬Text.occurs macroPlaceholder.toList text.toList then
      [.missingMacroPlaceholder]
    else []
  | .standard .. => []

/-- The line is a loop command: `/loop` in either case, then a blank, a modifier or nothing. -/
def isLoopLine (line : List Char) : Bool :=
  match Text.dropHeadBy Text.sameLetter "/loop".toList (Text.trimStart line) with
  | some [] => true
  | some (c :: _) => Text.isBlank c || c == '<'
  | none => false

/-- The tokens between angle brackets, brackets included, given the token being read, if any, which
is held backwards. -/
def tokensAfter (current : Option (List Char)) : List Char → List (List Char)
  | [] => []
  | c :: rest =>
    match current with
    | none => tokensAfter (if c = '<' then some ['<'] else none) rest
    | some token =>
      if c = '>' then ('>' :: token).reverse :: tokensAfter none rest
      else tokensAfter (some (c :: token)) rest

/-- A loop line with the given count and the tokens of another line. -/
def loopLine (count : Nat) (line : List Char) : List Char :=
  s!"/loop {count}".toList ++ (tokensAfter none line).flatMap fun token => ' ' :: token

/-- Replaces the first loop line of lines that are given backwards, or puts one in front. -/
def setFirstLoop (count : Nat) (reversed : List (List Char)) : List (List Char) :=
  match reversed.span (!isLoopLine ·) with
  | (before, line :: after) => before ++ loopLine count line :: after
  | (_, []) => loopLine count [] :: reversed

/-- Gives the last loop line of a body the count, keeping its modifiers. A body without one gets a
loop line at its end. -/
def setLastLoop (count : Nat) (body : List Char) : List Char :=
  Text.joinLines (setFirstLoop count (Text.lines body).reverse).reverse

end GameMacros.CraftLoop
