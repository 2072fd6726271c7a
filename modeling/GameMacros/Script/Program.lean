import GameMacros.Library.SavedMacro
import GameMacros.Script.CraftLoop
import GameMacros.Script.Line

/-!
# Programs

A program is a saved macro made ready to run: wrapped if it is a craft loop, with the count of its
last loop changed if the caller asks for it, and read.
-/

namespace GameMacros

/-- The commands of a macro, under its name. -/
structure Program where
  name : String
  commands : List Command
  deriving DecidableEq, Repr

/-- The reader that knows the verbs which the settings leave to the game. -/
def LineReader.ofSettings (settings : Settings) : LineReader where
  nativeVerbs :=
    (settings.nativeCommands.map fun verb =>
      String.ofList (Text.lower ((Text.trim verb.toList).dropWhile (· == '/')))).filter (· ≠ "")

namespace SavedMacro

/-- The source of a macro: its contents, wrapped and with the loop count asked for. -/
def source (saved : SavedMacro) (settings : Settings) (loops : Option Nat) : List Char :=
  let body := saved.contents.toList
  let wrapped :=
    if saved.craftLoop then
      CraftLoop.wrap (.ofSettings settings) settings.craftLoopFromRecipeNote saved.craftLoopCount
        body
    else body
  match loops with
  | some count => CraftLoop.setLastLoop count wrapped
  | none => wrapped

/-- The program of a macro, or the first error of its source. -/
def program (saved : SavedMacro) (settings : Settings) (reader : LineReader)
    (loops : Option Nat) : Except ScriptError Program :=
  (reader.commands (saved.source settings loops)).map (Program.mk saved.name)

end SavedMacro

end GameMacros
