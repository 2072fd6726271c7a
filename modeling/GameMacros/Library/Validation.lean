import GameMacros.Library.SavedMacro
import GameMacros.Library.Settings
import GameMacros.Text.Blank
import GameMacros.Text.Pieces

/-!
# Checking what was saved

A library or a set of choices may be readable and still make no sense. Each problem is reported
once: a name at its second use, a blank name wherever it occurs, a value where it stands.
-/

namespace GameMacros

/-- What has no name. -/
inductive Unnamed where
  | folder
  | savedMacro
  deriving DecidableEq, Repr

/-- Something saved that makes no sense. -/
inductive Problem where
  | duplicateName (name : String)
  | emptyName (what : Unnamed)
  | craftLoopCount (name : String) (count : Int)
  | tooManyRetries (count : Nat)
  | missingPlaceholder
  deriving DecidableEq, Repr

namespace Problem

/-- The wording of the problem. -/
def message : Problem → String
  | .duplicateName name =>
    "duplicate macro name '" ++ name ++ "' (/runmacro and \x60run\x60 need unique names)"
  | .emptyName .folder => "empty name (folder)"
  | .emptyName .savedMacro => "empty name (macro)"
  | .craftLoopCount name count =>
    "invalid value (macro '" ++ name ++ "' craft loop count " ++ toString count ++
      " outside -1..=999)"
  | .tooManyRetries count => s!"invalid value (max_timeout_retries {count} exceeds 10)"
  | .missingPlaceholder =>
    CraftLoop.macroPlaceholder ++ " must be present in the craft loop template"

end Problem

/-- The name holds nothing but blanks. -/
def isBlankName (name : String) : Bool :=
  (Text.trim name.toList).isEmpty

/-- The craft loop of a macro has a count outside its range. -/
def SavedMacro.hasBadCount (saved : SavedMacro) : Bool :=
  saved.craftLoop && !(-1 ≤ saved.craftLoopCount && saved.craftLoopCount ≤ 999)

namespace Library

/-- The problems of macros in order, given the names that earlier ones carry. -/
def macroProblems (earlier : List String) : List SavedMacro → List Problem
  | [] => []
  | saved :: others =>
    if isBlankName saved.name then .emptyName .savedMacro :: macroProblems earlier others
    else
      (if earlier.count saved.name = 1 then [.duplicateName saved.name] else []) ++
        (if saved.hasBadCount then [.craftLoopCount saved.name saved.craftLoopCount] else []) ++
        macroProblems (saved.name :: earlier) others

/-- The problems of a library: blank folder names first, then those of the macros in order. -/
def problems (library : Library) : List Problem :=
  ((Folder.namesOf library.folders).filter isBlankName).map (fun _ => .emptyName .folder) ++
    macroProblems [] library.allMacros

end Library

namespace Settings

/-- The template has no place for the macro. -/
def templateLacksMacro (template : String) : Bool :=
  !Text.occurs CraftLoop.macroPlaceholder.toList template.toList

/-- The problems of a set of choices. -/
def problems (settings : Settings) : List Problem :=
  (if retryLimit < settings.maxTimeoutRetries then [.tooManyRetries settings.maxTimeoutRetries]
    else []) ++
  (if settings.useCraftLoopTemplate && templateLacksMacro settings.craftLoopTemplate then
    [.missingPlaceholder] else [])

end Settings

end GameMacros
