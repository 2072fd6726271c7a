import GameMacros.Library.SavedMacro
import GameMacros.Library.Settings
import GameMacros.Toml.Document

/-!
# Saved files

Settings and libraries are saved as TOML. Fields that are not known are passed over, and most fields
may be missing. A record may also be written as an array of its fields in their order, of which the
last ones may be missing.
-/

namespace GameMacros

open Toml (Value)

namespace Saved

/-- The number has 32 bits. -/
def count? : Value → Option Nat
  | .integer number => if 0 ≤ number ∧ number ≤ 0xFFFFFFFF then some number.toNat else none
  | _ => none

/-- The number has 32 bits with a sign. -/
def signed? : Value → Option Int
  | .integer number => if -0x80000000 ≤ number ∧ number ≤ 0x7FFFFFFF then some number else none
  | _ => none

/-- A truth value. -/
def truth? : Value → Option Bool
  | .boolean truth => some truth
  | _ => none

/-- A text. -/
def text? : Value → Option String
  | .string text => some text
  | _ => none

/-- The items of an array. -/
def items? {α : Type} (item? : Value → Option α) : Value → Option (List α)
  | .array items => items.mapM item?
  | _ => none

/-- What is saved in a field: nothing, or a value that has to be readable. -/
def orDefault {α : Type} (read? : Value → Option α) (default : α) (field : Option Value) :
    Option α :=
  match field with
  | none => some default
  | some value => read? value

/-- A field of a record, if it is there. -/
def field (record : Value) (position : Nat) (name : String) : Option Value :=
  match record with
  | .table entries => entries.lookup name
  | .array items => items[position]?
  | _ => none

/-- A macro. Only its name is required. -/
def savedMacro? (record : Value) : Option SavedMacro := do
  return {
    name := ← text? (← field record 0 "name")
    contents := ← orDefault text? "" (field record 1 "contents")
    craftLoop := ← orDefault truth? false (field record 2 "craft_loop")
    craftLoopCount := ← orDefault signed? 0 (field record 3 "craft_loop_count") }

mutual

/-- A folder. Only its name is required. -/
def folder? : Value → Option Folder
  | .table entries => do
    let name ← text? (← entries.lookup "name")
    let macros ← orDefault (items? savedMacro?) [] (entries.lookup "macros")
    return .mk name macros (← entryOf? entries)
  | .array (name :: rest) => do
    let name ← text? name
    let macros ← orDefault (items? savedMacro?) [] rest.head?
    match rest with
    | _ :: folders :: _ => return .mk name macros (← folders? folders)
    | _ => return .mk name macros []
  | _ => none

/-- Several folders. -/
def folders? : Value → Option (List Folder)
  | .array items => foldersOf? items
  | _ => none

/-- Several folders, one by one. -/
def foldersOf? : List Value → Option (List Folder)
  | [] => some []
  | item :: rest => do
    let first ← folder? item
    return first :: (← foldersOf? rest)

/-- The folders under their key, if it is there. -/
def entryOf? : List (String × Value) → Option (List Folder)
  | [] => some []
  | (key, value) :: rest => if key = "folders" then folders? value else entryOf? rest

end

end Saved

open Saved

/-- The library of a document. -/
def Library.ofDocument? (document : List (String × Value)) : Option Library := do
  return {
    macros := ← orDefault (items? savedMacro?) [] (document.lookup "macros")
    folders := ← orDefault folders? [] (document.lookup "folders") }

/-- The settings of a document. -/
def Settings.ofDocument? (document : List (String × Value)) : Option Settings := do
  let preset : Settings := {}
  let truthOr (default : Bool) (name : String) := orDefault truth? default (document.lookup name)
  let countOr (default : Nat) (name : String) := orDefault count? default (document.lookup name)
  return {
    craftSkip := ← truthOr preset.craftSkip "craft_skip"
    smartWait := ← truthOr preset.smartWait "smart_wait"
    qualitySkip := ← truthOr preset.qualitySkip "quality_skip"
    loopTotal := ← truthOr preset.loopTotal "loop_total"
    loopEcho := ← truthOr preset.loopEcho "loop_echo"
    maxTimeoutRetries := ← countOr preset.maxTimeoutRetries "max_timeout_retries"
    useCraftLoopTemplate := ← truthOr preset.useCraftLoopTemplate "use_craft_loop_template"
    craftLoopTemplate :=
      ← orDefault text? preset.craftLoopTemplate (document.lookup "craft_loop_template")
    craftLoopFromRecipeNote :=
      ← truthOr preset.craftLoopFromRecipeNote "craft_loop_from_recipe_note"
    craftLoopEcho := ← truthOr preset.craftLoopEcho "craft_loop_echo"
    craftLoopMaxWait := ← countOr preset.craftLoopMaxWait "craft_loop_max_wait"
    noisyErrors := ← truthOr preset.noisyErrors "noisy_errors"
    beepFrequency := ← countOr preset.beepFrequency "beep_frequency"
    beepDuration := ← countOr preset.beepDuration "beep_duration"
    beepCount := ← countOr preset.beepCount "beep_count"
    useEngineTargeting := ← truthOr preset.useEngineTargeting "use_engine_targeting"
    stopMacroIfTargetNotFound :=
      ← truthOr preset.stopMacroIfTargetNotFound "stop_macro_if_target_not_found"
    nativeCommands :=
      ← orDefault (items? text?) preset.nativeCommands (document.lookup "native_commands") }

/-- The library that a text describes. -/
def Library.ofToml? (text : String) : Option Library :=
  (Toml.document? text.toList).bind ofDocument?

/-- The settings that a text describes. -/
def Settings.ofToml? (text : String) : Option Settings :=
  (Toml.document? text.toList).bind ofDocument?

end GameMacros
