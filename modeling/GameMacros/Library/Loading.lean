import GameMacros.Files.Content
import GameMacros.Library.SavedFiles

/-!
# Loading saved files

A file is loaded strictly, or in such a way that the default takes the place of a file that cannot
be loaded.
-/

namespace GameMacros

/-- Why a saved file cannot be loaded. -/
inductive LoadFault where
  | reading (fault : FileFault)
  | parsing
  deriving DecidableEq, Repr

namespace FileContent

/-- Loads what a file describes. -/
def load {α : Type} (content : FileContent) (ofToml? : String → Option α) : Except LoadFault α :=
  match content.text with
  | .error fault => .error (.reading fault)
  | .ok text =>
    match ofToml? text with
    | some value => .ok value
    | none => .error .parsing

/-- Loads settings. -/
def loadSettings (content : FileContent) : Except LoadFault Settings :=
  content.load Settings.ofToml?

/-- Loads a library. -/
def loadLibrary (content : FileContent) : Except LoadFault Library :=
  content.load Library.ofToml?

/-- The settings of a file, or the default settings. -/
def settingsOrDefault (content : FileContent) : Settings :=
  content.loadSettings.toOption.getD {}

/-- The library of a file, or an empty one. -/
def libraryOrEmpty (content : FileContent) : Library :=
  content.loadLibrary.toOption.getD {}

end FileContent

end GameMacros
