/-!
# The library of saved macros

Macros are saved in a tree of folders. They are found by name, and a name has to be unique in the
whole tree to be found.
-/

namespace GameMacros

/-- A macro as it is saved. A craft loop wraps the contents before they are read: a count of zero
leaves them as they are, and a negative count loops forever. -/
structure SavedMacro where
  name : String
  contents : String := ""
  craftLoop : Bool := false
  craftLoopCount : Int := 0
  deriving DecidableEq, Repr, Inhabited

/-- A named folder of macros and further folders. -/
inductive Folder where
  | mk (name : String) (macros : List SavedMacro) (folders : List Folder)
  deriving Repr, Inhabited

/-- All saved macros: those at the root, and those in folders. -/
structure Library where
  macros : List SavedMacro := []
  folders : List Folder := []
  deriving Repr, Inhabited

mutual

/-- The macros in a folder and in the folders below it. -/
def Folder.allMacros : Folder → List SavedMacro
  | .mk _ macros folders => macros ++ Folder.macrosOf folders

/-- The macros in several folders, in order. -/
def Folder.macrosOf : List Folder → List SavedMacro
  | [] => []
  | folder :: others => folder.allMacros ++ Folder.macrosOf others

end

mutual

/-- The names of a folder and of the folders below it. -/
def Folder.allNames : Folder → List String
  | .mk name _ folders => name :: Folder.namesOf folders

/-- The names of several folders and of those below them, in order. -/
def Folder.namesOf : List Folder → List String
  | [] => []
  | folder :: others => folder.allNames ++ Folder.namesOf others

end

/-- Why a name stands for no single macro. -/
inductive LookupError where
  | notFound (name : String)
  | ambiguous (name : String) (count : Nat)
  deriving DecidableEq, Repr

/-- The wording of the error. -/
def LookupError.message : LookupError → String
  | .notFound name => s!"no macro named \"{name}\""
  | .ambiguous name count => s!"{count} macros are named \"{name}\", the name must be unique"

namespace Library

/-- All macros of the tree: those at the root first, then folder by folder. -/
def allMacros (library : Library) : List SavedMacro :=
  library.macros ++ Folder.macrosOf library.folders

/-- The one macro with exactly this name. -/
def find (library : Library) (name : String) : Except LookupError SavedMacro :=
  match library.allMacros.filter (·.name == name) with
  | [] => .error (.notFound name)
  | [single] => .ok single
  | several => .error (.ambiguous name several.length)

end Library

end GameMacros
