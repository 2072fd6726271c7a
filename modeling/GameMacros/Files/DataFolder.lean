/-!
# The data folder

Settings and macros are saved in a folder. A variable of the environment may name it; otherwise it
is looked for where it usually is.
-/

namespace GameMacros.DataFolder

/-- The variable that names the folder. -/
def environmentName : String := "NEEDFUL_DATA_DIR"

/-- Where the folder is if it is nowhere to be found. -/
def standard : String := "needful_engine/data"

/-- Where the folder may be, in the order of preference. -/
def candidates (named : Option String) : List String :=
  named.toList ++ [standard, "data"]

/-- The first of several places that is a directory. -/
def firstDirectory {m : Type → Type} [Monad m] (isDirectory : String → m Bool) :
    List String → m String
  | [] => return standard
  | place :: others => do
    if ← isDirectory place then return place else firstDirectory isDirectory others

/-- The folder to use. -/
def find {m : Type → Type} [Monad m] (isDirectory : String → m Bool) (named : Option String) :
    m String :=
  firstDirectory isDirectory (candidates named)

/-- The path of a file in a folder. -/
def path (folder file : String) : String :=
  if folder.endsWith "/" then folder ++ file else folder ++ "/" ++ file

/-- The file with the settings. -/
def settingsFile : String := "settings.toml"

/-- The file with the macros. -/
def libraryFile : String := "macros.toml"

end GameMacros.DataFolder
