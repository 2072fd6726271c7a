/-!
# The content of files

Files hold bytes, and are read as UTF-8. Reading may fail because of where the file should be, or
because of what it holds.
-/

namespace GameMacros

/-- Why a file cannot be read as text. -/
inductive FileFault where
  | missing
  | notDirectory
  | isDirectory
  | denied
  | nameTooLong
  | notText
  deriving DecidableEq, Repr

/-- The wording of the fault. -/
def FileFault.message : FileFault → String
  | .missing => "No such file or directory (os error 2)"
  | .notDirectory => "Not a directory (os error 20)"
  | .isDirectory => "Is a directory (os error 21)"
  | .denied => "Permission denied (os error 13)"
  | .nameTooLong => "File name too long (os error 36)"
  | .notText => "stream did not contain valid UTF-8"

/-- The bytes of a file, or why there are none. -/
abbrev FileContent := Except FileFault (List UInt8)

namespace FileContent

/-- The text that bytes stand for in UTF-8, if they stand for one. -/
def decode? (bytes : List UInt8) : Option String :=
  String.fromUTF8? ⟨bytes.toArray⟩

/-- The content as text. -/
def text (content : FileContent) : Except FileFault String :=
  match content with
  | .error fault => .error fault
  | .ok bytes =>
    match decode? bytes with
    | some text => .ok text
    | none => .error .notText

end FileContent

end GameMacros
