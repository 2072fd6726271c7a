import GameMacros.Files.Content
import GameMacros.Text.Pieces

/-!
# File trees

A file tree is a set of files with their paths from the root, and the directory in which work is
done. The other directories are those that these paths go through. Written paths are read as usual:
`.` stays, `..` goes up, and only a directory leads on. Names and written paths have a greatest
length, counted in bytes.
-/

namespace GameMacros

/-- Files by their paths from the root, and the path of the working directory. A path is a list of
names. -/
structure FileTree where
  files : List (List String × List UInt8)
  workingDirectory : List String

namespace FileTree

/-- The length of the longest name, in bytes. -/
def longestName : Nat := 255

/-- The length of the longest written path, in bytes. -/
def longestPath : Nat := 4095

/-- The names that a path is written with. -/
def names (path : String) : List String :=
  (Text.pieces '/' path.toList).map String.ofList

/-- A temporary directory that holds files with written paths. Outside it there is only the file that
is always empty. -/
def ofFiles (files : List (String × List UInt8)) : FileTree :=
  let workingDirectory := ["tmp", "files"]
  let placed := files.map fun (path, bytes) =>
    (workingDirectory ++ (names path).filter (fun name => name ≠ "" ∧ name ≠ "."), bytes)
  { files := (["dev", "null"], []) :: placed, workingDirectory }

/-- There is a directory with this path. -/
def hasDirectory (tree : FileTree) (path : List String) : Bool :=
  path.isPrefixOf tree.workingDirectory ||
    tree.files.any fun (file, _) => path.isPrefixOf file && path.length < file.length

/-- What stands at a path: the bytes of a file, or a fault if it is a directory or nothing. -/
def look (tree : FileTree) (path : List String) : FileContent :=
  if tree.hasDirectory path then .error .isDirectory
  else
    match tree.files.lookup path with
    | some bytes => .ok bytes
    | none => .error .missing

/-- The path that a name leads to from a directory. The root is above itself. -/
def enter (here : List String) (name : String) : Except FileFault (List String) :=
  if longestName < name.utf8ByteSize then .error .nameTooLong
  else if name = "" ∨ name = "." then .ok here
  else if name = ".." then .ok here.dropLast
  else .ok (here ++ [name])

/-- Where names lead from a path. -/
def walk (tree : FileTree) (here : List String) : List String → Except FileFault (List String)
  | [] => .ok here
  | name :: rest =>
    match tree.look here with
    | .error .isDirectory =>
      match enter here name with
      | .ok next => tree.walk next rest
      | .error fault => .error fault
    | .error fault => .error fault
    | .ok _ => .error .notDirectory

/-- The path that a written path stands for. -/
def find (tree : FileTree) (path : String) : Except FileFault (List String) :=
  if path.isEmpty then .error .missing
  else if longestPath < path.utf8ByteSize then .error .nameTooLong
  else tree.walk (if path.startsWith "/" then [] else tree.workingDirectory) (names path)

/-- The content of the file that a written path leads to. -/
def content (tree : FileTree) (path : String) : FileContent :=
  match tree.find path with
  | .error fault => .error fault
  | .ok place => tree.look place

/-- A written path leads to a directory. -/
def isDirectory (tree : FileTree) (path : String) : Bool :=
  match tree.content path with
  | .error .isDirectory => true
  | _ => false

end FileTree

end GameMacros
