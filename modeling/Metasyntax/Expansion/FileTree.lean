/-! Files and directories, and what comes of reading a path. -/
namespace Metasyntax

inductive ReadFault where
  | noSuchFile
  | isDirectory
  | notDirectory
  | nameTooLong
  | nullCharacter
  | notText
  | other (reason : String)
  deriving DecidableEq, Repr

def ReadFault.message : ReadFault → String
  | .noSuchFile => "No such file or directory (os error 2)"
  | .isDirectory => "Is a directory (os error 21)"
  | .notDirectory => "Not a directory (os error 20)"
  | .nameTooLong => "File name too long (os error 36)"
  | .nullCharacter => "file name contained an unexpected NUL byte"
  | .notText => "stream did not contain valid UTF-8"
  | .other reason => reason

/-! ## Paths -/

/-- The parts of a path, between its slashes. -/
def pathParts (path : String) : List String :=
  (path.toList.splitOnP (· == '/')).map String.ofList

def isAbsolute (path : String) : Bool := path.toList.head? == some '/'

/-- A path from a directory on. An absolute path does not depend on it. -/
def joinPath (directory path : String) : String :=
  if isAbsolute path || directory.isEmpty then path
  else if directory.toList.getLast? == some '/' then directory ++ path
  else directory ++ "/" ++ path

/-- A part of a path that stays where it is. -/
def isHere (part : String) : Bool := part = "" || part = "."

/-- The longest path, in bytes. -/
def maxPathLength : Nat := 4095

/-- The longest part of a path, in bytes. -/
def maxNameLength : Nat := 255

/-! ## Trees -/

/-- A file and its place: the names on the way to it from the root directory. -/
structure File where
  place : List String
  contents : ByteArray

/-- Of two files in one place the first counts. Relative paths start at the current
directory. -/
structure FileTree where
  files : List File
  directories : List (List String)
  current : List String

/-- The places on the way that a path takes from a directory. -/
def placesFrom (place : List String) : List String → List (List String)
  | [] => [place]
  | part :: parts =>
    place :: placesFrom
      (if isHere part then place else if part = ".." then place.dropLast else place ++ [part]) parts

/-- No files, and the directories on the way to the current one. -/
def FileTree.bare (current : List String) : FileTree := ⟨[], placesFrom [] current, current⟩

/-- A current directory of which it is not known where it is. Its name is one that no
path follows, so it is left by relative paths but not entered by absolute ones. -/
def FileTree.empty : FileTree := .bare [""]

/-- Where a path starts, if relative ones start at a directory. -/
def startOf (directory : List String) (path : String) : List String :=
  if isAbsolute path then [] else directory

/-- Puts a file in the place of its path, and directories in the places on the way. -/
def FileTree.insert (tree : FileTree) (path : String) (contents : ByteArray) : FileTree :=
  let places := placesFrom (startOf tree.current path) (pathParts path)
  { tree with
    files := ⟨places.getLast?.getD [], contents⟩ :: tree.files
    directories := places.dropLast ++ tree.directories }

def FileTree.insertAll (tree : FileTree) (files : List (String × ByteArray)) : FileTree :=
  files.foldl (fun tree file => tree.insert file.1 file.2) tree

def FileTree.ofList (files : List (String × ByteArray)) : FileTree :=
  FileTree.empty.insertAll files

/-! ## Reading -/

/-- Where the first parts of a path lead. -/
inductive Spot where
  | file (contents : ByteArray)
  | directory (place : List String)

/-- The entry of a directory. -/
def FileTree.enter (tree : FileTree) (place : List String) : Except ReadFault Spot :=
  match tree.files.find? fun file => file.place == place with
  | some file => .ok (.file file.contents)
  | none => if tree.directories.contains place then .ok (.directory place) else .error .noSuchFile

/-- The root directory lies in itself. -/
def FileTree.follow (tree : FileTree) (spot : Spot) (part : String) : Except ReadFault Spot :=
  match spot with
  | .file _ => .error .notDirectory
  | .directory place =>
    if isHere part then .ok spot
    else if part = ".." then .ok (.directory place.dropLast)
    else if maxNameLength < part.utf8ByteSize then .error .nameTooLong
    else tree.enter (place ++ [part])

/-- The text of the file at a path, which must be a file of valid text. Relative paths
start at the directory. -/
def FileTree.readFrom (tree : FileTree) (directory : List String) (path : String) :
    Except ReadFault String :=
  if '\x00' ∈ path.toList then .error .nullCharacter
  else if path.isEmpty then .error .noSuchFile
  else if maxPathLength < path.utf8ByteSize then .error .nameTooLong
  else
    match (pathParts path).foldlM tree.follow (.directory (startOf directory path)) with
    | .error fault => .error fault
    | .ok (.file contents) =>
      match String.fromUTF8? contents with
      | some text => .ok text
      | none => .error .notText
    | .ok (.directory _) => .error .isDirectory

/-- The text of the file at a path of the program. -/
def FileTree.read (tree : FileTree) (path : String) : Except ReadFault String :=
  tree.readFrom tree.current path

end Metasyntax
