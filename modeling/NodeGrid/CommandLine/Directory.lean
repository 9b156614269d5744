/-!
# Directories

The files below a working directory, and where a path leads among them.

A path is a row of names between slashes.  It starts at the working directory,
or outside of it if it begins with a slash, and is followed name by name.  An
empty name and `.` stay, `..` goes back, and any other name goes on to a file or
directory of that name.  Nothing goes on from a file.  Of the directories outside
nothing is known; they are taken to hold no files.
-/

namespace NodeGrid.CommandLine

/-- Why a file could not be read. -/
inductive ReadError where
  | missing
  /-- The path goes on from a file. -/
  | notDirectory
  /-- The path leads to a directory. -/
  | isDirectory
  | nameTooLong
  | notText
  | other (message : String)
deriving DecidableEq

/-- What is reported when a file cannot be read. -/
def ReadError.message : ReadError → String
  | .missing => "No such file or directory (os error 2)"
  | .notDirectory => "Not a directory (os error 20)"
  | .isDirectory => "Is a directory (os error 21)"
  | .nameTooLong => "File name too long (os error 36)"
  | .notText => "stream did not contain valid UTF-8"
  | .other message => message

/-- The text that bytes stand for. -/
def textOfBytes (bytes : ByteArray) : Except ReadError String :=
  match String.fromUTF8? bytes with
  | some text => .ok text
  | none => .error .notText

/-- A name in a directory. -/
abbrev FileName := List Char

/-- A file, with the names that lead to it from the working directory. -/
structure File where
  names : List FileName
  bytes : ByteArray

/-- The files below a working directory. -/
structure Directory where
  files : List File

/-- Where a path has led. -/
inductive Place where
  | file (bytes : ByteArray)
  /-- The directory that these names lead to from the working directory. -/
  | inside (names : List FileName)
  /-- Some directory that is not below the working directory. -/
  | outside

/-- The longest name that a directory can hold, in bytes. -/
def maxNameSize : Nat := 255

/-- The longest path that is followed, in bytes. -/
def maxPathSize : Nat := 4095

namespace Directory

/-- The names of a path. -/
def splitPath (path : String) : List FileName :=
  path.toList.splitOn '/'

/-- Whether the name stays in its directory. -/
def isCurrent (name : FileName) : Bool :=
  name.isEmpty || name == ['.']

/-- Whether the name goes back to the directory around. -/
def isParent (name : FileName) : Bool :=
  name == ['.', '.']

/-- A directory of files that are given by path. -/
def ofFiles (files : List (String × ByteArray)) : Directory where
  files := files.map fun (path, bytes) => ⟨(splitPath path).filter (!isCurrent ·), bytes⟩

/-- What these names lead to, if there is such a file or directory. -/
def place? (directory : Directory) (names : List FileName) : Option Place :=
  match directory.files.find? (·.names == names) with
  | some file => some (.file file.bytes)
  | none =>
    if directory.files.any (names.isPrefixOf ·.names) then some (.inside names) else none

/-- The error for a name that is not there. -/
def absent (name : FileName) : ReadError :=
  if maxNameSize < (String.ofList name).utf8ByteSize then .nameTooLong else .missing

/-- Follows one name of a path. -/
def enter (directory : Directory) (place : Place) (name : FileName) : Except ReadError Place :=
  match place with
  | .file _ => .error .notDirectory
  | .inside names =>
    if isCurrent name then .ok place
    else if isParent name then .ok (if names.isEmpty then .outside else .inside names.dropLast)
    else
      match directory.place? (names ++ [name]) with
      | some next => .ok next
      | none => .error (absent name)
  | .outside =>
    if isCurrent name || isParent name then .ok place else .error (absent name)

/-- Where a path starts. -/
def start (path : String) : Place :=
  if ['/'].isPrefixOf path.toList then .outside else .inside []

/-- Where a path leads.  The empty path leads nowhere. -/
def locate (directory : Directory) (path : String) : Except ReadError Place :=
  if path.isEmpty then .error .missing
  else if maxPathSize < path.utf8ByteSize then .error .nameTooLong
  else (splitPath path).foldlM directory.enter (start path)

/-- Reads the file that a path leads to. -/
def read (directory : Directory) (path : String) : Except ReadError String := do
  match ← directory.locate path with
  | .file bytes => textOfBytes bytes
  | .inside _ | .outside => .error .isDirectory

end Directory

end NodeGrid.CommandLine
