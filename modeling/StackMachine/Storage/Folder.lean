import StackMachine.Collection.Entries
import StackMachine.Text.Blank

/-!
# Files

The files that a program can reach, by name, and how paths lead to them. A path leads to a file, to
a folder, or nowhere.
-/

namespace StackMachine

/-- Why a file operation fails. -/
inductive FileError
  /-- No file of that name. -/
  | notFound
  /-- The path goes through something that is not a folder. -/
  | notAFolder
  /-- The path leads to a folder. -/
  | isFolder
  /-- The file was not opened for that. -/
  | badHandle
  /-- A name is too long. -/
  | nameTooLong
  /-- The path holds a NUL character. -/
  | nulInPath
  /-- The contents are not UTF-8. -/
  | notText
  deriving DecidableEq, Repr

/-- The wording of a file error. -/
def FileError.message : FileError → String
  | notFound => "No such file or directory (os error 2)"
  | notAFolder => "Not a directory (os error 20)"
  | isFolder => "Is a directory (os error 21)"
  | badHandle => "Bad file descriptor (os error 9)"
  | nameTooLong => "File name too long (os error 36)"
  | nulInPath => "file name contained an unexpected NUL byte"
  | notText => "stream did not contain valid UTF-8"

/-- Where a path leads. -/
inductive Place
  /-- A folder. -/
  | folder
  /-- A file by its name, which may not exist yet. -/
  | file (name : String)
  deriving DecidableEq, Repr

/-- How paths lead to files, given the names of the files that exist. Any rule is allowed: files may
be spread over many folders, and many paths may lead to one file. -/
abbrev PathRule := (has : String → Bool) → (path : String) → Except FileError Place

/-- The longest part of a path, in bytes. -/
def PathRule.maxName : Nat := 255

/-- The rule of a folder without subfolders, far from everything else. A path that ends in a slash
can only lead to a folder. -/
def PathRule.flat : PathRule := fun has path =>
  let cs := path.toList
  let steps := ((Text.splitAll (· == '/') cs).filter fun step =>
    !step.isEmpty && step ≠ ['.']).map String.ofList
  if '\x00' ∈ cs then .error .nulInPath
  else if cs.isEmpty then .error .notFound
  else if steps.any fun step => maxName < step.utf8ByteSize then .error .nameTooLong
  else if steps.all fun step => step = ".." then .ok .folder
  else if cs.head? = some '/' then .error .notFound
  else
    match steps with
    | [name] =>
      if cs.getLast? = some '/' then
        if has name then .error .notAFolder else .error .notFound
      else .ok (.file name)
    | name :: _ => if has name then .error .notAFolder else .error .notFound
    | [] => .ok .folder

/-- The files that a program can reach. -/
structure Folder where
  /-- The contents of the files by name. -/
  files : Entries String ByteArray := []
  /-- How paths lead to them. -/
  rule : PathRule := PathRule.flat

instance : Inhabited Folder := ⟨{}⟩

namespace Folder

/-- Whether a file exists. -/
def has (folder : Folder) (name : String) : Bool := Entries.has name folder.files

/-- The contents of a file. -/
def contents? (folder : Folder) (name : String) : Option ByteArray :=
  Entries.find? name folder.files

/-- Follows a path. -/
def resolve (folder : Folder) (path : String) : Except FileError Place :=
  folder.rule folder.has path

/-- The contents of the file at a path. -/
def read (folder : Folder) (path : String) : Except FileError ByteArray :=
  match folder.resolve path with
  | .error error => .error error
  | .ok .folder => .error .isFolder
  | .ok (.file name) =>
    match folder.contents? name with
    | some contents => .ok contents
    | none => .error .notFound

/-- The text of the file at a path. -/
def readText (folder : Folder) (path : String) : Except FileError String :=
  match folder.read path with
  | .error error => .error error
  | .ok contents =>
    match String.fromUTF8? contents with
    | some text => .ok text
    | none => .error .notText

/-- Replaces the contents of a file. -/
def write (folder : Folder) (name : String) (contents : ByteArray) : Folder :=
  { folder with files := Entries.insert name contents folder.files }

end Folder

end StackMachine
