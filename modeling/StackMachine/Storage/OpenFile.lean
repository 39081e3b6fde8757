import StackMachine.Memory.Objects
import StackMachine.Storage.Folder

/-!
# Open files

A program opens files by path and mode and holds them by number, starting at 1000. Each open file
has a position of its own; a file opened for appending always writes at the end.
-/

namespace StackMachine

/-- How a file is opened. -/
structure OpenMode where
  /-- May be read. -/
  reads : Bool
  /-- May be written. -/
  writes : Bool
  /-- Writes at the end. -/
  appends : Bool
  /-- Is created if it does not exist. -/
  creates : Bool
  /-- Loses its contents. -/
  truncates : Bool
  deriving DecidableEq, Repr

/-- The mode that letters spell: `w` truncates, else `a` appends, else the file is only read; a
plus sign adds the other direction. -/
def OpenMode.ofText (text : String) : OpenMode :=
  let has (c : Char) : Bool := c ∈ text.toList
  let truncates := has 'w'
  let appends := !truncates && has 'a'
  let reads := !truncates && !appends
  { reads := reads || has '+'
    writes := truncates || appends || has '+'
    appends
    creates := truncates || appends
    truncates }

/-- A file that is open. -/
structure OpenFile where
  /-- Where it is. -/
  place : Place
  /-- How it was opened. -/
  mode : OpenMode
  /-- The position of the next byte to read or write. -/
  position : Nat := 0
  deriving DecidableEq, Repr

/-- The open files by number. -/
abbrev FileTable := Numbered OpenFile

namespace FileTable

/-- The number of the first file. -/
def firstNumber : Int := 1000

/-- No open files. -/
def empty : FileTable := { next := firstNumber }

/-- Opens a file. -/
def openAt (table : FileTable) (folder : Folder) (path : String) (mode : OpenMode) :
    Except FileError (Int × FileTable × Folder) :=
  match folder.resolve path with
  | .error error => .error error
  | .ok .folder =>
    if mode.writes then .error .isFolder
    else
      let (number, table) := Numbered.add table { place := .folder, mode }
      .ok (number, table, folder)
  | .ok (.file name) =>
    if !folder.has name && !mode.creates then .error .notFound
    else
      let folder :=
        if mode.truncates || !folder.has name then folder.write name ByteArray.empty
        else folder
      let (number, table) := Numbered.add table { place := .file name, mode }
      .ok (number, table, folder)

/-- Closes a file; the flag says whether it was open. -/
def close (table : FileTable) (number : Int) : Bool × FileTable :=
  (table.has number, Numbered.remove table number)

/-- Puts bytes into contents at a position; a gap before the position is filled with zeros. -/
def overwrite (contents : ByteArray) (position : Nat) (bytes : ByteArray) : ByteArray :=
  let gap := ByteArray.mk (Array.replicate (position - contents.size) 0)
  contents.extract 0 position ++ gap ++ bytes ++
    contents.extract (position + bytes.size) contents.size

/-- Writes a text at the position of an open file and returns its number of characters. There is
no answer if the file is not open. Writing nothing always succeeds. -/
def write (table : FileTable) (folder : Folder) (number : Int) (text : String) :
    Option (Except FileError Nat × FileTable × Folder) :=
  match table.get? number with
  | none => none
  | some file =>
    if text.isEmpty then some (.ok 0, table, folder)
    else
      match file.place, file.mode.writes with
      | .file name, true =>
        let contents := (folder.contents? name).getD ByteArray.empty
        let bytes := text.toUTF8
        let position := if file.mode.appends then contents.size else file.position
        some (.ok text.length,
          Numbered.set table number { file with position := position + bytes.size },
          folder.write name (overwrite contents position bytes))
      | _, _ => some (.error .badHandle, table, folder)

/-- Reads an open file from its position to its end. There is no answer if it is not open. -/
def read (table : FileTable) (folder : Folder) (number : Int) :
    Option (Except FileError String × FileTable) :=
  match table.get? number with
  | none => none
  | some file =>
    match file.place, file.mode.reads with
    | _, false => some (.error .badHandle, table)
    | .folder, true => some (.error .isFolder, table)
    | .file name, true =>
      let contents := (folder.contents? name).getD ByteArray.empty
      let rest := contents.extract file.position contents.size
      let table := Numbered.set table number
        { file with position := max file.position contents.size }
      match String.fromUTF8? rest with
      | some text => some (.ok text, table)
      | none => some (.error .notText, table)

end FileTable

end StackMachine
