import StackMachine.Command.Program

/-!
# The entry point

Reads the files of the current folder and the input, runs the command on them, and writes what it
reports. The debugger needs a terminal, which this entry point does not have.
-/

namespace StackMachine

/-- The number of steps that a run may take. -/
def stepLimit : Nat := 1000000000000000

/-- The files of the current folder that can be read. -/
def readFolder : IO Folder := do
  let mut files := []
  for entry in ← (← IO.currentDir).readDir do
    try
      let contents ← IO.FS.readBinFile entry.path
      files := (entry.fileName, contents) :: files
    catch _ => pure ()
  return { files := Entries.ofList files }

/-- Writes the files that a run has changed. -/
def writeFolder (before after : Folder) : IO Unit := do
  for (name, contents) in after.files do
    if (before.contents? name).map ByteArray.data ≠ some contents.data then
      IO.FS.writeBinFile name contents

end StackMachine

open StackMachine in
/-- Runs the command with the arguments of the process. -/
def main (arguments : List String) : IO UInt32 := do
  let folder ← readFolder
  let input ← (← IO.getStdin).readBinToEnd
  match Command.run stepLimit none arguments folder input.toList with
  | none => return 1
  | some report =>
    IO.print report.output
    IO.eprint report.diagnostics
    writeFolder folder report.folder
    return UInt32.ofNat report.exit
