import StackMachine.Code.Listing
import StackMachine.Command.Arguments
import StackMachine.Debug.Screen

/-!
# The command

The command runs a program file, lists it, or starts the debugger on it. It is a function of its
arguments, its folder, its input and its terminal, if it has one; what it writes and how it exits
are its result.
-/

namespace StackMachine.Command

/-- A terminal with the keys that are typed on it. -/
structure Terminal where
  /-- Its width. -/
  columns : Nat
  /-- Its height. -/
  rows : Nat
  /-- The keys in the order in which they are typed. -/
  keys : List Console.Key
  deriving DecidableEq, Repr, Inhabited

/-- What a run of the command leaves. -/
structure Report where
  /-- The exit code. -/
  exit : Nat := 0
  /-- What it wrote to its output. -/
  output : String := ""
  /-- What it wrote to its diagnostics. -/
  diagnostics : String := ""
  /-- Its files. -/
  folder : Folder
  /-- The last screen that it drew, if it drew one. -/
  screen : Option (List String) := none
  deriving Inhabited

/-- The line that names the version. -/
def versionText : String := "steve 0.1.0\n"

/-- The help text. -/
def helpText : String :=
  "A stack-based IR virtual machine\n" ++
  "\n" ++
  "Usage: steve [OPTIONS] [FILE]\n" ++
  "\n" ++
  "Arguments:\n" ++
  "  [FILE]  IR file to run\n" ++
  "\n" ++
  "Options:\n" ++
  "      --jit <JIT>           JIT compilation mode (overrides the config file) " ++
    "[possible values: off, on, auto]\n" ++
  "      --trace-jit           Print JIT compilation info to stderr\n" ++
  "      --gc-stats            Print GC statistics to stderr after each collection\n" ++
  "      --heap-limit <BYTES>  Cap on VM-owned heap bytes\n" ++
  "      --config <PATH>       TOML runtime configuration\n" ++
  "      --debug               Start the interactive debugger\n" ++
  "      --break <LINE>        Initial breakpoint line for the debugger (repeatable)\n" ++
  "      --dump-ir             Print the parsed program as JSON and exit\n" ++
  "  -h, --help                Print help\n" ++
  "  -V, --version             Print version\n"

/-- The reason why the debugger does not start without a terminal. -/
def noTerminal : String := "No such device or address (os error 6)"

/-- A run that fails with a line of diagnostics. -/
def failure (folder : Folder) (text : String) : Report :=
  { exit := 1, diagnostics := text ++ "\n", folder }

/-- The settings of a run: those of the file, where options do not override them. -/
def settingsFor (options : Options) (folder : Folder) : Except SettingsError Settings := do
  let settings ← match options.config with
    | some path => Settings.load folder path
    | none => pure {}
  return { settings with
    nativeMode := options.nativeMode.getD settings.nativeMode
    traceNative := settings.traceNative || options.traceNative
    reportCollections := settings.reportCollections || options.reportCollections
    heapLimit := options.heapLimit <|> settings.heapLimit }

/-- Runs a program to its end. -/
def runProgram (steps : Nat) (settings : Settings) (language : Language) (folder : Folder)
    (input : List UInt8) (source : String) : Option Report :=
  let fail (m : Machine) (reason : String) : Report :=
    { exit := 1
      output := m.output.accepted
      diagnostics := m.log ++ Message.localize language .internalError reason ++ "\n"
      folder := m.folder }
  let m := { Machine.create settings with standardInput := input, folder }
  match m.load source with
  | (.error _, m) => some (fail m "Failed to load program")
  | (.ok _, m) =>
    match m.execute steps with
    | (.done (), m) =>
      some { output := m.output.accepted, diagnostics := m.log, folder := m.folder }
    | (.failed _, m) => some (fail m "Failed to execute program")
    | (.unfinished, _) => none

/-- Starts the debugger on a program file. -/
def runDebugger (steps : Nat) (terminal : Option Terminal) (settings : Settings)
    (language : Language) (folder : Folder) (path : String) (breaks : List Nat) :
    Option Report :=
  let fail (reason : String) : Report :=
    failure folder (Message.localize language .internalError reason)
  match Console.ofFile { Machine.create settings with input := .own [], folder } path, terminal with
  | .error error, _ => some (fail error.message)
  | .ok _, none => some (fail noTerminal)
  | .ok console, some terminal => do
    let console := breaks.foldl (fun console line => console.setBreakpoint line none) console
    let (last, after) ← console.pressAll steps terminal.keys
    return {
      diagnostics := after.machine.log
      folder := after.machine.folder
      screen := some (Screen.rows terminal.columns terminal.rows last) }

/-- Does what options ask for. -/
def perform (steps : Nat) (terminal : Option Terminal) (options : Options) (folder : Folder)
    (input : List UInt8) : Option Report :=
  match settingsFor options folder with
  | .error error => some (failure folder error.message)
  | .ok settings =>
    let language := settings.language.getD (Language.detect folder)
    match options.file with
    | none => some (failure folder (Message.localize language .usage ""))
    | some path =>
      match folder.readText path with
      | .error _ =>
        some (failure folder (Message.localize language .fileNotFound "" ++ ": " ++ path))
      | .ok source =>
        if options.listing then
          some { output := Program.listing (Program.ofSource source) ++ "\n", folder }
        else if options.debug then
          runDebugger steps terminal settings language folder path options.breaks
        else runProgram steps settings language folder input source

/-- Runs the command. There is no result if the number of steps does not suffice. -/
def run (steps : Nat) (terminal : Option Terminal) (arguments : List String) (folder : Folder)
    (input : List UInt8) : Option Report :=
  match readArguments arguments with
  | .error .help => some { output := helpText, folder }
  | .error .version => some { output := versionText, folder }
  | .error (.misused error) => some (failure folder ("error: " ++ error.message))
  | .ok options => perform steps terminal options folder input

end StackMachine.Command
