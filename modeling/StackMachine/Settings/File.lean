import StackMachine.Settings.Basic
import StackMachine.Settings.Toml.Document
import StackMachine.Storage.Folder

/-!
# Settings files

Settings are kept in a TOML document, all of them in its table `vm`. What is not given keeps its
default; what is not known is an error.
-/

namespace StackMachine

/-- Why settings cannot be taken from a file. -/
inductive SettingsError
  /-- The file cannot be read. -/
  | unreadable (path : String) (error : FileError)
  /-- The text is not TOML, or not of settings. -/
  | malformed
  deriving DecidableEq, Repr

/-- The wording of a settings error. -/
def SettingsError.message : SettingsError → String
  | unreadable path error => "failed to read " ++ path ++ ": " ++ error.message
  | malformed => "failed to parse config: not a table of settings"

namespace Settings

open Toml

/-- The choice that a node names: by a text, or by the only key of a table with nothing in it. -/
def choice? {α : Type} (choices : List (String × α)) (node : Node) : Option α := do
  let name ← match node with
    | .text name => some name
    | .table _ [(name, .table _ [])] => some name
    | .table _ [(name, .array [])] => some name
    | _ => none
  let chosen ← choices.find? fun choice => choice.1 == name
  return chosen.2

/-- The truth value that a node holds. -/
def truth? : Node → Option Bool
  | .truth b => some b
  | _ => none

/-- The size that a node holds. -/
def size? : Node → Option Nat
  | .integer n => if 0 ≤ n then some n.toNat else none
  | _ => none

/-- The names of the modes of native code. -/
def modeNames : List (String × NativeMode) := [("off", .off), ("on", .on), ("auto", .auto)]

/-- The names of the languages. -/
def languageNames : List (String × Language) := [("english", .english), ("chinese", .chinese)]

/-- The names of the settings, in their order. -/
def names : List String :=
  ["jit", "trace_jit", "gc_stats", "gc_enabled", "heap_limit", "pool_blocks_per_class", "language"]

/-- Changes the setting of a name. -/
def change? (settings : Settings) (name : String) (node : Node) : Option Settings :=
  if name = "jit" then
    (choice? modeNames node).map fun nativeMode => { settings with nativeMode }
  else if name = "trace_jit" then
    (truth? node).map fun traceNative => { settings with traceNative }
  else if name = "gc_stats" then
    (truth? node).map fun reportCollections => { settings with reportCollections }
  else if name = "gc_enabled" then
    (truth? node).map fun collects => { settings with collects }
  else if name = "heap_limit" then
    (size? node).map fun limit => { settings with heapLimit := some limit }
  else if name = "pool_blocks_per_class" then
    (size? node).map fun blocksPerClass => { settings with blocksPerClass }
  else if name = "language" then
    (choice? languageNames node).map fun language => { settings with language := some language }
  else none

/-- The settings that a table gives by name, or an array of all of them in their order. -/
def ofNode? : Node → Option Settings
  | .table _ entries =>
    entries.foldlM (fun settings entry => settings.change? entry.1 entry.2) {}
  | .array items =>
    if items.length < names.length then none
    else
      (names.zip items).foldlM (fun settings entry => settings.change? entry.1 entry.2) {}
  | _ => none

/-- The settings in a TOML document. -/
def ofToml? (text : String) : Option Settings := do
  match ← read? text with
  | [] => return {}
  | [("vm", node)] => ofNode? node
  | _ => none

/-- The settings in a file. -/
def load (folder : Folder) (path : String) : Except SettingsError Settings :=
  match folder.readText path with
  | .error error => .error (.unreadable path error)
  | .ok text =>
    match ofToml? text with
    | some settings => .ok settings
    | none => .error .malformed

end Settings

end StackMachine
