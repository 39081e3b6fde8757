import StackMachine.Settings.File

/-!
# Command-line arguments

What the arguments of the command ask for. Arguments are taken from left to right. The value of an
option is judged only when the next known argument is reached, so an unknown argument right after
a bad value is the one that is reported.
-/

namespace StackMachine.Command

/-- What a run of the command was asked to do. -/
structure Options where
  /-- The program file. -/
  file : Option String := none
  /-- When native code is used. -/
  nativeMode : Option NativeMode := none
  /-- Report on native code. -/
  traceNative : Bool := false
  /-- Report on each collection. -/
  reportCollections : Bool := false
  /-- The most bytes that a program may hold. -/
  heapLimit : Option Nat := none
  /-- The settings file. -/
  config : Option String := none
  /-- Start the debugger. -/
  debug : Bool := false
  /-- The lines of the debugger's first breakpoints. -/
  breaks : List Nat := []
  /-- Only list the program. -/
  listing : Bool := false
  deriving DecidableEq, Repr, Inhabited

/-- What takes a value. -/
inductive Slot
  /-- When native code is used. -/
  | nativeMode
  /-- The most bytes that a program may hold. -/
  | heapLimit
  /-- The settings file. -/
  | config
  /-- A line for a breakpoint. -/
  | breakLine
  /-- The program file. -/
  | file
  deriving DecidableEq, Repr

/-- How a slot is shown in messages. -/
def Slot.shown : Slot → String
  | nativeMode => "--jit <JIT>"
  | heapLimit => "--heap-limit <BYTES>"
  | config => "--config <PATH>"
  | breakLine => "--break <LINE>"
  | file => "[FILE]"

/-- The options that take a value, by name. -/
def slots : List (String × Slot) :=
  [("jit", .nativeMode), ("heap-limit", .heapLimit), ("config", .config), ("break", .breakLine)]

/-- The options that take none. -/
inductive Flag
  /-- Report on native code. -/
  | traceNative
  /-- Report on each collection. -/
  | reportCollections
  /-- Start the debugger. -/
  | debug
  /-- Only list the program. -/
  | listing
  deriving DecidableEq, Repr

/-- The options that take no value, by name. -/
def flags : List (String × Flag) :=
  [("trace-jit", .traceNative), ("gc-stats", .reportCollections), ("debug", .debug),
    ("dump-ir", .listing)]

/-- What is wrong with the arguments. -/
inductive UsageError
  /-- The argument is not known, or one too many. -/
  | unexpected (argument : String)
  /-- The value does not fit. -/
  | invalid (value : String) (slot : Slot) (reason : Option String)
  /-- The value is not there. -/
  | missing (slot : Slot)
  /-- The option was given before. -/
  | repeated (shown : String)
  /-- The option takes no value. -/
  | surplus (value shown : String)
  deriving DecidableEq, Repr

/-- The wording of a usage error. -/
def UsageError.message : UsageError → String
  | unexpected argument => "unexpected argument '" ++ argument ++ "' found"
  | invalid value slot reason =>
    "invalid value '" ++ value ++ "' for '" ++ slot.shown ++ "'" ++
      (reason.map fun reason => ": " ++ reason).getD ""
  | missing slot => "a value is required for '" ++ slot.shown ++ "' but none was supplied"
  | repeated shown => "the argument '" ++ shown ++ "' cannot be used multiple times"
  | surplus value shown =>
    "unexpected value '" ++ value ++ "' for '" ++ shown ++ "' found; no more were accepted"

/-- Why reading the arguments stops before their end. -/
inductive Stop
  /-- They are wrong. -/
  | misused (error : UsageError)
  /-- Help was asked for. -/
  | help
  /-- The version was asked for. -/
  | version
  deriving DecidableEq, Repr

/-- What is known in the middle of the arguments. -/
structure Progress where
  /-- The options so far. -/
  options : Options := {}
  /-- A slot whose value is not judged yet, with the value if it is there. -/
  pending : Option (Slot × Option String) := none
  /-- Whether the pending slot still waits for its value. -/
  awaiting : Bool := false
  /-- Whether the program file was given. -/
  named : Bool := false
  /-- Whether only files may follow. -/
  filesOnly : Bool := false
  deriving DecidableEq, Repr, Inhabited

namespace Options

/-- Reads a size as the value of a slot. -/
def sizeFor (slot : Slot) (value : String) : Except UsageError Nat :=
  match Text.readSize value.toList with
  | .ok n => .ok n
  | .error error => .error (.invalid value slot (some error.message))

/-- Gives a slot its value. -/
def give (options : Options) (slot : Slot) (value : String) : Except UsageError Options :=
  let once (given : Bool) (result : Except UsageError Options) : Except UsageError Options :=
    if given then .error (.repeated slot.shown) else result
  match slot with
  | .nativeMode => once options.nativeMode.isSome <|
    match Settings.modeNames.find? fun mode => mode.1 == value with
    | some (_, mode) => .ok { options with nativeMode := some mode }
    | none =>
      if value.isEmpty then .error (.missing slot) else .error (.invalid value slot none)
  | .heapLimit => once options.heapLimit.isSome do
    let limit ← sizeFor slot value
    return { options with heapLimit := some limit }
  | .config => once options.config.isSome <|
    if value.isEmpty then .error (.missing slot)
    else .ok { options with config := some value }
  | .breakLine => do
    let line ← sizeFor slot value
    return { options with breaks := options.breaks ++ [line] }
  | .file => once options.file.isSome <|
    if value.isEmpty then .error (.missing slot)
    else .ok { options with file := some value }

/-- Whether a flag was given. -/
def has (options : Options) : Flag → Bool
  | .traceNative => options.traceNative
  | .reportCollections => options.reportCollections
  | .debug => options.debug
  | .listing => options.listing

/-- Notes a flag. -/
def note (options : Options) : Flag → Options
  | .traceNative => { options with traceNative := true }
  | .reportCollections => { options with reportCollections := true }
  | .debug => { options with debug := true }
  | .listing => { options with listing := true }

end Options

namespace Progress

/-- Stops with a usage error. -/
def misuse {α : Type} (error : UsageError) : Except Stop α := .error (.misused error)

/-- Judges the pending value. -/
def settle (progress : Progress) : Except Stop Progress :=
  let settled := { progress with pending := none, awaiting := false }
  match progress.pending with
  | none => .ok settled
  | some (slot, none) => misuse (.missing slot)
  | some (slot, some value) =>
    match progress.options.give slot value with
    | .ok options => .ok { settled with options }
    | .error error => misuse error

/-- Takes a long option, with its value if one is attached. -/
def takeLong (progress : Progress) (name : String) (attached : Option String) :
    Except Stop Progress :=
  let shown := "--" ++ name
  let plain (act : Progress → Except Stop Progress) : Except Stop Progress :=
    match attached with
    | some value => misuse (.surplus value shown)
    | none => progress.settle >>= act
  match slots.find? (·.1 = name), flags.find? (·.1 = name) with
  | some (_, slot), _ => do
    let progress ← progress.settle
    match attached with
    | some value => settle { progress with pending := some (slot, some value) }
    | none => return { progress with pending := some (slot, none), awaiting := true }
  | none, some (_, flag) =>
    plain fun progress =>
      if progress.options.has flag then misuse (.repeated shown)
      else .ok { progress with options := progress.options.note flag }
  | none, none =>
    if name = "help" then plain fun _ => .error .help
    else if name = "version" then plain fun _ => .error .version
    else misuse (.unexpected shown)

/-- Takes a cluster of short options, of which the first already stops. -/
def takeShort (progress : Progress) (letter : Char) : Except Stop Progress := do
  if letter = 'h' then
    let _ ← progress.settle
    .error .help
  else if letter = 'V' then
    let _ ← progress.settle
    .error .version
  else misuse (.unexpected (String.ofList ['-', letter]))

/-- Takes a file. Only one may be given. -/
def takeFile (progress : Progress) (argument : String) : Except Stop Progress := do
  if progress.named then misuse (.unexpected argument)
  else
    let progress ← progress.settle
    return { progress with pending := some (.file, some argument), named := true }

/-- Takes an argument that is no option: the value of the option before it, or a file. -/
def takePlain (progress : Progress) (argument : String) : Except Stop Progress :=
  match progress.awaiting, progress.pending with
  | true, some (slot, _) =>
    .ok { progress with pending := some (slot, some argument), awaiting := false }
  | _, _ => progress.takeFile argument

/-- Takes one argument. -/
def take (progress : Progress) (argument : String) : Except Stop Progress :=
  if progress.filesOnly then progress.takeFile argument
  else
    match argument.toList with
    | ['-', '-'] => .ok { progress with filesOnly := true }
    | '-' :: '-' :: rest =>
      let name := String.ofList (rest.takeWhile (· ≠ '='))
      let attached := match rest.dropWhile (· ≠ '=') with
        | [] => none
        | _ :: value => some (String.ofList value)
      progress.takeLong name attached
    | '-' :: letter :: _ => progress.takeShort letter
    | _ => progress.takePlain argument

end Progress

/-- The options that arguments spell. -/
def readArguments (arguments : List String) : Except Stop Options := do
  let progress ← arguments.foldlM Progress.take {}
  let progress ← progress.settle
  return progress.options

end StackMachine.Command
