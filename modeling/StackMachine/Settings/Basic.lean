import StackMachine.Settings.Language

/-!
# Settings

What can be chosen about a run.
-/

namespace StackMachine

/-- When a program is run as native code. -/
inductive NativeMode
  /-- Never. -/
  | off
  /-- Whenever it can be. -/
  | on
  /-- Whenever it can be and the processor is of the right kind, which it is. -/
  | auto
  deriving DecidableEq, Repr, Inhabited

/-- Whether native code is tried at all. -/
def NativeMode.attempts : NativeMode → Bool
  | off => false
  | on => true
  | auto => true

/-- The settings of a run. -/
structure Settings where
  /-- When native code is used. -/
  nativeMode : NativeMode := .off
  /-- Report on native code. -/
  traceNative : Bool := false
  /-- Report on each collection. -/
  reportCollections : Bool := false
  /-- Whether collecting does anything. -/
  collects : Bool := true
  /-- The most bytes that a program may hold. -/
  heapLimit : Option Nat := none
  /-- The blocks of a size class that may be in use. -/
  blocksPerClass : Nat := 100
  /-- The language of messages, if chosen. -/
  language : Option Language := none
  deriving DecidableEq, Repr, Inhabited

end StackMachine
