import StackMachine.Machine.State

/-!
# Collecting garbage

The roots of a collection are the strong pointers in the operand stack and in the variables, at
any depth inside lists and dictionaries. Weak pointers do not keep an object.
-/

namespace StackMachine

namespace Value

mutual

/-- The handles of the strong pointers in a value. -/
def strongHandles : Value → List Nat
  | pointer p =>
    match p.weak, p.target with
    | false, .collected handle => [handle]
    | _, _ => []
  | list items => strongInItems items
  | dict entries => strongInEntries entries
  | _ => []

/-- The handles of the strong pointers in the items of a list. -/
def strongInItems : List Value → List Nat
  | [] => []
  | item :: rest => strongHandles item ++ strongInItems rest

/-- The handles of the strong pointers in the values of a dictionary. -/
def strongInEntries : List (String × Value) → List Nat
  | [] => []
  | (_, value) :: rest => strongHandles value ++ strongInEntries rest

end

end Value

namespace Machine

/-- The handles that a collection keeps. -/
def rootHandles (m : Machine) : List Nat :=
  Value.strongInItems m.stack ++ Value.strongInEntries m.bindings

/-- Collects garbage, if that is enabled, and returns the number of objects freed. -/
def collectGarbage (m : Machine) : Nat × Machine :=
  if !m.settings.collects then (0, m)
  else
    let rooted := m.rootHandles.foldl Collector.addRoot m.collector.clearRoots
    let (count, collector, allocator) := rooted.collect m.allocator
    let m := { m with collector, allocator }
    (count,
      if m.settings.reportCollections then
        m.logLine ("[GC] collected: " ++ toString count ++ ", live: " ++
          toString collector.heapSize ++ ", heap: " ++ toString rooted.heapSize)
      else m)

end Machine

end StackMachine
