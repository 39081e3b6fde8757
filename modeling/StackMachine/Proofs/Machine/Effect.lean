import StackMachine.Machine.Run

/-!
# Running effects

How the parts of an effect are run one after the other, and what the basic effects do to a machine.

## Main results

* `Effect.run_bind`: how the parts of an effect are run one after the other.
* `Effect.run_pop?`, `Effect.run_output` and others: what the basic effects do.
-/

namespace StackMachine

namespace Effect

variable {α β : Type}

/-- The second part of an effect runs where the first one left the machine; an interruption ends
both. -/
theorem run_bind (x : Effect α) (f : α → Effect β) (m : Machine) :
    (x >>= f).run m = match x.run m with
      | (.ok a, m) => (f a).run m
      | (.error e, m) => (.error e, m) := by
  simp only [bind, ExceptT.bind, ExceptT.run, ExceptT.mk, StateT.bind, ExceptT.bindCont, Id]
  generalize x m = result
  obtain ⟨e | a, m'⟩ := result <;> rfl

/-- The second part of an effect whose first part gives a result. -/
theorem run_bind_of_ok {x : Effect α} {f : α → Effect β} {m m' : Machine} {a : α}
    (h : x.run m = (.ok a, m')) : (x >>= f).run m = (f a).run m' := by
  rw [run_bind, h]

/-- An effect whose first part is interrupted. -/
theorem run_bind_of_error {x : Effect α} {f : α → Effect β} {m m' : Machine} {e : Interruption}
    (h : x.run m = (.error e, m')) : (x >>= f).run m = (.error e, m') := by
  rw [run_bind, h]

theorem run_get_bind (f : Machine → Effect β) (m : Machine) :
    (get >>= f : Effect β).run m = (f m).run m := rfl

/-- What comes behind a replacement of the machine runs on the new one. -/
theorem run_set_bind (after : Machine) (x : Effect β) (m : Machine) :
    (set after >>= fun _ => x : Effect β).run m = x.run after := rfl

/-- What would follow a failure does not happen. -/
theorem fail_bind (fault : Fault) (f : α → Effect β) : (fail fault >>= f) = fail fault := rfl

theorem run_orFail_some (a : α) (fault : Fault) (m : Machine) :
    (orFail (some a) fault).run m = (.ok a, m) := rfl

/-- Naming a line changes only the interruption. -/
theorem run_withLine (line : Nat) (x : Effect α) (m : Machine) :
    (x.withLine line).run m = ((x.run m).1.mapError (·.withLine line), (x.run m).2) := rfl

/-- There is nothing to take from an empty stack. -/
theorem run_pop?_nil {m : Machine} (h : m.stack = []) : pop?.run m = (.ok none, m) := by
  rw [pop?, run_get_bind]
  simp only [h]
  rfl

/-- The value on top of the stack is taken. -/
theorem run_pop?_cons {m : Machine} {value : Value} {stack : List Value}
    (h : m.stack = value :: stack) : pop?.run m = (.ok (some value), { m with stack }) := by
  rw [pop?, run_get_bind]
  simp only [h]
  rfl

/-- The value popped is the top of the stack, if there is one. -/
theorem run_pop? (m : Machine) :
    pop?.run m = (.ok m.stack.head?, { m with stack := m.stack.tail }) := by
  cases hstack : m.stack with
  | nil =>
    have hm : ({ m with stack := [] } : Machine) = m := by rw [← hstack]
    rw [run_pop?_nil hstack, List.tail_nil, hm]
    rfl
  | cons value stack => exact run_pop?_cons hstack

/-- An empty stack is a fault for those who need a value. -/
theorem run_popOr_nil {m : Machine} (fault : Fault) (h : m.stack = []) :
    (popOr fault).run m = (.error (.fault fault), m) := by
  rw [popOr, run_bind_of_ok (run_pop?_nil h)]
  rfl

/-- They take the value on top if there is one. -/
theorem run_popOr_cons {m : Machine} {value : Value} {stack : List Value} (fault : Fault)
    (h : m.stack = value :: stack) : (popOr fault).run m = (.ok value, { m with stack }) := by
  rw [popOr, run_bind_of_ok (run_pop?_cons h)]
  rfl

/-- A write that the stream accepts. -/
theorem run_output {write : Sink → Except String Unit × Sink} {m : Machine} {sink : Sink}
    (h : write m.output = (.ok (), sink)) :
    (output write).run m = (.ok (), { m with output := sink }) := by
  rw [output, run_get_bind]
  simp only [h]
  rfl

/-- A write that the stream refuses. -/
theorem run_output_refused {write : Sink → Except String Unit × Sink} {m : Machine} {sink : Sink}
    {reason : String} (h : write m.output = (.error reason, sink)) :
    (output write).run m =
      (.error (.fault (.onLine (.outputRefused reason) 0)), { m with output := sink }) := by
  rw [output, run_get_bind]
  simp only [h]
  rfl

/-- A look at the heap limit changes nothing. -/
theorem run_checkHeapLimit (m : Machine) (size line : Nat) :
    (checkHeapLimit size line).run m =
      if m.fitsHeapLimit size then (.ok (), m)
      else (.error (.fault (.onLine
        (.heapLimit m.heapBytes size (m.settings.heapLimit.getD 0)) line)), m) := by
  rw [checkHeapLimit, run_get_bind]
  cases m.fitsHeapLimit size <;> rfl

end Effect

end StackMachine
