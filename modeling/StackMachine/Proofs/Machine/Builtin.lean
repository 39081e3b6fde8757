import StackMachine.Machine.Run

/-!
# What built-in functions return

Some built-in functions depend on nothing but their arguments. A call of such a function by its name
returns the same value on every machine, and leaves the machine as it is.

## Main definitions

* `Builtin.Returns`: the value that a built-in function returns for some arguments.

## Main results

* `Builtin.ofName?_name`: a built-in function is found under its name.
* `Builtin.returns_of_pure`: a function that only computes returns what it computes.
-/

namespace StackMachine.Builtin

/-- A call of the function by its name returns `result`, on every machine, and changes nothing. -/
def Returns (builtin : Builtin) (arguments : List Value) (result : Value) : Prop :=
  ∀ (m : Machine) (steps : Nat),
    m.callBuiltin steps builtin.name arguments = (.done result, m)

variable {builtin : Builtin} {arguments : List Value} {result : Value}

/-- No two built-in functions share a name. -/
theorem ofName?_name (builtin : Builtin) : ofName? builtin.name = some builtin := by
  cases builtin <;> rfl

/-- A function that only computes with its arguments returns what it computes. -/
theorem returns_of_pure (h : ∀ runner, builtin.call runner arguments = pure result) :
    builtin.Returns arguments result := by
  intro m steps
  rw [Machine.callBuiltin, ofName?_name]
  simp only [h]
  rfl

variable {value : Value}

/-- `int` returns the conversion of its argument to an integer. -/
theorem returns_int (h : Value.toInt (some value) = result) : int.Returns [value] result :=
  returns_of_pure fun _ => congrArg pure h

/-- `string` returns the text of its argument. -/
theorem returns_string (h : Value.toText (some value) = result) : string.Returns [value] result :=
  returns_of_pure fun _ => congrArg pure h

theorem returns_len (h : Value.length (some value) = result) : len.Returns [value] result :=
  returns_of_pure fun _ => congrArg pure h

/-- `substr` returns the part of its text. -/
theorem returns_substr (h : Value.subtext arguments = result) : substr.Returns arguments result :=
  returns_of_pure fun _ => congrArg pure h

end StackMachine.Builtin
