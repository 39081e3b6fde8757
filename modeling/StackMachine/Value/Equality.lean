import StackMachine.Value.Basic

/-!
# Equality of values

Numbers are compared by value: two integers as 64-bit integers, and an integer with a double as
doubles. Pointers are equal if they have the same target. Lists and dictionaries are compared
element by element; values of different kinds are different.
-/

namespace StackMachine.Value

mutual

/-- Whether two values are equal. -/
def equal : Value → Value → Bool
  | list xs, list ys => equalItems xs ys
  | dict xs, dict ys => equalEntries xs ys
  | double x, double y => x.equal y
  | double x, other => other.isInteger && x.equal other.toDouble
  | other, double y => other.isInteger && other.toDouble.equal y
  | bool a, bool b => a == b
  | str a, str b => a == b
  | null, null => true
  | pointer a, pointer b => a.target = b.target
  | left, right =>
    match left.integer?, right.integer? with
    | some a, some b => a == b
    | _, _ => false

/-- Whether two lists are equal item by item. -/
def equalItems : List Value → List Value → Bool
  | [], [] => true
  | x :: xs, y :: ys => equal x y && equalItems xs ys
  | _, _ => false

/-- Whether two dictionaries have the same keys with equal values. -/
def equalEntries : List (String × Value) → List (String × Value) → Bool
  | [], [] => true
  | (j, x) :: xs, (k, y) :: ys => j == k && equal x y && equalEntries xs ys
  | _, _ => false

end

end StackMachine.Value
