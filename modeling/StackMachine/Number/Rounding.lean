/-!
# Rounding a quotient

The one rounding rule of the library: a quotient goes to the nearest integer, and a quotient
halfway between two integers goes to the even one.
-/

namespace StackMachine.Number

/-- The integer nearest to `num / den`; a half goes to the even neighbour. -/
def roundDiv (num den : Nat) : Nat :=
  let quotient := num / den
  let twice := 2 * (num % den)
  if twice < den then quotient
  else if den < twice then quotient + 1
  else if quotient % 2 = 0 then quotient
  else quotient + 1

/-- The integer nearest to `num / den * base ^ power`; a half goes to the even neighbour. -/
def roundScaled (num den base : Nat) (power : Int) : Nat :=
  match power with
  | .ofNat k => roundDiv (num * Nat.pow base k) den
  | .negSucc k => roundDiv num (den * Nat.pow base (k + 1))

end StackMachine.Number
