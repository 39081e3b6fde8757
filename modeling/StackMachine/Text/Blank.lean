/-!
# Blank characters, lines and words

Blank means the Unicode property `White_Space`. Trimming, splitting a text into words and
splitting it into lines are all stated on lists of characters.
-/

namespace StackMachine.Text

/-- Whether a character has the Unicode property `White_Space`. -/
def isBlank (c : Char) : Bool :=
  let n := c.toNat
  (9 ≤ n && n ≤ 13) || n == 0x20 || n == 0x85 || n == 0xA0 || n == 0x1680 ||
    (0x2000 ≤ n && n ≤ 0x200A) || n == 0x2028 || n == 0x2029 || n == 0x202F ||
    n == 0x205F || n == 0x3000

/-- Removes blanks at the front. -/
def trimFront (cs : List Char) : List Char := cs.dropWhile isBlank

/-- Removes the characters satisfying `p` at the back. -/
def dropBack (p : Char → Bool) (cs : List Char) : List Char :=
  (cs.reverse.dropWhile p).reverse

/-- Removes blanks at both ends. -/
def trim (cs : List Char) : List Char := dropBack isBlank (trimFront cs)

/-- Removes every occurrence of `c` at both ends. -/
def trimChar (c : Char) (cs : List Char) : List Char :=
  dropBack (· == c) (cs.dropWhile (· == c))

/-- Cuts a text at every character satisfying `p`; there is one piece more than cuts. -/
def splitAll (p : Char → Bool) : List Char → List (List Char)
  | [] => [[]]
  | c :: cs =>
    if p c then [] :: splitAll p cs
    else match splitAll p cs with
      | [] => [[c]]
      | piece :: pieces => (c :: piece) :: pieces

/-- The maximal runs of characters that are not blank. -/
def words (cs : List Char) : List (List Char) :=
  (splitAll isBlank cs).filter fun piece => !piece.isEmpty

/-- The line before a line feed loses one carriage return at its end. -/
def dropReturn (line : List Char) : List Char :=
  match line.reverse with
  | '\r' :: rest => rest.reverse
  | _ => line

/-- The lines of a text. A line ends at a line feed, which may follow a carriage return; a text
that ends in a line feed has no empty line after it. -/
def lines (cs : List Char) : List (List Char) :=
  match (splitAll (· == '\n') cs).reverse with
  | [] => []
  | last :: earlier =>
    (earlier.map dropReturn).reverse ++ (if last.isEmpty then [] else [last])

/-- The part before the first character satisfying `p`. -/
def before (p : Char → Bool) (s : String) : String :=
  String.ofList (s.toList.takeWhile fun c => !p c)

/-- Cuts `cs` around the first occurrence of `pattern`, if it occurs. -/
def cutAt (pattern : List Char) : List Char → Option (List Char × List Char)
  | [] => if pattern.isEmpty then some ([], []) else none
  | c :: cs =>
    if pattern.isPrefixOf (c :: cs) then some ([], (c :: cs).drop pattern.length)
    else (cutAt pattern cs).map fun cut => (c :: cut.1, cut.2)

/-- Whether `pattern` occurs in `cs`. -/
def occurs (pattern cs : List Char) : Bool := (cutAt pattern cs).isSome

/-- Joins texts with a separator between neighbours. -/
def join (separator : String) (texts : List String) : String :=
  separator.intercalate texts

/-- Pads a text on the left with `fill` up to `width` characters. -/
def padLeft (fill : Char) (width : Nat) (cs : List Char) : List Char :=
  List.replicate (width - cs.length) fill ++ cs

end StackMachine.Text
