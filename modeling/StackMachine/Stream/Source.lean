/-!
# Input lines

A machine reads lines from an input of its own, or from the standard input, which all machines
share. The standard input is read through a buffer, a chunk at a time. Whoever reads first takes a
whole chunk, whether or not it is used up.
-/

namespace StackMachine

/-- Where a machine reads from. -/
inductive Source
  /-- From an input of its own: the bytes that are left of it. -/
  | own (rest : List UInt8)
  /-- From the standard input: the bytes taken from it but not used. -/
  | standard (buffer : List UInt8)
  deriving DecidableEq, Repr

instance : Inhabited Source := ⟨.standard []⟩

namespace Source

/-- The number of bytes taken from the standard input at once. -/
def chunk : Nat := 8192

/-- The byte of a line feed. -/
def lineFeed : UInt8 := 10

/-- The bytes up to and including the next line feed, or all that are left, with what is then left
of a buffer and of the supply behind it. -/
def nextLine (buffer supply : List UInt8) : List UInt8 × List UInt8 × List UInt8 :=
  if buffer.contains lineFeed then
    (buffer.takeWhile (· ≠ lineFeed) ++ [lineFeed],
      (buffer.dropWhile (· ≠ lineFeed)).drop 1, supply)
  else
    match supply with
    | [] => (buffer, [], [])
    | byte :: rest =>
      let (line, left) := nextLine (byte :: rest.take (chunk - 1)) (rest.drop (chunk - 1))
      (buffer ++ line, left)
termination_by supply.length

/-- The text of a line without its terminator; it is empty if the line is not UTF-8. -/
def lineText (bytes : List UInt8) : String :=
  match String.fromUTF8? (ByteArray.mk bytes.toArray) with
  | some text =>
    String.ofList ((text.toList.reverse.dropWhile fun c => c == '\n' || c == '\r').reverse)
  | none => ""

/-- Reads one line without its terminator, given what is left of the standard input. At the end of
input the text is empty. -/
def readLine (source : Source) (standardInput : List UInt8) : String × Source × List UInt8 :=
  match source with
  | own rest =>
    let (line, rest, _) := nextLine rest []
    (lineText line, own rest, standardInput)
  | standard buffer =>
    let (line, buffer, standardInput) := nextLine buffer standardInput
    (lineText line, standard buffer, standardInput)

end Source

end StackMachine
