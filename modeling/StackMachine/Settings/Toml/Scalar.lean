import StackMachine.Text.Numeral

/-!
# TOML texts and numbers

The four ways to write a text, and integers in four bases. Each reader takes what it needs from
the front of the characters and returns the rest.
-/

namespace StackMachine.Toml

/-- A space or a tab. -/
def isBlank (c : Char) : Bool := c == ' ' || c == '\t'

/-- What a comment may hold, and a text apart from its quotes and escapes: no control characters
other than the tab. -/
def isPlain (c : Char) : Bool := c == '\t' || (0x20 ≤ c.toNat && c.toNat ≠ 0x7F)

/-- The value of a digit in some base up to sixteen. -/
def digitIn? (base : Nat) (c : Char) : Option Nat :=
  let value :=
    if c.isDigit then c.toNat - '0'.toNat
    else if 'a' ≤ c && c ≤ 'f' then c.toNat - 'a'.toNat + 10
    else if 'A' ≤ c && c ≤ 'F' then c.toNat - 'A'.toNat + 10
    else base
  if value < base then some value else none

/-- The character that hexadecimal digits number. -/
def charOf? (digits : List Char) : Option Char := do
  let values ← digits.mapM (digitIn? 16)
  let code := values.foldl (fun n d => 16 * n + d) 0
  if code.isValidChar then some (Char.ofNat code) else none

/-- The character that a letter after a backslash stands for. -/
def escaped? (c : Char) : Option Char :=
  if c == 'b' then some '\x08'
  else if c == 't' then some '\t'
  else if c == 'n' then some '\n'
  else if c == 'f' then some '\x0c'
  else if c == 'r' then some '\r'
  else if c == '"' then some '"'
  else if c == '\\' then some '\\'
  else none

/-- Puts a character before a text that was read. -/
def withChar (c : Option Char) (read : Option (List Char × List Char)) :
    Option (List Char × List Char) := do
  let c ← c
  let (cs, rest) ← read
  return (c :: cs, rest)

/-- The rest of a text in double quotes, on one line. -/
def basicText : List Char → Option (List Char × List Char)
  | '"' :: rest => some ([], rest)
  | '\\' :: 'u' :: a :: b :: c :: d :: rest => withChar (charOf? [a, b, c, d]) (basicText rest)
  | '\\' :: 'U' :: a :: b :: c :: d :: e :: f :: g :: h :: rest =>
    withChar (charOf? [a, b, c, d, e, f, g, h]) (basicText rest)
  | '\\' :: c :: rest => withChar (escaped? c) (basicText rest)
  | c :: rest => if isPlain c then withChar (some c) (basicText rest) else none
  | [] => none

/-- The rest of a text in single quotes, on one line. -/
def literalText : List Char → Option (List Char × List Char)
  | '\'' :: rest => some ([], rest)
  | c :: rest => if isPlain c then withChar (some c) (literalText rest) else none
  | [] => none

/-- Whether only blanks stand before the next line. -/
def endsLine (cs : List Char) : Bool :=
  match cs.dropWhile isBlank with
  | '\n' :: _ => true
  | '\r' :: '\n' :: _ => true
  | _ => false

/-- The rest of a text in three double quotes. Up to two quotes may stand before the closing
ones. After a backslash at the end of a line, blanks and line ends are skipped. -/
def longBasicText (skipping : Bool) : List Char → Option (List Char × List Char)
  | '"' :: '"' :: '"' :: '"' :: '"' :: rest => some (['"', '"'], rest)
  | '"' :: '"' :: '"' :: '"' :: rest => some (['"'], rest)
  | '"' :: '"' :: '"' :: rest => some ([], rest)
  | '\\' :: 'u' :: a :: b :: c :: d :: rest =>
    withChar (charOf? [a, b, c, d]) (longBasicText false rest)
  | '\\' :: 'U' :: a :: b :: c :: d :: e :: f :: g :: h :: rest =>
    withChar (charOf? [a, b, c, d, e, f, g, h]) (longBasicText false rest)
  | '\\' :: c :: rest =>
    if endsLine (c :: rest) then longBasicText true (c :: rest)
    else withChar (escaped? c) (longBasicText false rest)
  | '\r' :: '\n' :: rest =>
    if skipping then longBasicText true rest else withChar (some '\n') (longBasicText false rest)
  | c :: rest =>
    if skipping && (isBlank c || c == '\n') then longBasicText true rest
    else if isPlain c || c == '\n' then withChar (some c) (longBasicText false rest)
    else none
  | [] => none

/-- The rest of a text in three single quotes. -/
def longLiteralText : List Char → Option (List Char × List Char)
  | '\'' :: '\'' :: '\'' :: '\'' :: '\'' :: rest => some (['\'', '\''], rest)
  | '\'' :: '\'' :: '\'' :: '\'' :: rest => some (['\''], rest)
  | '\'' :: '\'' :: '\'' :: rest => some ([], rest)
  | '\r' :: '\n' :: rest => withChar (some '\n') (longLiteralText rest)
  | c :: rest =>
    if isPlain c || c == '\n' then withChar (some c) (longLiteralText rest) else none
  | [] => none

/-- Drops a line end right after the opening quotes of a long text. -/
def dropLineEnd : List Char → List Char
  | '\n' :: rest => rest
  | '\r' :: '\n' :: rest => rest
  | cs => cs

/-- Reads a text on one line: with escapes in double quotes, and as it is in single ones. -/
def shortText? : List Char → Option (List Char × List Char)
  | '"' :: rest => basicText rest
  | '\'' :: rest => literalText rest
  | _ => none

/-- Reads a text in any of its four forms. -/
def text? : List Char → Option (List Char × List Char)
  | '"' :: '"' :: '"' :: rest => longBasicText false (dropLineEnd rest)
  | '\'' :: '\'' :: '\'' :: rest => longLiteralText (dropLineEnd rest)
  | cs => shortText? cs

/-- The number that digits of a base denote. Single underscores may stand between digits. -/
def digits? (base : Nat) : List Char → Option Nat
  | cs =>
    let groups := cs.foldr (fun c groups =>
      match c, groups with
      | '_', groups => [] :: groups
      | c, group :: groups => (c :: group) :: groups
      | c, [] => [[c]]) [[]]
    if groups.any List.isEmpty then none
    else do
      let values ← groups.flatten.mapM (digitIn? base)
      return values.foldl (fun n d => base * n + d) 0

/-- The integer that a word denotes, in 64 bits. Only decimal ones have signs, and they have no
leading zeros. -/
def integer? (word : List Char) : Option Int := do
  let n : Int ← match word with
    | '0' :: 'x' :: digits => (digits? 16 digits).map Int.ofNat
    | '0' :: 'o' :: digits => (digits? 8 digits).map Int.ofNat
    | '0' :: 'b' :: digits => (digits? 2 digits).map Int.ofNat
    | _ =>
      let (negative, digits) := Text.splitSign word
      if digits.head? = some '0' && digits.length ≠ 1 then none
      else (digits? 10 digits).map fun n => if negative then -(n : Int) else n
  if -0x8000000000000000 ≤ n ∧ n < 0x8000000000000000 then some n else none

end StackMachine.Toml
