import StackMachine.Settings.Toml.Scalar
import StackMachine.Settings.Toml.Table

/-!
# TOML documents

A document is read line by line: headers, keys with values, comments and blank lines. Values may
be nested, and arrays may go on over several lines.
-/

namespace StackMachine.Toml

/-- Drops spaces and tabs. -/
def dropBlanks (cs : List Char) : List Char := cs.dropWhile isBlank

/-- What follows a line end, after blanks and a comment. The end of the document ends a line. -/
def afterLine? (cs : List Char) : Option (List Char) :=
  let cs := dropBlanks cs
  let cs := if cs.head? = some '#' then cs.dropWhile isPlain else cs
  match cs with
  | [] => some []
  | '\n' :: rest => some rest
  | '\r' :: '\n' :: rest => some rest
  | _ => none

/-- Drops blanks, line ends and comments. -/
def dropSpace (inComment : Bool) : List Char → List Char
  | [] => []
  | '\r' :: '\n' :: rest => dropSpace false rest
  | c :: rest =>
    if c == '\n' then dropSpace false rest
    else if inComment then if isPlain c then dropSpace true rest else c :: rest
    else if isBlank c then dropSpace false rest
    else if c == '#' then dropSpace true rest
    else c :: rest

/-- The characters of a bare key. -/
def isBare (c : Char) : Bool := c.isAlphanum || c == '_' || c == '-'

/-- Reads one part of a key, bare or quoted. -/
def keyPart? (cs : List Char) : Option (String × List Char) :=
  let bare := cs.takeWhile isBare
  if !bare.isEmpty then some (String.ofList bare, cs.dropWhile isBare)
  else (shortText? cs).map fun read => (String.ofList read.1, read.2)

/-- Reads the parts of a key, at most `count`, with blanks around them. -/
def keyParts? : (count : Nat) → List Char → Option (List String × List Char)
  | 0, _ => none
  | count + 1, cs => do
    let (part, rest) ← keyPart? (dropBlanks cs)
    match dropBlanks rest with
    | '.' :: rest =>
      let (parts, rest) ← keyParts? count rest
      return (part :: parts, rest)
    | rest => return ([part], rest)

/-- Reads a key: the path to its table, and its last part. -/
def key? (cs : List Char) : Option ((List String × String) × List Char) := do
  let (parts, rest) ← keyParts? cs.length cs
  let last ← parts.getLast?
  return ((parts.dropLast, last), rest)

/-- The characters of a word that is a truth value or a number. -/
def isWord (c : Char) : Bool := isBare c || c == '+' || c == '.' || c == ':'

/-- Reads a truth value or an integer. -/
def word? (cs : List Char) : Option (Node × List Char) :=
  let word := cs.takeWhile isWord
  let rest := cs.dropWhile isWord
  if word = "true".toList then some (.truth true, rest)
  else if word = "false".toList then some (.truth false, rest)
  else (integer? word).map fun n => (.integer n, rest)

mutual

/-- Reads a value that is nested at most `depth` deep. -/
def value? : (depth : Nat) → List Char → Option (Node × List Char)
  | 0, _ => none
  | depth + 1, cs =>
    match cs with
    | '[' :: rest =>
      match dropSpace false rest with
      | ']' :: rest => some (.array [], rest)
      | rest => (items? depth rest).map fun read => (.array read.1, read.2)
    | '\x7b' :: rest =>
      match dropBlanks rest with
      | '\x7d' :: rest => some (.table .inline [], rest)
      | rest => (entries? depth [] rest).map fun read => (.table .inline read.1, read.2)
    | '"' :: _ => (text? cs).map fun read => (.text (String.ofList read.1), read.2)
    | '\'' :: _ => (text? cs).map fun read => (.text (String.ofList read.1), read.2)
    | _ => word? cs

/-- Reads the items of an array up to its end. A comma may stand after the last one. -/
def items? : (depth : Nat) → List Char → Option (List Node × List Char)
  | 0, _ => none
  | depth + 1, cs => do
    let (item, rest) ← value? depth cs
    match dropSpace false rest with
    | ']' :: rest => return ([item], rest)
    | ',' :: rest =>
      match dropSpace false rest with
      | ']' :: rest => return ([item], rest)
      | rest =>
        let (items, rest) ← items? depth rest
        return (item :: items, rest)
    | _ => none

/-- Reads the entries of an inline table up to its end, in addition to those read before. -/
def entries? : (depth : Nat) → Table → List Char → Option (Table × List Char)
  | 0, _, _ => none
  | depth + 1, table, cs => do
    let ((path, key), rest) ← key? cs
    let ('=' :: rest) := rest | none
    let (node, rest) ← value? depth (dropBlanks rest)
    let table ← table.assign path key node
    match dropBlanks rest with
    | '\x7d' :: rest => return (table, rest)
    | ',' :: rest => entries? depth table rest
    | _ => none

end

/-- Reads the lines of a document, at most `count`, into the table `root`. Keys belong to the table
at the path `current`, which the last header opened. -/
def lines? : (count : Nat) → (root : Table) → (current : List String) → List Char → Option Table
  | 0, _, _, _ => none
  | count + 1, root, current, cs =>
    match dropBlanks cs with
    | [] => some root
    | '[' :: rest => do
      let ((path, key), rest) ← key? rest
      let (']' :: rest) := rest | none
      let rest ← afterLine? rest
      let root ← root.openTable path key
      lines? count root (path ++ [key]) rest
    | cs =>
      match afterLine? cs with
      | some rest => lines? count root current rest
      | none => do
        let ((path, key), rest) ← key? cs
        let ('=' :: rest) := rest | none
        let (node, rest) ← value? rest.length (dropBlanks rest)
        let rest ← afterLine? rest
        let root ← root.assignIn current path key node
        lines? count root current rest

/-- The table that a document spells. There is none if it is not TOML, and none if it holds an
array of tables, a floating-point number or a date. -/
def read? (text : String) : Option Table :=
  let cs := text.toList
  let cs := if cs.head? = some '\ufeff' then cs.drop 1 else cs
  lines? (cs.length + 1) [] [] cs

end StackMachine.Toml
