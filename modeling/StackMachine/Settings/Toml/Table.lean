/-!
# TOML tables

The tree that a TOML document spells, and the two ways in which a document adds to it: a header
opens a table, and a key, which may be dotted, gets a value. A table remembers how it came about,
because that decides whether it may be opened or extended later.
-/

namespace StackMachine.Toml

/-- How a table came about. -/
inductive Standing
  /-- It was written as a value. -/
  | inline
  /-- A header of its own opened it. -/
  | opened
  /-- A header below it needs it. -/
  | implied
  /-- A dotted key needs it. -/
  | dotted
  deriving DecidableEq, Repr, Inhabited

/-- A node of the tree. Floating-point numbers and dates have no node: no setting takes one. -/
inductive Node
  /-- A text. -/
  | text (s : String)
  /-- An integer. -/
  | integer (n : Int)
  /-- A truth value. -/
  | truth (b : Bool)
  /-- An array. -/
  | array (items : List Node)
  /-- A table, with its keys in the order of their appearance. -/
  | table (standing : Standing) (entries : List (String × Node))
  deriving Repr, Inhabited

/-- The entries of a table. -/
abbrev Table := List (String × Node)

namespace Table

/-- The node under a key. -/
def get? (table : Table) (key : String) : Option Node :=
  (table.find? fun entry => entry.1 == key).map (·.2)

/-- Puts a node under a key, in place of the one that was there. -/
def put (table : Table) (key : String) (node : Node) : Table :=
  if (table.get? key).isSome then
    table.map fun entry => if entry.1 == key then (key, node) else entry
  else table ++ [(key, node)]

/-- Edits the table at a path of keys. Tables that are missing on the way are created, by a dotted
key if `dotted`. A dotted key does not go through tables that a header opened, and nothing goes
through values. -/
def edit (dotted : Bool) (change : Standing → Table → Option Table) :
    (path : List String) → Standing → Table → Option Table
  | [], standing, table => change standing table
  | key :: path, _, table => do
    let (standing, child) ← match table.get? key with
      | none => some (if dotted then Standing.dotted else .implied, [])
      | some (.table .inline _) => none
      | some (.table .opened entries) => if dotted then none else some (.opened, entries)
      | some (.table standing entries) => some (standing, entries)
      | some _ => none
    let child ← edit dotted change path standing child
    return table.put key (.table standing child)

/-- Gives a new key a value. The table at the end of a dotted key must come from dotted keys. -/
def assign (table : Table) (path : List String) (key : String) (node : Node) : Option Table :=
  table.edit true (fun standing entries =>
    if (!path.isEmpty && standing ≠ .dotted) || (entries.get? key).isSome then none
    else some (entries.put key node)) path .opened

/-- Opens the table at a path, which is new or was only implied. -/
def openTable (table : Table) (path : List String) (key : String) : Option Table :=
  table.edit false (fun _ entries =>
    match entries.get? key with
    | none => some (entries.put key (.table .opened []))
    | some (.table .implied children) => some (entries.put key (.table .opened children))
    | some _ => none) path .opened

/-- Gives a key a value in the table at a path that was opened before. -/
def assignIn (table : Table) (current path : List String) (key : String) (node : Node) :
    Option Table :=
  table.edit false (fun _ entries => assign entries path key node) current .opened

end Table

end StackMachine.Toml
