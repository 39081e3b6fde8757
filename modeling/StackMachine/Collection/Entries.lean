/-!
# Entries in key order

Finite maps as lists of key–value pairs in strictly increasing key order. The order makes a
map's text unique and lets two maps be compared pair by pair. Every operation keeps the order,
so a map built from the empty list by `insert` and `erase` is always sorted.
-/

namespace StackMachine

/-- A finite map from `κ` to `ν`, kept as pairs in increasing key order. -/
abbrev Entries (κ ν : Type) := List (κ × ν)

namespace Entries

variable {κ ν : Type}

/-- The value stored under `key`, if any. -/
def find? [DecidableEq κ] (key : κ) : Entries κ ν → Option ν
  | [] => none
  | (k, v) :: rest => if k = key then some v else find? key rest

/-- Whether a value is stored under `key`. -/
def has [DecidableEq κ] (key : κ) (entries : Entries κ ν) : Bool :=
  (find? key entries).isSome

/-- Stores `value` under `key`, replacing what was there. -/
def insert [DecidableEq κ] [LT κ] [DecidableLT κ] (key : κ) (value : ν) :
    Entries κ ν → Entries κ ν
  | [] => [(key, value)]
  | (k, v) :: rest =>
    if key = k then (key, value) :: rest
    else if key < k then (key, value) :: (k, v) :: rest
    else (k, v) :: insert key value rest

/-- Removes what is stored under `key`. -/
def erase [DecidableEq κ] (key : κ) (entries : Entries κ ν) : Entries κ ν :=
  entries.filter fun entry => entry.1 ≠ key

/-- The keys in increasing order. -/
def keys (entries : Entries κ ν) : List κ := entries.map (·.1)

/-- The values in the order of their keys. -/
def values (entries : Entries κ ν) : List ν := entries.map (·.2)

/-- The sum of a measure over the values. -/
def total (measure : ν → Nat) (entries : Entries κ ν) : Nat :=
  entries.foldr (fun entry sum => measure entry.2 + sum) 0

/-- Collects pairs given in any order; of two pairs with one key the later one stays. -/
def ofList [DecidableEq κ] [LT κ] [DecidableLT κ] (pairs : List (κ × ν)) : Entries κ ν :=
  pairs.foldl (fun entries pair => insert pair.1 pair.2 entries) []

/-- Keys stand in strictly increasing order. -/
def Sorted [LT κ] (entries : Entries κ ν) : Prop :=
  entries.Pairwise fun a b => a.1 < b.1

/-- A value is stored under `key` exactly when `key` is among the keys. -/
theorem has_iff_mem_keys [DecidableEq κ] {key : κ} {entries : Entries κ ν} :
    has key entries = true ↔ key ∈ keys entries := by
  induction entries with
  | nil => simp [has, find?, keys]
  | cons entry rest ih =>
    by_cases h : entry.1 = key
    · simp [has, find?, keys, h]
    · have hne : ¬key = entry.1 := fun heq => h heq.symm
      simpa [has, find?, keys, h, hne] using ih

end Entries

end StackMachine
