import Mathlib.Data.List.Nodup
import Mathlib.Order.Lattice
import StackMachine.Collection.Entries

/-!
# Finite maps

What looking up, storing and filtering do to one another, and that storing keeps the keys in
strictly increasing order.

## Main results

* `find?_insert`: after storing, the key just stored gives the new value and every other key what
  it gave before.
* `find?_filter_key` and `find?_filterMap`: filtering by keys hides exactly the keys that are left
  out, and changing pairs changes what is found under their keys.
* `sorted_insert` and `Sorted.nodup_keys`: storing keeps the order, so no key occurs twice.
* `Sorted.ext`: a sorted map is determined by what is found in it.
* `mem_ofList`: a map made from pairs has no other pairs.
* `perm_insert` and `perm_erase`: storing under a new key adds one pair, and removing a key takes
  away the one pair found under it.
-/

namespace StackMachine.Entries

variable {κ ν : Type}

theorem keys_filter_key (keep : κ → Bool) (entries : Entries κ ν) :
    keys (entries.filter fun entry => keep entry.1) = entries.keys.filter keep := by
  rw [keys, keys, List.filter_map]
  rfl

section Lookup

variable [DecidableEq κ]

@[simp]
theorem find?_nil (key : κ) : find? key ([] : Entries κ ν) = none := rfl

theorem find?_cons (key : κ) (entry : κ × ν) (rest : Entries κ ν) :
    find? key (entry :: rest) = if entry.1 = key then some entry.2 else find? key rest := rfl

/-- What is found under a key is one of the pairs. -/
theorem mem_of_find? {key : κ} {value : ν} {entries : Entries κ ν}
    (h : find? key entries = some value) : (key, value) ∈ entries := by
  induction entries with
  | nil => simp at h
  | cons entry rest ih =>
    rw [find?_cons] at h
    split at h
    next hkey =>
      obtain rfl := Option.some.inj h
      simp [← hkey]
    next => exact List.mem_cons_of_mem _ (ih h)

/-- Among distinct keys, every pair is found under its key. -/
theorem find?_of_mem {key : κ} {value : ν} {entries : Entries κ ν}
    (hnodup : entries.keys.Nodup) (h : (key, value) ∈ entries) :
    find? key entries = some value := by
  induction entries with
  | nil => simp at h
  | cons entry rest ih =>
    rw [keys, List.map_cons, List.nodup_cons] at hnodup
    rw [find?_cons]
    rcases List.mem_cons.mp h with rfl | hrest
    · simp
    · have hne : entry.1 ≠ key := by
        rintro rfl
        exact hnodup.1 (List.mem_map.mpr ⟨_, hrest, rfl⟩)
      rw [if_neg hne]
      exact ih hnodup.2 hrest

/-- What is not found has no key. -/
theorem find?_eq_none_iff {key : κ} {entries : Entries κ ν} :
    find? key entries = none ↔ key ∉ entries.keys := by
  rw [← has_iff_mem_keys, has]
  cases find? key entries <;> simp

/-- Filtering by keys hides exactly the keys that are left out. -/
theorem find?_filter_key (keep : κ → Bool) (key : κ) (entries : Entries κ ν) :
    find? key (entries.filter fun entry => keep entry.1) =
      if keep key then find? key entries else none := by
  induction entries with
  | nil => simp
  | cons entry rest ih =>
    rw [find?_cons, List.filter_cons]
    by_cases hkey : entry.1 = key
    · subst hkey
      cases hkeep : keep entry.1 <;> simp_all [find?_cons]
    · cases hkeep : keep entry.1 <;> simp_all [find?_cons]

/-- Among distinct keys, what is found after pairs were changed or left out is what became of the
pair found before. -/
theorem find?_filterMap {change : κ × ν → Option (κ × ν)}
    (hkey : ∀ entry changed, change entry = some changed → changed.1 = entry.1) (key : κ)
    {entries : Entries κ ν} (hnodup : entries.keys.Nodup) :
    find? key (entries.filterMap change) =
      (find? key entries).bind fun value => (change (key, value)).map (·.2) := by
  induction entries with
  | nil => rfl
  | cons entry rest ih =>
    rw [keys, List.map_cons, List.nodup_cons] at hnodup
    have hrest := ih hnodup.2
    rw [find?_cons]
    by_cases hentry : entry.1 = key
    · subst hentry
      -- No other pair has the key, so there is no second chance if this one is left out.
      have hnone : find? entry.1 rest = none := find?_eq_none_iff.mpr hnodup.1
      rw [hnone] at hrest
      rw [if_pos rfl, Option.bind_some]
      cases hchange : change entry with
      | none =>
        rw [List.filterMap_cons_none hchange, hrest]
        rfl
      | some changed =>
        rw [List.filterMap_cons_some hchange, find?_cons, if_pos (hkey _ _ hchange)]
        rfl
    · rw [if_neg hentry]
      cases hchange : change entry with
      | none => rw [List.filterMap_cons_none hchange, hrest]
      | some changed =>
        have hother : changed.1 ≠ key := by
          rw [hkey _ _ hchange]
          exact hentry
        rw [List.filterMap_cons_some hchange, find?_cons, if_neg hother, hrest]

/-- Erasing a key makes it not found, and leaves the others. -/
theorem find?_erase (key other : κ) (entries : Entries κ ν) :
    find? other (erase key entries) = if key = other then none else find? other entries := by
  rw [erase, find?_filter_key (fun k => decide (k ≠ key))]
  by_cases h : key = other
  · simp [h]
  · simp [h, Ne.symm h]

theorem has_erase (key other : κ) (entries : Entries κ ν) :
    has other (erase key entries) = (decide (key ≠ other) && has other entries) := by
  rw [has, find?_erase, has]
  by_cases h : key = other <;> simp [h]

/-- Removing a key that is not there changes nothing. -/
theorem erase_eq_self {key : κ} {entries : Entries κ ν} (h : has key entries = false) :
    erase key entries = entries := by
  rw [erase, List.filter_eq_self]
  intro entry hentry
  have hne : entry.1 ≠ key := by
    rintro rfl
    have hmem : entry.1 ∈ entries.keys := List.mem_map.mpr ⟨entry, hentry, rfl⟩
    rw [has_iff_mem_keys.mpr hmem] at h
    cases h
  simpa using hne

/-- Among distinct keys, removing one takes away the one pair found under it. -/
theorem perm_erase {key : κ} {value : ν} {entries : Entries κ ν}
    (hnodup : entries.keys.Nodup) (h : find? key entries = some value) :
    entries.Perm ((key, value) :: erase key entries) := by
  induction entries with
  | nil => simp at h
  | cons entry rest ih =>
    rw [keys, List.map_cons, List.nodup_cons] at hnodup
    rw [find?_cons] at h
    by_cases hkey : entry.1 = key
    · rw [if_pos hkey] at h
      obtain rfl := Option.some.inj h
      subst hkey
      have hgone : has entry.1 rest = false := by
        rw [Bool.eq_false_iff, Ne, has_iff_mem_keys]
        exact hnodup.1
      have hsame : erase entry.1 (entry :: rest) = rest := by
        rw [erase, List.filter_cons_of_neg (by simp)]
        exact erase_eq_self hgone
      rw [hsame]
    · rw [if_neg hkey] at h
      have hkept : erase key (entry :: rest) = entry :: erase key rest :=
        List.filter_cons_of_pos (by simpa using hkey)
      rw [hkept]
      exact ((ih hnodup.2 h).cons entry).trans (List.Perm.swap _ _ _)

end Lookup

section Store

variable [DecidableEq κ] [LT κ] [DecidableLT κ]

/-- After storing, the key just stored gives the new value and every other key what it gave
before. -/
theorem find?_insert (key other : κ) (value : ν) (entries : Entries κ ν) :
    find? other (insert key value entries) =
      if key = other then some value else find? other entries := by
  induction entries with
  | nil => simp [insert, find?_cons]
  | cons entry rest ih =>
    obtain ⟨k, v⟩ := entry
    unfold insert
    split
    next heq =>
      subst heq
      by_cases h : key = other <;> simp [find?_cons, h]
    next hne =>
      split
      next => simp [find?_cons]
      next =>
        rw [find?_cons, find?_cons, ih]
        by_cases hk : k = other
        · have hother : key ≠ other := fun h => hne (h.trans hk.symm)
          simp [hk, hother]
        · simp [hk]

/-- Inserting a key puts it in, and leaves the others. -/
theorem has_insert (key other : κ) (value : ν) (entries : Entries κ ν) :
    has other (insert key value entries) = (key = other || has other entries) := by
  rw [has, find?_insert, has]
  by_cases h : key = other <;> simp [h]

/-- Storing adds one pair; the other pairs were there before. -/
theorem mem_insert {key : κ} {value : ν} {entry : κ × ν} {entries : Entries κ ν}
    (h : entry ∈ insert key value entries) : entry = (key, value) ∨ entry ∈ entries := by
  induction entries with
  | nil => simpa [insert] using h
  | cons first rest ih =>
    unfold insert at h
    split at h
    next =>
      rcases List.mem_cons.mp h with h | h
      · exact .inl h
      · exact .inr (List.mem_cons_of_mem _ h)
    next =>
      split at h
      next => simpa using h
      next =>
        rcases List.mem_cons.mp h with h | h
        · exact .inr (h ▸ List.mem_cons_self)
        · exact (ih h).imp_right (List.mem_cons_of_mem _)

/-- Storing under a new key adds one pair. -/
theorem perm_insert {key : κ} (value : ν) {entries : Entries κ ν} (h : has key entries = false) :
    (insert key value entries).Perm ((key, value) :: entries) := by
  induction entries with
  | nil => exact List.Perm.refl _
  | cons first rest ih =>
    have hfirst : key ≠ first.1 := by
      rintro rfl
      simp [has, find?_cons] at h
    have hrest : has key rest = false := by
      simpa [has, find?_cons, Ne.symm hfirst] using h
    unfold insert
    rw [if_neg hfirst]
    split
    next => exact List.Perm.refl _
    next => exact ((ih hrest).cons first).trans (List.Perm.swap _ _ _)

/-- A map made from pairs has no other pairs. -/
theorem mem_ofList {pairs : List (κ × ν)} {entry : κ × ν} (h : entry ∈ ofList pairs) :
    entry ∈ pairs := by
  -- The pairs are stored one after the other, in a map that is empty at first.
  have hstored : ∀ (pairs : List (κ × ν)) (stored : Entries κ ν),
      entry ∈ pairs.foldl (fun entries pair => insert pair.1 pair.2 entries) stored →
        entry ∈ stored ∨ entry ∈ pairs := by
    intro pairs
    induction pairs with
    | nil => exact fun stored h => .inl h
    | cons pair pairs ih =>
      intro stored h
      rcases ih _ h with h | h
      · rcases mem_insert h with h | h
        · exact .inr (h ▸ List.mem_cons_self)
        · exact .inl h
      · exact .inr (List.mem_cons_of_mem _ h)
  exact (hstored pairs [] h).resolve_left List.not_mem_nil

end Store

section Order

variable [LinearOrder κ]

/-- Storing keeps the keys in strictly increasing order. -/
theorem sorted_insert (key : κ) (value : ν) {entries : Entries κ ν} (h : entries.Sorted) :
    (insert key value entries).Sorted := by
  induction entries with
  | nil => simp [insert, Sorted]
  | cons first rest ih =>
    obtain ⟨hfirst, hrest⟩ := List.pairwise_cons.mp h
    unfold insert
    split
    next heq =>
      subst heq
      exact List.pairwise_cons.mpr ⟨hfirst, hrest⟩
    next hne =>
      split
      next hlt =>
        refine List.pairwise_cons.mpr ⟨fun entry hentry => ?_, h⟩
        rcases List.mem_cons.mp hentry with rfl | hentry
        · exact hlt
        · exact lt_trans hlt (hfirst entry hentry)
      next hnlt =>
        refine List.pairwise_cons.mpr ⟨fun entry hentry => ?_, ih hrest⟩
        rcases mem_insert hentry with rfl | hentry
        · exact lt_of_le_of_ne (not_lt.mp hnlt) (Ne.symm hne)
        · exact hfirst entry hentry

/-- No key of a sorted map occurs twice. -/
theorem Sorted.nodup_keys {entries : Entries κ ν} (h : entries.Sorted) : entries.keys.Nodup := by
  rw [keys, List.Nodup, List.pairwise_map]
  exact h.imp fun hlt => ne_of_lt hlt

/-- A sorted map is determined by what is found in it. -/
theorem Sorted.ext {entries others : Entries κ ν} (hentries : entries.Sorted)
    (hothers : others.Sorted) (h : ∀ key, find? key entries = find? key others) :
    entries = others := by
  have hmem : ∀ entry, entry ∈ entries ↔ entry ∈ others := by
    intro entry
    constructor
    · intro hentry
      exact mem_of_find? ((h entry.1).symm.trans (find?_of_mem hentries.nodup_keys hentry))
    · intro hentry
      exact mem_of_find? ((h entry.1).trans (find?_of_mem hothers.nodup_keys hentry))
  have hperm : List.Perm entries others :=
    (List.perm_ext_iff_of_nodup hentries.nodup_keys.of_map hothers.nodup_keys.of_map).mpr hmem
  exact hperm.eq_of_pairwise
    (fun a b _ _ hlt hgt => absurd hgt (lt_asymm hlt)) hentries hothers

end Order

end StackMachine.Entries
