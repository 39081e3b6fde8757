import Mathlib.Data.Int.Order.Basic
import StackMachine.Memory.Objects
import StackMachine.Proofs.Memory.Reachability

/-!
# Tables whose numbers are used once

Managed objects, raw blocks and open files are numbered in the order of their creation, and so are
the objects of the collector. A number is never handed out twice: the next one only grows, and
what is removed does not come back.

## Main definitions

* `Numbered.WellFormed`: numbers are distinct and below the next one.
* `Numbered.Succeeds` and `Collector.Succeeds`: used numbers stay used, and none comes back.
* `Collector.withRoots`: the collector with given handles as its only roots.

## Main results

* `Numbered.WellFormed.values_add` and `Numbered.WellFormed.values_remove`: adding and removing
  concern one entry and leave the others.
* `Collector.withRoots_eq`: only what is on the heap becomes a root, and nothing else changes.
* `Collector.values_discard`: what is discarded and what is kept make up the heap.
-/

namespace StackMachine

/-! ### Numbered tables -/

namespace Numbered

variable {ν : Type} {table : Numbered ν}

/-- Numbers are distinct, and the next one is new. -/
structure WellFormed (table : Numbered ν) : Prop where
  /-- The entries are kept in the order of their numbers. -/
  sorted : table.entries.Sorted
  /-- The next number is above all others. -/
  number_lt : ∀ number ∈ table.entries.keys, number < table.next

theorem has_iff {number : Int} : table.has number = true ↔ number ∈ table.entries.keys :=
  Entries.has_iff_mem_keys

/-- Adding an entry takes the next number into use. -/
theorem has_add (table : Numbered ν) (entry : ν) (number : Int) :
    (table.add entry).2.has number = (table.next = number || table.has number) :=
  Entries.has_insert _ _ _ _

/-- Removing an entry gives up its number and no other. -/
theorem has_remove (table : Numbered ν) (number other : Int) :
    (table.remove number).has other = (decide (number ≠ other) && table.has other) :=
  Entries.has_erase _ _ _

theorem has_set (table : Numbered ν) (number other : Int) (entry : ν) :
    (table.set number entry).has other = (number = other || table.has other) :=
  Entries.has_insert _ _ _ _

theorem has_of_get? {number : Int} {entry : ν} (h : table.get? number = some entry) :
    table.has number = true :=
  Option.isSome_iff_exists.mpr ⟨entry, h⟩

theorem get?_eq_none {number : Int} (h : table.has number = false) : table.get? number = none :=
  Option.isNone_iff_eq_none.mp (Option.isSome_eq_false_iff.mp h)

/-- Removing what is not there changes nothing. -/
theorem remove_eq_self {number : Int} (h : table.has number = false) :
    table.remove number = table := by
  rw [remove, Entries.erase_eq_self h]

/-- An empty table is well-formed, whatever its next number is. -/
theorem wellFormed_of_entries_nil (h : table.entries = []) : table.WellFormed :=
  ⟨by rw [h]; exact List.Pairwise.nil, by simp [h, Entries.keys]⟩

/-- There is no entry under the next number yet. -/
theorem WellFormed.has_next (h : table.WellFormed) : table.has table.next = false := by
  rw [Bool.eq_false_iff, Ne, has_iff]
  intro hmem
  exact lt_irrefl _ (h.number_lt _ hmem)

/-- A new entry has the largest number of all, and the next number is behind it. -/
theorem WellFormed.add (h : table.WellFormed) (entry : ν) : (table.add entry).2.WellFormed where
  sorted := Entries.sorted_insert _ _ h.sorted
  number_lt number hmem := by
    rw [← has_iff, has_add, Bool.or_eq_true, decide_eq_true_eq, has_iff] at hmem
    rcases hmem with rfl | hmem
    · exact Int.lt_succ _
    · exact lt_trans (h.number_lt number hmem) (Int.lt_succ _)

/-- Replacing an entry keeps the numbers in use. -/
theorem WellFormed.set (h : table.WellFormed) {number : Int} (hhas : table.has number = true)
    (entry : ν) : (table.set number entry).WellFormed where
  sorted := Entries.sorted_insert _ _ h.sorted
  number_lt other hmem := by
    rw [← has_iff, has_set, Bool.or_eq_true, decide_eq_true_eq, has_iff] at hmem
    rcases hmem with rfl | hmem
    · exact h.number_lt _ (has_iff.mp hhas)
    · exact h.number_lt other hmem

theorem WellFormed.remove (h : table.WellFormed) (number : Int) :
    (table.remove number).WellFormed where
  sorted := h.sorted.filter _
  number_lt other hmem := by
    rw [← has_iff, has_remove, Bool.and_eq_true, has_iff] at hmem
    exact h.number_lt other hmem.2

/-- A new entry is the only one that is added. -/
theorem WellFormed.values_add (h : table.WellFormed) (entry : ν) :
    (table.add entry).2.entries.values.Perm (entry :: table.entries.values) :=
  (Entries.perm_insert entry h.has_next).map _

/-- The entry under a number is the only one that is removed. -/
theorem WellFormed.values_remove (h : table.WellFormed) {number : Int} {entry : ν}
    (hget : table.get? number = some entry) :
    table.entries.values.Perm (entry :: (table.remove number).entries.values) :=
  (Entries.perm_erase h.sorted.nodup_keys hget).map _

/-- The numbers used stay used, and no number used before comes back. -/
structure Succeeds (table after : Numbered ν) : Prop where
  /-- The next number does not fall. -/
  next_le : table.next ≤ after.next
  /-- A used number that is there now was there before. -/
  has_of_has : ∀ number < table.next, after.has number = true → table.has number = true

theorem Succeeds.refl (table : Numbered ν) : table.Succeeds table := ⟨le_refl _, fun _ _ h => h⟩

/-- A new entry gets a number that was never used. -/
theorem succeeds_add (table : Numbered ν) (entry : ν) : table.Succeeds (table.add entry).2 where
  next_le := le_of_lt (Int.lt_succ _)
  has_of_has number hlt hhas := by
    -- The number added is the next one, which was not used before.
    rw [has_add, Bool.or_eq_true, decide_eq_true_eq] at hhas
    exact hhas.resolve_left fun h => absurd hlt (by rw [h]; exact lt_irrefl _)

/-- Replacing an entry uses no other number. -/
theorem succeeds_set {number : Int} (hhas : table.has number = true) (entry : ν) :
    table.Succeeds (table.set number entry) where
  next_le := le_refl _
  has_of_has other _ hother := by
    rw [has_set, Bool.or_eq_true, decide_eq_true_eq] at hother
    rcases hother with rfl | hother
    · exact hhas
    · exact hother

/-- Removing an entry does not make its number the next one. -/
theorem succeeds_remove (table : Numbered ν) (number : Int) :
    table.Succeeds (table.remove number) where
  next_le := le_refl _
  has_of_has other _ hother := by
    rw [has_remove, Bool.and_eq_true] at hother
    exact hother.2

/-- Even clearing a table does not start the numbers again. -/
theorem succeeds_clear (table : Numbered ν) : table.Succeeds table.clear where
  next_le := le_refl _
  has_of_has _ _ hother := by simp [clear, has, Entries.has] at hother

end Numbered

/-! ### The collector as one of the tables -/

namespace Collector

variable {c : Collector}

/-- The collector with these handles as its only roots, as far as they are on the heap. -/
def withRoots (c : Collector) (handles : List Nat) : Collector :=
  handles.foldl addRoot c.clearRoots

/-- Adding roots changes nothing but the roots, and only what is on the heap becomes one. -/
theorem foldl_addRoot (c : Collector) (handles : List Nat) :
    ∃ roots, handles.foldl addRoot c = { c with roots } ∧
      ∀ handle, handle ∈ roots ↔
        handle ∈ c.roots ∨ handle ∈ handles ∧ c.contains handle = true := by
  -- The collector changes from one handle to the next, but only in its roots.
  induction handles generalizing c with
  | nil => exact ⟨c.roots, rfl, by simp⟩
  | cons first handles ih =>
    obtain ⟨roots, hfold, hroots⟩ := ih (c.addRoot first)
    unfold addRoot at hfold hroots
    split at hfold
    next hadded =>
      obtain ⟨hheap, -⟩ := Bool.and_eq_true_iff.mp hadded
      refine ⟨roots, by rw [List.foldl_cons, addRoot, if_pos hadded]; exact hfold, ?_⟩
      intro handle
      rw [hroots, if_pos hadded]
      simp only [List.mem_append, List.mem_cons, List.not_mem_nil, or_false]
      constructor
      · rintro ((h | rfl) | ⟨h, hc⟩)
        · exact .inl h
        · exact .inr ⟨.inl rfl, hheap⟩
        · exact .inr ⟨.inr h, hc⟩
      · rintro (h | ⟨rfl | h, hc⟩)
        · exact .inl (.inl h)
        · exact .inl (.inr rfl)
        · exact .inr ⟨h, hc⟩
    next hkept =>
      refine ⟨roots, by rw [List.foldl_cons, addRoot, if_neg hkept]; exact hfold, ?_⟩
      intro handle
      rw [hroots, if_neg hkept]
      constructor
      · rintro (h | ⟨h, hc⟩)
        · exact .inl h
        · exact .inr ⟨List.mem_cons_of_mem _ h, hc⟩
      · rintro (h | ⟨h, hc⟩)
        · exact .inl h
        · rcases List.mem_cons.mp h with rfl | h
          -- A handle on the heap that is not added is a root already.
          · have hroot : c.isRoot handle = true := by simpa [hc] using hkept
            exact .inl (isRoot_iff.mp hroot)
          · exact .inr ⟨h, hc⟩

/-- The roots of a collector that is given new ones are those that are on the heap; nothing else
of it changes. -/
theorem withRoots_eq (c : Collector) (handles : List Nat) :
    ∃ roots, c.withRoots handles = { c with roots } ∧
      ∀ handle, handle ∈ roots ↔ handle ∈ handles ∧ c.contains handle = true := by
  obtain ⟨roots, hfold, hroots⟩ := foldl_addRoot c.clearRoots handles
  refine ⟨roots, hfold, fun handle => (hroots handle).trans ?_⟩
  simp [clearRoots, contains]

/-- The roots do not matter for the well-formedness of a collector. -/
theorem WellFormed.withRoots (hc : c.WellFormed) (handles : List Nat) :
    (c.withRoots handles).WellFormed := by
  obtain ⟨roots, heq, hroots⟩ := withRoots_eq c handles
  rw [heq]
  exact { hc with root_mem := fun handle hmem => contains_iff.mp ((hroots handle).mp hmem).2 }

/-- What is discarded and what is kept make up the heap. -/
theorem values_discard (c : Collector) (dead : Nat → Bool) :
    c.heap.values.Perm (c.blocksOf dead ++ (c.discard dead).heap.values) := by
  have hsplit := List.filter_append_perm (fun entry : Nat × Block => dead entry.1) c.heap
  have hvalues := hsplit.symm.map (·.2)
  rwa [List.map_append] at hvalues

/-- The handles used stay used, and no handle used before comes back. -/
structure Succeeds (c after : Collector) : Prop where
  /-- The next handle does not fall. -/
  next_le : c.nextHandle ≤ after.nextHandle
  /-- A used handle that is on the heap now was there before. -/
  contains_of_contains :
    ∀ handle < c.nextHandle, after.contains handle = true → c.contains handle = true

theorem Succeeds.refl (c : Collector) : c.Succeeds c := ⟨le_refl _, fun _ _ h => h⟩

/-- A new object gets a handle that was never used. -/
theorem succeeds_allocate (c : Collector) (host : Host) (allocator : Allocator) (size : Nat) :
    c.Succeeds (c.allocate host allocator size).2.1 := by
  rcases allocate_cases c host allocator size with h | ⟨block, h⟩
  · rw [h]
    exact Succeeds.refl c
  · rw [h]
    refine ⟨Nat.le_succ _, fun handle hlt hmem => ?_⟩
    rw [contains_iff] at hmem
    rcases mem_keys_insert.mp hmem with rfl | hmem
    · exact absurd hlt (Nat.lt_irrefl _)
    · exact contains_iff.mpr hmem

/-- Nothing comes back by being discarded. -/
theorem contains_of_discard (dead : Nat → Bool) {handle : Nat}
    (h : (c.discard dead).contains handle = true) : c.contains handle = true :=
  contains_iff.mpr (mem_keys_discard.mp (contains_iff.mp h)).1

/-- A collection brings back no handle. -/
theorem succeeds_collect (c : Collector) (allocator : Allocator) :
    c.Succeeds (c.collect allocator).2.1 :=
  ⟨le_refl _, fun _ _ h => contains_of_discard c.isGarbage h⟩

/-- Neither does a collection from given roots. -/
theorem succeeds_withRoots (c : Collector) (handles : List Nat) (allocator : Allocator) :
    c.Succeeds ((c.withRoots handles).collect allocator).2.1 := by
  -- Other roots leave the heap and the next handle as they are.
  obtain ⟨roots, heq, -⟩ := withRoots_eq c handles
  have hcollect := succeeds_collect (c.withRoots handles) allocator
  rw [heq] at hcollect ⊢
  exact ⟨hcollect.next_le, hcollect.contains_of_contains⟩

theorem succeeds_deallocate (c : Collector) (allocator : Allocator) (handle : Nat) :
    c.Succeeds (c.deallocate allocator handle).1 := by
  unfold deallocate
  split
  next => exact ⟨le_refl _, fun _ _ h => contains_of_discard (fun other => other = handle) h⟩
  next => exact Succeeds.refl c

/-- Neither does clearing the collector. -/
theorem succeeds_clear (c : Collector) (allocator : Allocator) :
    c.Succeeds (c.clear allocator).1 :=
  ⟨le_refl _, fun _ _ h => by simp [clear, contains, Entries.has] at h⟩

end Collector

end StackMachine
