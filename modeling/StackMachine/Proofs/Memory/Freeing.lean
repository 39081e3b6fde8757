import Mathlib.Data.List.Basic
import Mathlib.Data.Option.Basic
import StackMachine.Proofs.Memory.Figures
import StackMachine.Proofs.Memory.Tables

/-!
# Freeing objects one by one

Objects are freed by their handles, in any order, some of them twice or after they have gone. Each
time the whole graph of references is gone through: the object leaves it, every reference to it is
dropped, and an object left without references leaves the graph as well.

Freeing one object after another is freeing all of them at once. What is freed at once depends on
which handles are listed, not on their order and number.

## Main definitions

* `Collector.deallocateEach`: frees objects one after the other.
* `Collector.freed`: the collector without some of its objects, which are counted as freed.
* `Collector.withoutTargets`: what is left of an object's references.

## Main results

* `Collector.discard_discard`: discarding twice is discarding once what either discards.
* `Collector.referencesOf_discard_eq`: what is left of the references of an object.
* `Collector.deallocateEach_eq`: freeing one after the other is freeing at once.
* `Collector.deallocateEach_unordered`: the order and number of the handles does not matter, and
  what the outcome is.
-/

namespace StackMachine

namespace Collector

variable {c : Collector}

/-! ### Discarding -/

/-- What is left of an object's references: nothing, if the object goes or none of them stays. -/
def withoutTargets (dead : Nat → Bool) (entry : Nat × List Nat) : Option (Nat × List Nat) :=
  if dead entry.1 || (entry.2.filter fun target => !dead target).isEmpty then none
  else some (entry.1, entry.2.filter fun target => !dead target)

theorem key_withoutTargets (dead : Nat → Bool) (entry changed : Nat × List Nat)
    (h : withoutTargets dead entry = some changed) : changed.1 = entry.1 := by
  unfold withoutTargets at h
  split at h
  · cases h
  · rw [← Option.some.inj h]

/-- References that are thinned out twice. -/
theorem withoutTargets_withoutTargets (first second : Nat → Bool) (entry : Nat × List Nat) :
    (withoutTargets first entry).bind (withoutTargets second) =
      withoutTargets (fun handle => first handle || second handle) entry := by
  have hboth : ((entry.2.filter fun target => !first target).filter fun target => !second target) =
      entry.2.filter fun target => !(first target || second target) := by
    rw [List.filter_filter]
    refine List.filter_congr fun target _ => ?_
    rw [Bool.not_or, Bool.and_comm]
  simp only [withoutTargets, ← hboth]
  -- If nothing stays the first time, there is nothing to thin out the second time.
  generalize (entry.2.filter fun target => !first target) = kept
  cases first entry.1 with
  | true => rfl
  | false =>
    cases kept with
    | nil => simp
    | cons target kept => rfl

/-- Both ends of every reference are on the heap, so only what is discarded is missing later. -/
theorem WellFormed.references_discard (hc : c.WellFormed) (dead : Nat → Bool) :
    (c.discard dead).references = c.references.filterMap (withoutTargets dead) := by
  have hkept : ∀ handle ∈ c.heap.keys,
      (c.discard dead).contains handle = !dead handle := by
    intro handle hmem
    rw [Bool.eq_iff_iff, contains_iff, mem_keys_discard]
    simp [hmem]
  rw [Collector.references_discard]
  -- So the look at the heap that is left says the same as `dead`.
  refine List.filterMap_congr fun entry hentry => ?_
  have htargets : (entry.2.filter fun target => !dead target && (c.discard dead).contains target) =
      entry.2.filter fun target => !dead target := by
    refine List.filter_congr fun target htarget => ?_
    rw [hkept target (hc.target_mem entry hentry target htarget), Bool.and_self]
  dsimp only
  rw [htargets, hkept entry.1 (hc.source_mem entry hentry), withoutTargets]
  simp

/-- Discarding twice is discarding once what either discards. -/
theorem discard_discard (hc : c.WellFormed) (first second : Nat → Bool) :
    (c.discard first).discard second = c.discard fun handle => first handle || second handle := by
  have hheap : ((c.discard first).discard second).heap =
      (c.discard fun handle => first handle || second handle).heap := by
    simp only [discard, List.filter_filter]
    refine List.filter_congr fun entry _ => ?_
    rw [Bool.not_or, Bool.and_comm]
  have hroots : ((c.discard first).discard second).roots =
      (c.discard fun handle => first handle || second handle).roots := by
    simp only [discard, List.filter_filter]
    refine List.filter_congr fun handle _ => ?_
    rw [Bool.not_or, Bool.and_comm]
  have hreferences : ((c.discard first).discard second).references =
      (c.discard fun handle => first handle || second handle).references := by
    rw [(hc.discard first).references_discard, hc.references_discard, hc.references_discard,
      List.filterMap_filterMap]
    exact List.filterMap_congr fun entry _ => withoutTargets_withoutTargets first second entry
  rw [discard] at hheap hroots hreferences ⊢
  rw [Collector.mk.injEq]
  exact ⟨hheap, hroots, hreferences, rfl, rfl⟩

/-- What is discarded in two goes is, in some order, what is discarded in one. -/
theorem perm_blocksOf_or (c : Collector) (first second : Nat → Bool) :
    (c.blocksOf first ++ (c.discard first).blocksOf second).Perm
      (c.blocksOf fun handle => first handle || second handle) := by
  -- Among what either discards, split off what the first one does.
  have hsplit := List.filter_append_perm (fun entry : Nat × Block => first entry.1)
    (c.heap.filter fun entry => first entry.1 || second entry.1)
  have hfirst : ((c.heap.filter fun entry => first entry.1 || second entry.1).filter
      fun entry => first entry.1) = c.heap.filter fun entry => first entry.1 := by
    rw [List.filter_filter]
    refine List.filter_congr fun entry _ => ?_
    cases first entry.1 <;> simp
  have hsecond : ((c.heap.filter fun entry => first entry.1 || second entry.1).filter
      fun entry => !first entry.1) =
      (c.heap.filter fun entry => !first entry.1).filter fun entry => second entry.1 := by
    rw [List.filter_filter, List.filter_filter]
    refine List.filter_congr fun entry _ => ?_
    cases first entry.1 <;> simp
  rw [hfirst, hsecond] at hsplit
  have hblocks := hsplit.map (·.2)
  rwa [List.map_append] at hblocks

/-- What is left of the references of an object: those to objects that stay, in the same order. -/
theorem referencesOf_discard_eq (hc : c.WellFormed) (dead : Nat → Bool) (handle : Nat) :
    (c.discard dead).referencesOf handle =
      if dead handle then [] else (c.referencesOf handle).filter fun target => !dead target := by
  rw [referencesOf, referencesOf, hc.references_discard,
    Entries.find?_filterMap (key_withoutTargets dead) handle hc.graph_sorted.nodup_keys]
  cases Entries.find? handle c.references with
  | none => simp
  | some targets =>
    rw [Option.bind_some, withoutTargets]
    cases dead handle with
    | true => rfl
    | false =>
      simp only [Bool.false_or, Option.getD_some, Bool.false_eq_true, if_false]
      split
      next hempty => exact (List.isEmpty_iff.mp hempty).symm
      next => rfl

/-! ### Freeing -/

/-- The collector without some of its objects, which are counted as freed. -/
def freed (c : Collector) (dead : Nat → Bool) : Collector :=
  { c.discard dead with
    counts := { c.counts with frees := c.counts.frees + (c.blocksOf dead).length } }

theorem WellFormed.freed (hc : c.WellFormed) (dead : Nat → Bool) : (c.freed dead).WellFormed :=
  { hc.discard dead with }

/-- Freeing nothing that is on the heap changes nothing. -/
theorem freed_eq_self (hc : c.WellFormed) {dead : Nat → Bool}
    (hdead : ∀ handle ∈ c.heap.keys, dead handle = false) :
    c.freed dead = c ∧ c.blocksOf dead = [] := by
  have hblocks : c.blocksOf dead = [] := by
    rw [blocksOf, List.map_eq_nil_iff, List.filter_eq_nil_iff]
    intro entry hentry
    simp [hdead entry.1 (List.mem_map.mpr ⟨entry, hentry, rfl⟩)]
  refine ⟨?_, hblocks⟩
  rw [Collector.freed, hblocks, discard_eq_self hc hdead]
  rfl

/-- Freeing twice is freeing once what either frees. -/
theorem freed_freed (hc : c.WellFormed) (first second : Nat → Bool) :
    (c.freed first).freed second = c.freed fun handle => first handle || second handle := by
  have hdiscard : (c.freed first).discard second =
      { c.discard fun handle => first handle || second handle with
        counts := (c.freed first).counts } := by
    rw [← discard_discard hc]
    rfl
  have hcount : ((c.freed first).blocksOf second).length + (c.blocksOf first).length =
      (c.blocksOf fun handle => first handle || second handle).length := by
    rw [← (perm_blocksOf_or c first second).length_eq, List.length_append, Nat.add_comm]
    rfl
  rw [Collector.freed, hdiscard]
  simp only [Collector.freed] at hcount ⊢
  rw [← hcount, Nat.add_assoc, Nat.add_comm (List.length _)]

/-- Freeing one object is freeing what has its handle, be it on the heap or not. -/
theorem WellFormed.deallocate_eq (hc : c.WellFormed) (allocator : Allocator) (handle : Nat) :
    c.deallocate allocator handle =
      (c.freed fun other => other = handle,
        allocator.deallocateAll (c.blocksOf fun other => other = handle)) := by
  by_cases hcontains : c.contains handle = true
  · -- Handles are distinct, so there is exactly one block.
    obtain ⟨block, hblock⟩ := Option.isSome_iff_exists.mp hcontains
    have hcount : (c.blocksOf fun other => other = handle).length = 1 := by
      have hperm := Entries.perm_erase hc.heap_sorted.nodup_keys hblock
      have hsplit := List.length_eq_length_filter_add
        (fun entry : Nat × Block => decide (entry.1 = handle)) (l := c.heap)
      have hlength := hperm.length_eq
      simp only [Entries.erase, List.length_cons, decide_not] at hlength
      rw [blocksOf, List.length_map]
      omega
    rw [Collector.deallocate, if_pos hcontains, Collector.freed, hcount]
  · rw [Collector.deallocate, if_neg hcontains]
    have hdead : ∀ other ∈ c.heap.keys, decide (other = handle) = false := by
      intro other hother
      rw [decide_eq_false_iff_not]
      rintro rfl
      exact hcontains (contains_iff.mpr hother)
    obtain ⟨hfreed, hblocks⟩ := freed_eq_self hc hdead
    rw [hfreed, hblocks]
    rfl

/-- One more handle is listed. -/
theorem or_contains_eq (first : Nat) (handles : List Nat) :
    (fun handle => decide (handle = first) || handles.contains handle) =
      (first :: handles).contains := by
  funext handle
  rw [List.contains_cons, beq_eq_decide]

/-- Frees objects one after the other. -/
def deallocateEach (c : Collector) (allocator : Allocator) (handles : List Nat) :
    Collector × Allocator :=
  handles.foldl (fun state handle => state.1.deallocate state.2 handle) (c, allocator)

/-- Freeing one object after the other is freeing at once what is listed. The blocks are taken back
in some order. -/
theorem deallocateEach_eq (hc : c.WellFormed) (allocator : Allocator) (handles : List Nat) :
    ∃ blocks, blocks.Perm (c.blocksOf handles.contains) ∧
      c.deallocateEach allocator handles =
        (c.freed handles.contains, allocator.deallocateAll blocks) := by
  -- The induction is on the handles; each one is freed from what the handles before it have left.
  induction handles generalizing c allocator with
  | nil =>
    have hnone : ∀ handle ∈ c.heap.keys, ([] : List Nat).contains handle = false :=
      fun _ _ => List.contains_nil
    obtain ⟨hfreed, hblocks⟩ := freed_eq_self hc hnone
    exact ⟨[], by rw [hblocks], by rw [hfreed]; rfl⟩
  | cons first handles ih =>
    obtain ⟨blocks, hblocks, heach⟩ :=
      ih (hc.freed fun other => other = first)
        (allocator.deallocateAll (c.blocksOf fun other => other = first))
    refine ⟨(c.blocksOf fun other => other = first) ++ blocks, ?_, ?_⟩
    · have hsplit := perm_blocksOf_or c (fun other => other = first) handles.contains
      rw [or_contains_eq] at hsplit
      exact (hblocks.append_left _).trans hsplit
    · rw [deallocateEach, List.foldl_cons, hc.deallocate_eq, ← deallocateEach, heach,
        freed_freed hc, or_contains_eq, Allocator.deallocateAll_append]

/-- **Freeing objects one by one does not depend on their order**, nor on how often a handle is
listed or whether it is on the heap: which handles are listed decides on the collector and on all
that the allocator shows. Exactly what is listed leaves, every object that leaves is counted once on
either side, and what stays keeps its references, in order, but for those to what left. -/
theorem deallocateEach_unordered (hc : c.Reachable) (allocator : Allocator)
    {handles others : List Nat} (hsame : ∀ handle, handle ∈ handles ↔ handle ∈ others) :
    let after := c.deallocateEach allocator handles
    let listed := c.heap.keys.filter (· ∈ handles)
    (c.deallocateEach allocator others).1 = after.1 ∧
      (c.deallocateEach allocator others).2.figures = after.2.figures ∧
      (c.deallocateEach allocator others).2.counts = after.2.counts ∧
      (∀ handle, Entries.find? handle after.1.heap =
        if handle ∈ handles then none else Entries.find? handle c.heap) ∧
      after.1.roots = c.roots.filter (· ∉ handles) ∧
      after.1.nextHandle = c.nextHandle ∧
      after.1.counts = { c.counts with frees := c.counts.frees + listed.length } ∧
      after.2.counts.deallocations = allocator.counts.deallocations + listed.length ∧
      ∀ handle, after.1.referencesOf handle =
        if handle ∈ handles then [] else (c.referencesOf handle).filter (· ∉ handles) := by
  intro after listed
  have hw := hc.wellFormed
  -- Both lists free the same at once; only the order of the blocks taken back may differ.
  have hcontains : others.contains = handles.contains := by
    funext handle
    rw [Bool.eq_iff_iff, List.contains_iff_mem, List.contains_iff_mem, hsame]
  obtain ⟨blocks, hblocks, hafter⟩ := deallocateEach_eq hw allocator handles
  obtain ⟨otherBlocks, hothers, hother⟩ := deallocateEach_eq hw allocator others
  rw [hcontains] at hothers hother
  have hfigures : (c.deallocateEach allocator others).2.figures = after.2.figures := by
    rw [hother, show after = _ from hafter]
    exact Allocator.figures_deallocateAll_of_perm _ (hothers.trans hblocks.symm)
  have hlisted : (c.blocksOf handles.contains).length = listed.length := by
    rw [blocksOf, List.length_map, ← List.length_map (·.1)]
    exact congrArg List.length
      ((Entries.keys_filter_key handles.contains c.heap).trans
        (List.filter_congr fun handle _ => by simp))
  have hfreed : after.1 = c.freed handles.contains := congrArg Prod.fst hafter
  refine ⟨(congrArg Prod.fst hother).trans hfreed.symm, hfigures,
    Allocator.counts_eq_of_figures hfigures, fun handle => ?_, ?_, ?_, ?_, ?_, fun handle => ?_⟩
  · rw [hfreed]
    exact (Entries.find?_filter_key (fun handle => !handles.contains handle) handle c.heap).trans
      (by by_cases hmem : handle ∈ handles <;> simp [hmem])
  · rw [hfreed]
    exact List.filter_congr fun handle _ => by simp
  · rw [hfreed]
    rfl
  · rw [hfreed, ← hlisted]
    rfl
  · rw [show after.2 = _ from congrArg Prod.snd hafter, Allocator.deallocations_deallocateAll,
      hblocks.length_eq, hlisted]
  · rw [hfreed]
    refine (referencesOf_discard_eq hw handles.contains handle).trans ?_
    simp only [List.contains_eq_mem, decide_not, decide_eq_true_eq]

/-- The second object is listed twice, and a handle that was never given out in between. -/
theorem deallocateEach_unordered_knots :
    knots.Reachable ∧ (∀ handle, handle ∈ [2, 9, 2, 1] ↔ handle ∈ [1, 2, 9]) ∧
      (knots.deallocateEach (.direct {}) [1, 2, 9]).1 =
        (knots.deallocateEach (.direct {}) [2, 9, 2, 1]).1 ∧
      (knots.deallocateEach (.direct {}) [2, 9, 2, 1]).1.counts.frees = 2 ∧
      (knots.deallocateEach (.direct {}) [2, 9, 2, 1]).1.referencesOf 3 = [3] := by
  have hreachable : knots.Reachable :=
    .addReference _ _ (.addReference _ _ (.addReference _ _ (.addReference _ _ (.addReference _ _
      (.addRoot _ (.allocate _ _ _ (.allocate _ _ _ (.allocate _ _ _ .new))))))))
  have hsame : ∀ handle, handle ∈ [2, 9, 2, 1] ↔ handle ∈ [1, 2, 9] := by
    intro handle
    simp only [List.mem_cons, List.not_mem_nil, or_false]
    omega
  obtain ⟨heq, -, -, -, -, -, hcounts, -, hreferences⟩ :=
    deallocateEach_unordered hreachable (.direct {}) hsame
  refine ⟨hreachable, hsame, heq, ?_, ?_⟩
  · rw [hcounts]
    decide +kernel
  · rw [hreferences]
    decide +kernel

end Collector

end StackMachine
