import Mathlib.Data.List.Nodup
import Mathlib.Data.Nat.Basic
import Mathlib.Data.List.Perm.Basic
import StackMachine.Memory.Collector
import StackMachine.Proofs.Collection.Entries

/-!
# Collection is reachability

A collection keeps exactly the objects that chains of references reach from the roots.

Marking works off a list that may hold one object many times: every reference to it puts it
there again. What is visited stays on the heap and is reached from a root, and whatever a visited
object refers to is visited too or still on the list. Once the list is empty the visited objects
are therefore closed under references, and they are the least such set around the roots.

## Main definitions

* `Collector.Reachable`: the collectors that any sequence of operations leads to.
* `Collector.Reaches`: the objects that chains of references reach from the roots.
* `Collector.WellFormed`: handles are distinct and below the next one, and roots and references
  name objects on the heap only.

## Main results

* `Collector.Reachable.wellFormed`: every operation keeps a collector well-formed.
* `Collector.mem_reachable_iff`: marking finds exactly the objects that are reached.
* `Collector.collect_keeps_reached`: what a collection keeps, returns and leaves unchanged, and
  that a second one finds nothing to do.
-/

namespace StackMachine

namespace Collector

/-- The collectors that any sequence of operations leads to from a new one. The allocator is
shared with others, so each operation may find it in any state. -/
inductive Reachable : Collector → Prop
  | new : Reachable {}
  | allocate {c : Collector} (host : Host) (allocator : Allocator) (size : Nat) :
      Reachable c → Reachable (c.allocate host allocator size).2.1
  | addRoot {c : Collector} (handle : Nat) : Reachable c → Reachable (c.addRoot handle)
  | clearRoots {c : Collector} : Reachable c → Reachable c.clearRoots
  | addReference {c : Collector} (source target : Nat) :
      Reachable c → Reachable (c.addReference source target)
  | collect {c : Collector} (allocator : Allocator) :
      Reachable c → Reachable (c.collect allocator).2.1
  | deallocate {c : Collector} (allocator : Allocator) (handle : Nat) :
      Reachable c → Reachable (c.deallocate allocator handle).1
  | clear {c : Collector} (allocator : Allocator) :
      Reachable c → Reachable (c.clear allocator).1

/-- The objects that zero or more references reach from a root. -/
inductive Reaches (c : Collector) : Nat → Prop
  | root {handle : Nat} : c.isRoot handle = true → Reaches c handle
  | reference {source target : Nat} :
      Reaches c source → target ∈ c.referencesOf source → Reaches c target

/-- Handles are distinct and below the next one. Roots and both ends of every reference are on
the heap, and an object without references is not in the graph. -/
structure WellFormed (c : Collector) : Prop where
  /-- The heap is kept in the order of its handles. -/
  heap_sorted : c.heap.Sorted
  /-- The next handle is new. -/
  handle_lt : ∀ handle ∈ c.heap.keys, handle < c.nextHandle
  /-- Roots are on the heap. -/
  root_mem : ∀ handle ∈ c.roots, handle ∈ c.heap.keys
  /-- The graph is kept in the order of its sources. -/
  graph_sorted : c.references.Sorted
  /-- Sources are on the heap. -/
  source_mem : ∀ entry ∈ c.references, entry.1 ∈ c.heap.keys
  /-- Targets are on the heap. -/
  target_mem : ∀ entry ∈ c.references, ∀ target ∈ entry.2, target ∈ c.heap.keys
  /-- Every source has a target. -/
  targets_ne_nil : ∀ entry ∈ c.references, entry.2 ≠ []

/-! ### The operations seen through membership -/

variable {c : Collector}

theorem contains_iff {handle : Nat} : c.contains handle = true ↔ handle ∈ c.heap.keys :=
  Entries.has_iff_mem_keys

theorem isRoot_iff {handle : Nat} : c.isRoot handle = true ↔ handle ∈ c.roots := by
  rw [isRoot, List.contains_iff_mem]

/-- An object refers to something only through an entry of the graph. -/
theorem exists_entry_of_mem_referencesOf {source target : Nat}
    (h : target ∈ c.referencesOf source) :
    ∃ entry ∈ c.references, entry.1 = source ∧ c.referencesOf source = entry.2 := by
  rw [referencesOf] at h
  cases hfind : Entries.find? source c.references with
  | none => simp [hfind] at h
  | some targets =>
    exact ⟨(source, targets), Entries.mem_of_find? hfind, rfl, by simp [referencesOf, hfind]⟩

/-- What a well-formed collector refers to is on the heap. -/
theorem WellFormed.mem_of_referencesOf (hc : c.WellFormed) {source target : Nat}
    (h : target ∈ c.referencesOf source) : target ∈ c.heap.keys := by
  obtain ⟨entry, hentry, -, heq⟩ := exists_entry_of_mem_referencesOf h
  exact hc.target_mem entry hentry target (heq ▸ h)

/-- The graph of a well-formed collector names nothing that is not on the heap. -/
theorem isReferenced_eq_false (hc : c.WellFormed) {handle : Nat}
    (h : ¬c.contains handle = true) : c.isReferenced handle = false := by
  rw [contains_iff] at h
  rw [Bool.eq_false_iff, isReferenced, Ne, Bool.or_eq_true, not_or]
  constructor
  · rw [Entries.has_iff_mem_keys]
    intro hmem
    obtain ⟨entry, hentry, rfl⟩ := List.mem_map.mp hmem
    exact h (hc.source_mem entry hentry)
  · rw [List.any_eq_true]
    rintro ⟨entry, hentry, htarget⟩
    exact h (hc.target_mem entry hentry handle (List.contains_iff_mem.mp htarget))

/-! ### Every operation keeps a collector well-formed -/

theorem wellFormed_new : ({} : Collector).WellFormed where
  heap_sorted := List.Pairwise.nil
  handle_lt := by simp [Entries.keys]
  root_mem := by simp
  graph_sorted := List.Pairwise.nil
  source_mem := by simp
  target_mem := by simp
  targets_ne_nil := by simp

/-- Allocating adds the next handle to the heap, or nothing. -/
theorem allocate_cases (c : Collector) (host : Host) (allocator : Allocator) (size : Nat) :
    (c.allocate host allocator size).2.1 = c ∨
      ∃ block, (c.allocate host allocator size).2.1 =
        { c with
          heap := Entries.insert c.nextHandle block c.heap
          nextHandle := c.nextHandle + 1 } := by
  unfold allocate
  split
  next block _ _ => exact .inr ⟨block, rfl⟩
  next => exact .inl rfl

theorem mem_keys_insert {handle key : Nat} {block : Block} {heap : Entries Nat Block} :
    handle ∈ (Entries.insert key block heap).keys ↔ key = handle ∨ handle ∈ heap.keys := by
  rw [← Entries.has_iff_mem_keys, ← Entries.has_iff_mem_keys, Entries.has_insert]
  simp

/-- A new object keeps a collector well-formed, also one that is refused. -/
theorem WellFormed.allocate (hc : c.WellFormed) (host : Host) (allocator : Allocator)
    (size : Nat) : (c.allocate host allocator size).2.1.WellFormed := by
  rcases allocate_cases c host allocator size with h | ⟨block, h⟩
  · rw [h]
    exact hc
  · rw [h]
    exact {
      heap_sorted := Entries.sorted_insert _ _ hc.heap_sorted
      handle_lt := fun handle hmem => by
        rcases mem_keys_insert.mp hmem with rfl | hmem
        · exact Nat.lt_succ_self _
        · exact Nat.lt_succ_of_lt (hc.handle_lt handle hmem)
      root_mem := fun handle hmem => mem_keys_insert.mpr (.inr (hc.root_mem handle hmem))
      graph_sorted := hc.graph_sorted
      source_mem := fun entry hmem => mem_keys_insert.mpr (.inr (hc.source_mem entry hmem))
      target_mem := fun entry hmem target htarget =>
        mem_keys_insert.mpr (.inr (hc.target_mem entry hmem target htarget))
      targets_ne_nil := hc.targets_ne_nil }

/-- So does a root, if it is on the heap, and otherwise nothing happens. -/
theorem WellFormed.addRoot (hc : c.WellFormed) (handle : Nat) : (c.addRoot handle).WellFormed := by
  unfold Collector.addRoot
  split
  next hadded =>
    obtain ⟨hmem, -⟩ := Bool.and_eq_true_iff.mp hadded
    refine { hc with root_mem := fun root hroot => ?_ }
    rcases List.mem_append.mp hroot with hroot | hroot
    · exact hc.root_mem root hroot
    · obtain rfl := List.mem_singleton.mp hroot
      exact contains_iff.mp hmem
  next => exact hc

/-- So does forgetting the roots. -/
theorem WellFormed.clearRoots (hc : c.WellFormed) : c.clearRoots.WellFormed :=
  { hc with root_mem := by simp [Collector.clearRoots] }

/-- So does a reference between two objects. -/
theorem WellFormed.addReference (hc : c.WellFormed) (source target : Nat) :
    (c.addReference source target).WellFormed := by
  unfold Collector.addReference
  split
  next hboth =>
    obtain ⟨hsource, htarget⟩ := Bool.and_eq_true_iff.mp hboth
    refine { hc with
      graph_sorted := Entries.sorted_insert _ _ hc.graph_sorted
      source_mem := fun entry hentry => ?_
      target_mem := fun entry hentry other hother => ?_
      targets_ne_nil := fun entry hentry => ?_ }
    · rcases Entries.mem_insert hentry with rfl | hentry
      · exact contains_iff.mp hsource
      · exact hc.source_mem entry hentry
    · rcases Entries.mem_insert hentry with rfl | hentry
      · rcases List.mem_append.mp hother with hother | hother
        · exact hc.mem_of_referencesOf hother
        · obtain rfl := List.mem_singleton.mp hother
          exact contains_iff.mp htarget
      · exact hc.target_mem entry hentry other hother
    · rcases Entries.mem_insert hentry with rfl | hentry
      · simp
      · exact hc.targets_ne_nil entry hentry
  next => exact hc

/-- Discarding asks of both ends of a reference whether they are kept. -/
theorem references_discard (c : Collector) (dead : Nat → Bool) :
    (c.discard dead).references = c.references.filterMap fun entry =>
      let targets := entry.2.filter fun target => !dead target && (c.discard dead).contains target
      if dead entry.1 || !(c.discard dead).contains entry.1 || targets.isEmpty then none
      else some (entry.1, targets) := rfl

/-- The entries that discarding leaves in the graph: live sources with their live targets. -/
theorem mem_references_discard {dead : Nat → Bool} {entry : Nat × List Nat}
    (h : entry ∈ (c.discard dead).references) :
    (∃ targets, (entry.1, targets) ∈ c.references ∧
      entry.2 = targets.filter fun target => !dead target && (c.discard dead).contains target) ∧
    entry.1 ∈ (c.discard dead).heap.keys ∧ entry.2 ≠ [] := by
  rw [references_discard] at h
  obtain ⟨⟨source, targets⟩, hmem, hkept⟩ := List.mem_filterMap.mp h
  dsimp only at hkept
  split at hkept
  next => cases hkept
  next hlive =>
    obtain rfl := Option.some.inj hkept
    simp only [Bool.or_eq_true, Bool.not_eq_true', not_or, Bool.not_eq_false,
      List.isEmpty_iff] at hlive
    exact ⟨⟨targets, hmem, rfl⟩, contains_iff.mp hlive.1.2, hlive.2⟩

/-- Discarding leaves the objects that are not dead. -/
theorem mem_keys_discard {dead : Nat → Bool} {handle : Nat} :
    handle ∈ (c.discard dead).heap.keys ↔ handle ∈ c.heap.keys ∧ dead handle = false := by
  rw [discard, Entries.keys_filter_key (fun handle => !dead handle), List.mem_filter]
  simp

/-- What is left is well-formed: no root and no reference is to something discarded. -/
theorem WellFormed.discard (hc : c.WellFormed) (dead : Nat → Bool) :
    (c.discard dead).WellFormed where
  heap_sorted := hc.heap_sorted.filter _
  handle_lt handle hmem := hc.handle_lt handle (mem_keys_discard.mp hmem).1
  root_mem handle hmem := by
    obtain ⟨hroot, hlive⟩ := List.mem_filter.mp hmem
    exact mem_keys_discard.mpr ⟨hc.root_mem handle hroot, by simpa using hlive⟩
  graph_sorted := by
    refine List.Pairwise.filterMap _ (fun a b hlt a' ha b' hb => ?_) hc.graph_sorted
    dsimp only at ha hb
    split at ha <;> cases ha
    split at hb <;> cases hb
    exact hlt
  source_mem entry hentry := (mem_references_discard hentry).2.1
  target_mem entry hentry target htarget := by
    obtain ⟨⟨targets, -, heq⟩, -, -⟩ := mem_references_discard hentry
    rw [heq, List.mem_filter, Bool.and_eq_true_iff] at htarget
    exact contains_iff.mp htarget.2.2
  targets_ne_nil entry hentry := (mem_references_discard hentry).2.2

/-- Whether the next collection frees an object. -/
def isGarbage (c : Collector) (handle : Nat) : Bool :=
  c.contains handle && !c.reachable.contains handle

/-- A collection discards the garbage, counts it and gives back its blocks. -/
theorem collect_eq (c : Collector) (allocator : Allocator) :
    c.collect allocator =
      ((c.blocksOf c.isGarbage).length,
        { c.discard c.isGarbage with
          counts := { c.counts with
            collections := c.counts.collections + 1
            collected := c.counts.collected + (c.blocksOf c.isGarbage).length } },
        allocator.deallocateAll (c.blocksOf c.isGarbage)) := rfl

/-- A collection keeps a collector well-formed. -/
theorem WellFormed.collect (hc : c.WellFormed) (allocator : Allocator) :
    (c.collect allocator).2.1.WellFormed := by
  rw [collect_eq]
  exact { hc.discard c.isGarbage with }

theorem WellFormed.deallocate (hc : c.WellFormed) (allocator : Allocator) (handle : Nat) :
    (c.deallocate allocator handle).1.WellFormed := by
  unfold Collector.deallocate
  split
  next => exact { hc.discard _ with }
  next => exact hc

/-- A collector that was cleared is well-formed, whatever it was before. -/
theorem wellFormed_clear (c : Collector) (allocator : Allocator) :
    (c.clear allocator).1.WellFormed :=
  { wellFormed_new with handle_lt := by simp [clear, Entries.keys] }

/-- Every sequence of operations leads to a well-formed collector. -/
theorem Reachable.wellFormed (h : c.Reachable) : c.WellFormed := by
  induction h with
  | new => exact wellFormed_new
  | allocate host allocator size _ ih => exact ih.allocate host allocator size
  | addRoot handle _ ih => exact ih.addRoot handle
  | clearRoots _ ih => exact ih.clearRoots
  | addReference source target _ ih => exact ih.addReference source target
  | collect allocator _ ih => exact ih.collect allocator
  | deallocate allocator handle _ ih => exact ih.deallocate allocator handle
  | clear allocator _ _ => exact wellFormed_clear _ allocator

/-! ### Marking -/

/-- What was visited stays visited. -/
theorem subset_visit (c : Collector) (work visited : List Nat) :
    visited ⊆ c.visit work visited := by
  fun_induction visit c work visited with
  | case1 => exact List.Subset.refl _
  | case2 visited handle work _ ih => exact ih
  | case3 visited handle work _ ih => exact List.Subset.trans (List.subset_cons_self _ _) ih

/-- What is on the work list and on the heap gets visited. -/
theorem mem_visit_of_mem_work {work visited : List Nat} {handle : Nat} (hwork : handle ∈ work)
    (hheap : c.contains handle = true) : handle ∈ c.visit work visited := by
  fun_induction visit c work visited with
  | case1 => simp at hwork
  | case2 visited first work hskip ih =>
    rcases List.mem_cons.mp hwork with rfl | hwork
    · have hseen : handle ∈ visited := by simpa [hheap] using hskip
      exact subset_visit c work visited hseen
    · exact ih hwork
  | case3 visited first work _ ih =>
    rcases List.mem_cons.mp hwork with rfl | hwork
    · exact subset_visit c _ _ List.mem_cons_self
    · exact ih (List.mem_append_right _ hwork)

/-- Whatever a visited object refers to is visited as well, provided that at the start it was so or
on the work list. -/
theorem visit_closed {work visited : List Nat}
    (hopen : ∀ source ∈ visited, ∀ target ∈ c.referencesOf source, c.contains target = true →
      target ∈ visited ∨ target ∈ work) :
    ∀ source ∈ c.visit work visited, ∀ target ∈ c.referencesOf source,
      c.contains target = true → target ∈ c.visit work visited := by
  fun_induction visit c work visited with
  | case1 =>
    intro source hsource target htarget hheap
    simpa using hopen source hsource target htarget hheap
  | case2 visited first work hskip ih =>
    -- The object skipped is off the heap or visited already, so it is not missed.
    refine ih fun source hsource target htarget hheap => ?_
    rcases hopen source hsource target htarget hheap with hseen | hwork
    · exact .inl hseen
    · rcases List.mem_cons.mp hwork with rfl | hwork
      · exact .inl (by simpa [hheap] using hskip)
      · exact .inr hwork
  | case3 visited first work _ ih =>
    refine ih fun source hsource target htarget hheap => ?_
    rcases List.mem_cons.mp hsource with rfl | hsource
    · exact .inr (List.mem_append_left _ htarget)
    · rcases hopen source hsource target htarget hheap with hseen | hwork
      · exact .inl (List.mem_cons_of_mem _ hseen)
      · rcases List.mem_cons.mp hwork with rfl | hwork
        · exact .inl List.mem_cons_self
        · exact .inr (List.mem_append_right _ hwork)

/-- Marking visits an object once, and only what is on the heap and reached from a root. -/
theorem visit_sound {work visited : List Nat} (hnodup : visited.Nodup)
    (hvisited : ∀ handle ∈ visited, c.contains handle = true ∧ c.Reaches handle)
    (hwork : ∀ handle ∈ work, c.Reaches handle) :
    (c.visit work visited).Nodup ∧
      ∀ handle ∈ c.visit work visited, c.contains handle = true ∧ c.Reaches handle := by
  fun_induction visit c work visited with
  | case1 => exact ⟨hnodup, hvisited⟩
  | case2 visited first work _ ih =>
    exact ih hnodup hvisited fun handle h => hwork handle (List.mem_cons_of_mem _ h)
  | case3 visited first work hfresh ih =>
    obtain ⟨hnew, hheap⟩ : first ∉ visited ∧ c.contains first = true := by
      simpa using hfresh
    have hfirst : c.Reaches first := hwork first List.mem_cons_self
    refine ih (List.nodup_cons.mpr ⟨hnew, hnodup⟩) (fun handle h => ?_) (fun handle h => ?_)
    · rcases List.mem_cons.mp h with rfl | h
      · exact ⟨hheap, hfirst⟩
      · exact hvisited handle h
    · rcases List.mem_append.mp h with h | h
      · exact .reference hfirst h
      · exact hwork handle (List.mem_cons_of_mem _ h)

/-- Nothing is marked twice. -/
theorem nodup_reachable (c : Collector) : c.reachable.Nodup :=
  (visit_sound List.nodup_nil (by simp) fun _ h => .root (isRoot_iff.mpr h)).1

/-- What is reached in a well-formed collector is on the heap. -/
theorem WellFormed.contains_of_reaches (hc : c.WellFormed) {handle : Nat} (h : c.Reaches handle) :
    c.contains handle = true := by
  rw [contains_iff]
  cases h with
  | root hroot => exact hc.root_mem _ (isRoot_iff.mp hroot)
  | reference _ htarget => exact hc.mem_of_referencesOf htarget

/-- Marking finds exactly the objects that chains of references reach from the roots, in whatever
order the roots are put on the work list. -/
theorem mem_visit_iff (hc : c.WellFormed) {seeds : List Nat}
    (hseeds : ∀ handle, handle ∈ seeds ↔ handle ∈ c.roots) {handle : Nat} :
    handle ∈ c.visit seeds [] ↔ c.Reaches handle := by
  constructor
  · intro h
    exact ((visit_sound List.nodup_nil (by simp)
      fun other h => .root (isRoot_iff.mpr ((hseeds other).mp h))).2 handle h).2
  · intro h
    -- What is visited contains the roots and is closed under references.
    have hclosed : ∀ source ∈ c.visit seeds [], ∀ target ∈ c.referencesOf source,
        c.contains target = true → target ∈ c.visit seeds [] := visit_closed (by simp)
    induction h with
    | root hroot =>
      exact mem_visit_of_mem_work ((hseeds _).mpr (isRoot_iff.mp hroot))
        (hc.contains_of_reaches (.root hroot))
    | reference hsource htarget ih =>
      exact hclosed _ ih _ htarget (hc.contains_of_reaches (.reference hsource htarget))

/-- Marking finds exactly the objects that chains of references reach from the roots. -/
theorem mem_reachable_iff (hc : c.WellFormed) {handle : Nat} :
    handle ∈ c.reachable ↔ c.Reaches handle :=
  mem_visit_iff hc fun _ => Iff.rfl

/-! ### Sweeping -/

/-- Of the objects on the heap, the ones that are not garbage are those that are reached. -/
theorem isGarbage_eq_false_iff (hc : c.WellFormed) {handle : Nat}
    (hheap : c.contains handle = true) : c.isGarbage handle = false ↔ c.Reaches handle := by
  rw [← mem_reachable_iff hc, isGarbage, hheap]
  simp

/-- The objects left are those that can be reached. -/
theorem contains_collect_iff (hc : c.WellFormed) (allocator : Allocator) (handle : Nat) :
    (c.collect allocator).2.1.contains handle = true ↔
      c.contains handle = true ∧ c.Reaches handle := by
  rw [contains_iff, collect_eq, mem_keys_discard, ← contains_iff]
  exact and_congr_right fun hheap => isGarbage_eq_false_iff hc hheap

/-- An object is either freed or kept. -/
theorem count_add_heapSize_collect (c : Collector) (allocator : Allocator) :
    (c.collect allocator).1 + (c.collect allocator).2.1.heapSize = c.heapSize := by
  rw [collect_eq, heapSize, heapSize, blocksOf, List.length_map]
  exact (List.length_eq_length_filter_add fun entry : Nat × Block => c.isGarbage entry.1).symm

/-- The objects found by marking are the ones that stay on the heap, each once. -/
theorem liveObjects_eq_heapSize_collect (hc : c.WellFormed) (allocator : Allocator) :
    c.liveObjects = (c.collect allocator).2.1.heapSize := by
  have hperm : c.reachable.Perm (c.collect allocator).2.1.heap.keys := by
    rw [List.perm_ext_iff_of_nodup (nodup_reachable c)
      (hc.collect allocator).heap_sorted.nodup_keys]
    intro handle
    rw [mem_reachable_iff hc, ← contains_iff, contains_collect_iff hc]
    exact ⟨fun h => ⟨hc.contains_of_reaches h, h⟩, fun h => h.2⟩
  rw [liveObjects, hperm.length_eq, heapSize, Entries.keys, List.length_map]

/-- Discarding leaves the references of an object as they are if it is kept with all of them. -/
theorem referencesOf_discard (hc : c.WellFormed) {dead : Nat → Bool} {handle : Nat}
    (hlive : dead handle = false)
    (htargets : ∀ target ∈ c.referencesOf handle, dead target = false) :
    (c.discard dead).referencesOf handle = c.referencesOf handle := by
  cases hfind : Entries.find? handle c.references with
  | none =>
    have hnone : Entries.find? handle (c.discard dead).references = none := by
      rw [Entries.find?_eq_none_iff] at hfind ⊢
      intro hmem
      obtain ⟨entry, hentry, rfl⟩ := List.mem_map.mp hmem
      obtain ⟨⟨targets, hbefore, -⟩, -⟩ := mem_references_discard hentry
      exact hfind (List.mem_map.mpr ⟨_, hbefore, rfl⟩)
    rw [referencesOf, referencesOf, hfind, hnone]
  | some targets =>
    have hentry : (handle, targets) ∈ c.references := Entries.mem_of_find? hfind
    have hrefs : c.referencesOf handle = targets := by simp [referencesOf, hfind]
    rw [hrefs] at htargets ⊢
    have hkept : ∀ other ∈ c.heap.keys, dead other = false →
        (c.discard dead).contains other = true := fun other hmem hother =>
      contains_iff.mpr (mem_keys_discard.mpr ⟨hmem, hother⟩)
    -- Nothing is filtered out of the targets, so the entry stays as it is.
    have hall : (targets.filter fun target =>
        !dead target && (c.discard dead).contains target) = targets := by
      rw [List.filter_eq_self]
      intro target htarget
      have hheap := hkept target (hc.target_mem _ hentry target htarget) (htargets target htarget)
      simp [htargets target htarget, hheap]
    have hmem : (handle, targets) ∈ (c.discard dead).references := by
      rw [references_discard]
      refine List.mem_filterMap.mpr ⟨(handle, targets), hentry, ?_⟩
      have hsource := hkept handle (hc.source_mem _ hentry) hlive
      have hne : targets.isEmpty = false := by
        simpa using hc.targets_ne_nil _ hentry
      dsimp only
      rw [hall, hlive, hsource, hne]
      rfl
    -- No other entry of the graph has this handle.
    have hfound := Entries.find?_of_mem (hc.discard dead).graph_sorted.nodup_keys hmem
    rw [referencesOf, hfound, Option.getD_some]

/-- What can be reached keeps its references. -/
theorem referencesOf_collect (hc : c.WellFormed) (allocator : Allocator) {handle : Nat}
    (hreach : c.Reaches handle) :
    (c.collect allocator).2.1.referencesOf handle = c.referencesOf handle := by
  have hlive : ∀ other, c.Reaches other → c.isGarbage other = false := fun other hother =>
    (isGarbage_eq_false_iff hc (hc.contains_of_reaches hother)).mpr hother
  exact referencesOf_discard hc (hlive handle hreach) fun target htarget =>
    hlive target (.reference hreach htarget)

/-- A collection breaks no chain of references from a root. -/
theorem reaches_collect (hc : c.WellFormed) (allocator : Allocator) {handle : Nat}
    (h : c.Reaches handle) : (c.collect allocator).2.1.Reaches handle := by
  induction h with
  | @root handle hroot =>
    refine .root (isRoot_iff.mpr (List.mem_filter.mpr ⟨isRoot_iff.mp hroot, ?_⟩))
    have hreach : c.Reaches handle := .root hroot
    have hlive := (isGarbage_eq_false_iff hc (hc.contains_of_reaches hreach)).mpr hreach
    change (!c.isGarbage handle) = true
    rw [hlive]
    rfl
  | reference hsource htarget ih =>
    exact .reference ih (by rwa [referencesOf_collect hc allocator hsource])

/-- Discarding nothing that is on the heap changes nothing. -/
theorem discard_eq_self (hc : c.WellFormed) {dead : Nat → Bool}
    (hdead : ∀ handle ∈ c.heap.keys, dead handle = false) : c.discard dead = c := by
  have hheap : (c.heap.filter fun entry => !dead entry.1) = c.heap := by
    rw [List.filter_eq_self]
    intro entry hentry
    simp [hdead entry.1 (List.mem_map.mpr ⟨entry, hentry, rfl⟩)]
  have hroots : (c.roots.filter fun handle => !dead handle) = c.roots := by
    rw [List.filter_eq_self]
    intro handle hroot
    simp [hdead handle (hc.root_mem handle hroot)]
  have hgraph : (c.discard dead).references = c.references := by
    rw [discard, hheap]
    refine (List.filterMap_congr fun entry hentry => ?_).trans (List.filterMap_some)
    have hsource := hc.source_mem entry hentry
    have htargets : (entry.2.filter fun target =>
        !dead target && Entries.has target c.heap) = entry.2 := by
      rw [List.filter_eq_self]
      intro target htarget
      have hmem := hc.target_mem entry hentry target htarget
      simp [hdead target hmem, Entries.has_iff_mem_keys.mpr hmem]
    rw [htargets]
    simp [hdead entry.1 hsource, Entries.has_iff_mem_keys.mpr hsource,
      hc.targets_ne_nil entry hentry]
  rw [discard] at hgraph ⊢
  simp only [hheap, hroots] at hgraph ⊢
  rw [hgraph]

/-- Where everything on the heap is reached, a collection only counts itself. -/
theorem collect_of_all_reached (hc : c.WellFormed)
    (hall : ∀ handle, c.contains handle = true → c.Reaches handle) (allocator : Allocator) :
    c.collect allocator =
      (0, { c with counts := { c.counts with collections := c.counts.collections + 1 } },
        allocator) := by
  have hlive : ∀ handle ∈ c.heap.keys, c.isGarbage handle = false := fun handle hmem =>
    (isGarbage_eq_false_iff hc (contains_iff.mpr hmem)).mpr (hall handle (contains_iff.mpr hmem))
  have hblocks : c.blocksOf c.isGarbage = [] := by
    rw [blocksOf, List.map_eq_nil_iff, List.filter_eq_nil_iff]
    intro entry hentry
    simp [hlive entry.1 (List.mem_map.mpr ⟨entry, hentry, rfl⟩)]
  rw [collect_eq, hblocks, discard_eq_self hc hlive]
  rfl

/-- Collection is exact reachability. In every state that operations lead to, a collection keeps an
object exactly when it is on the heap and zero or more references reach it from a root, and it
keeps the object's block. It returns the size of the heap less the number of objects kept, which is
the number of live objects announced before. No freed object is left as a root or in the graph, the
references of those kept are the same as before in order and number, and a second collection
changes nothing but the count of collections. -/
theorem collect_keeps_reached (hreachable : c.Reachable) (allocator : Allocator) :
    (∀ handle, (c.collect allocator).2.1.contains handle = true ↔
      c.contains handle = true ∧ c.Reaches handle) ∧
    (c.collect allocator).2.1.heapSize ≤ c.heapSize ∧
    (c.collect allocator).1 = c.heapSize - (c.collect allocator).2.1.heapSize ∧
    c.liveObjects = (c.collect allocator).2.1.heapSize ∧
    (∀ handle, c.contains handle = true → (c.collect allocator).2.1.contains handle = false →
      (c.collect allocator).2.1.isRoot handle = false ∧
        (c.collect allocator).2.1.isReferenced handle = false) ∧
    (∀ handle, (c.collect allocator).2.1.contains handle = true →
      Entries.find? handle (c.collect allocator).2.1.heap = Entries.find? handle c.heap ∧
        (c.collect allocator).2.1.referencesOf handle = c.referencesOf handle) ∧
    (∀ later, (c.collect allocator).2.1.collect later =
      (0, { (c.collect allocator).2.1 with
        counts := { (c.collect allocator).2.1.counts with
          collections := (c.collect allocator).2.1.counts.collections + 1 } }, later)) := by
  have hc := hreachable.wellFormed
  have hafter := hc.collect allocator
  have hcontains := contains_collect_iff hc allocator
  have hcount := count_add_heapSize_collect c allocator
  refine ⟨hcontains, by omega, by omega, liveObjects_eq_heapSize_collect hc allocator,
    fun handle _ hfreed => ⟨?_, ?_⟩, fun handle hkept => ⟨?_, ?_⟩, ?_⟩
  -- What was freed is not on the heap, and roots and references lead only there.
  · have hgone := mt (hafter.root_mem handle) (mt contains_iff.mpr (by simp [hfreed]))
    simpa [isRoot] using hgone
  · exact isReferenced_eq_false hafter (by simp [hfreed])
  · rw [collect_eq]
    exact (Entries.find?_filter_key (fun other => !c.isGarbage other) handle c.heap).trans
      (if_pos (by
        obtain ⟨hheap, hreach⟩ := (hcontains handle).mp hkept
        simp [(isGarbage_eq_false_iff hc hheap).mpr hreach]))
  · exact referencesOf_collect hc allocator ((hcontains handle).mp hkept).2
  -- Everything left is reached in the collector that is left, so there is no more garbage.
  · exact collect_of_all_reached hafter fun handle hkept =>
      reaches_collect hc allocator ((hcontains handle).mp hkept).2

/-- A root and a second object that refer to each other, the root twice and the second also to
itself, and a third object that only refers to itself. -/
def knots : Collector :=
  let one := ({} : Collector).allocate Host.ample (.direct {}) 8
  let two := one.2.1.allocate Host.ample one.2.2 8
  let three := two.2.1.allocate Host.ample two.2.2 8
  (((((three.2.1.addRoot 1).addReference 1 2).addReference 2 1).addReference 1 2).addReference
    2 2).addReference 3 3

/-- An object that can be reached keeps its references to another one and to itself. -/
theorem collect_keeps_reached_knots :
    knots.Reachable ∧ knots.contains 2 = true ∧ knots.Reaches 2 ∧
      (knots.collect (.direct {})).2.1.contains 2 = true ∧
      (knots.collect (.direct {})).2.1.referencesOf 2 = [1, 2] := by
  have hreachable : knots.Reachable :=
    .addReference _ _ (.addReference _ _ (.addReference _ _ (.addReference _ _ (.addReference _ _
      (.addRoot _ (.allocate _ _ _ (.allocate _ _ _ (.allocate _ _ _ .new))))))))
  have hheap : knots.contains 2 = true := by decide +kernel
  have hreaches : knots.Reaches 2 :=
    .reference (Reaches.root (by decide +kernel : knots.isRoot 1 = true)) (by decide +kernel)
  obtain ⟨hkept, -, -, -, -, hsame, -⟩ := collect_keeps_reached hreachable (.direct {})
  have hafter := (hkept 2).mpr ⟨hheap, hreaches⟩
  have hbefore : knots.referencesOf 2 = [1, 2] := by decide +kernel
  exact ⟨hreachable, hheap, hreaches, hafter, (hsame 2 hafter).2.trans hbefore⟩

end Collector

end StackMachine
