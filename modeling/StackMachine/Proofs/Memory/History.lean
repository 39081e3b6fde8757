import StackMachine.Proofs.Memory.Tables

/-!
# The history of a collector

A collector is used through seven requests, in any order and with any handles: of objects on the
heap, of objects that were freed, of objects that never existed. Its history remembers what the
collector itself forgets: the handles that were returned, and the objects that were given up with
the whole heap.

Each object that was ever allocated is in one of four places: on the heap, among those that a
collection freed, among those freed one by one, or among those given up. A request moves objects
between these places and never loses one.

## Main definitions

* `Collector.Request`: what can be asked of a collector.
* `Collector.History`: a collector with what was returned and given up so far.
* `Collector.History.Consistent`: the graph names objects on the heap only, the handles returned are
  distinct, and every object is in one of the four places.

## Main results

* `Collector.History.Consistent.serve`: every request keeps a history consistent.
* `Collector.graph_on_heap_after`: every sequence of requests to a new collector does.
-/

namespace StackMachine

namespace Collector

/-- What can be asked of a collector. The allocator is shared with others, so each request may find
it, and the host behind it, in any state. -/
inductive Request
  /-- An object is allocated. -/
  | allocate (host : Host) (allocator : Allocator) (size : Nat)
  /-- An object becomes a root. -/
  | addRoot (handle : Nat)
  /-- The roots are forgotten. -/
  | clearRoots
  /-- A reference between two objects is added. -/
  | addReference (source target : Nat)
  /-- What is not reachable is freed. -/
  | collect (allocator : Allocator)
  /-- One object is freed. -/
  | deallocate (allocator : Allocator) (handle : Nat)
  /-- The whole heap is given up. -/
  | clear (allocator : Allocator)

/-- The collector after a request. -/
def serve (c : Collector) : Request → Collector
  | .allocate host allocator size => (c.allocate host allocator size).2.1
  | .addRoot handle => c.addRoot handle
  | .clearRoots => c.clearRoots
  | .addReference source target => c.addReference source target
  | .collect allocator => (c.collect allocator).2.1
  | .deallocate allocator handle => (c.deallocate allocator handle).1
  | .clear allocator => (c.clear allocator).1

/-- The handle that a request returns; only an allocation that succeeds returns one. -/
def returned? (c : Collector) : Request → Option Nat
  | .allocate host allocator size => (c.allocate host allocator size).1
  | _ => none

/-- The number of objects that a request gives up with the whole heap. -/
def givenUp (c : Collector) : Request → Nat
  | .clear _ => c.heapSize
  | _ => 0

/-- A collector with what it has returned and given up so far. -/
structure History where
  /-- The collector. -/
  collector : Collector := {}
  /-- The handles that were returned, the latest first. -/
  issued : List Nat := []
  /-- The number of objects that were given up with the whole heap. -/
  cleared : Nat := 0

namespace History

/-- The history after one more request. -/
def serve (history : History) (request : Request) : History where
  collector := history.collector.serve request
  issued := (history.collector.returned? request).toList ++ history.issued
  cleared := history.cleared + history.collector.givenUp request

/-- The history of a new collector after a sequence of requests. -/
def ofRequests (requests : List Request) : History := requests.foldl serve {}

/-- The collector is well-formed, and its objects are accounted for. -/
structure Consistent (history : History) : Prop where
  /-- Roots and both ends of every reference are on the heap. -/
  wellFormed : history.collector.WellFormed
  /-- No handle was returned twice. -/
  issued_nodup : history.issued.Nodup
  /-- The next handle is above all that were returned. -/
  issued_lt : ∀ handle ∈ history.issued, handle < history.collector.nextHandle
  /-- The handles on the heap are among those returned. -/
  issued_of_contains : ∀ handle, history.collector.contains handle = true →
    handle ∈ history.issued
  /-- Every object is on the heap, was collected, was freed, or was given up. -/
  balance : history.issued.length = history.collector.heapSize +
    history.collector.counts.collected + history.collector.counts.frees + history.cleared

end History

/-! ### What a request does to the heap and the counters -/

variable {c : Collector}

theorem WellFormed.serve (hc : c.WellFormed) (request : Request) :
    (c.serve request).WellFormed := by
  cases request with
  | allocate host allocator size => exact hc.allocate host allocator size
  | addRoot handle => exact hc.addRoot handle
  | clearRoots => exact hc.clearRoots
  | addReference source target => exact hc.addReference source target
  | collect allocator => exact hc.collect allocator
  | deallocate allocator handle => exact hc.deallocate allocator handle
  | clear allocator => exact wellFormed_clear c allocator

/-- The next handle is not on the heap, so an allocation makes the heap larger by one. -/
theorem WellFormed.length_insert_next (hc : c.WellFormed) (block : Block) :
    (Entries.insert c.nextHandle block c.heap).length = c.heapSize + 1 := by
  have hnew : Entries.has c.nextHandle c.heap = false := by
    rw [Bool.eq_false_iff, Ne, Entries.has_iff_mem_keys]
    exact fun hmem => Nat.lt_irrefl _ (hc.handle_lt _ hmem)
  exact (Entries.perm_insert block hnew).length_eq

/-- Handles are distinct, so freeing an object on the heap makes the heap smaller by one. -/
theorem WellFormed.heapSize_deallocate (hc : c.WellFormed) (allocator : Allocator) {handle : Nat}
    (h : c.contains handle = true) :
    (c.deallocate allocator handle).1.heapSize + 1 = c.heapSize := by
  obtain ⟨block, hblock⟩ := Option.isSome_iff_exists.mp h
  have hperm := Entries.perm_erase hc.heap_sorted.nodup_keys hblock
  have hheap : (c.deallocate allocator handle).1.heap = Entries.erase handle c.heap := by
    simp [Collector.deallocate, h, Collector.discard, Entries.erase]
  rw [heapSize, heapSize, hheap, hperm.length_eq, List.length_cons]

namespace History

variable {history : History}

/-! ### Every request keeps a history consistent -/

/-- Where nothing is returned or given up, it is enough to follow the objects that leave the heap:
they are counted as collected or freed. -/
theorem Consistent.of_kept (h : history.Consistent) {after : Collector} (hafter : after.WellFormed)
    (hnext : after.nextHandle = history.collector.nextHandle)
    (hkept : ∀ handle, after.contains handle = true → history.collector.contains handle = true)
    (hcounted : after.heapSize + after.counts.collected + after.counts.frees =
      history.collector.heapSize + history.collector.counts.collected +
        history.collector.counts.frees) :
    ({ history with collector := after } : History).Consistent where
  wellFormed := hafter
  issued_nodup := h.issued_nodup
  issued_lt handle hmem := by
    rw [hnext]
    exact h.issued_lt handle hmem
  issued_of_contains handle hcontains := h.issued_of_contains handle (hkept handle hcontains)
  balance := by
    have hbalance := h.balance
    dsimp only
    omega

/-- The handle of a new object was never returned before, since all those were smaller. -/
theorem Consistent.allocate (h : history.Consistent) (host : Host) (allocator : Allocator)
    (size : Nat) : (history.serve (.allocate host allocator size)).Consistent := by
  have hwf := h.wellFormed.allocate host allocator size
  simp only [serve, Collector.serve, returned?, givenUp]
  generalize hallocate : history.collector.allocate host allocator size = allocated at hwf
  rw [Collector.allocate] at hallocate
  split at hallocate
  next block rest _ =>
    subst hallocate
    refine ⟨hwf, ?_, ?_, ?_, ?_⟩
    · have hnew : history.collector.nextHandle ∉ history.issued := fun hmem =>
        Nat.lt_irrefl _ (h.issued_lt _ hmem)
      exact List.nodup_cons.mpr ⟨hnew, h.issued_nodup⟩
    · intro handle hmem
      rcases List.mem_cons.mp hmem with rfl | hmem
      · exact Nat.lt_succ_self _
      · exact Nat.lt_succ_of_lt (h.issued_lt handle hmem)
    · intro handle hcontains
      rcases mem_keys_insert.mp (contains_iff.mp hcontains) with rfl | hmem
      · exact List.mem_cons_self
      · exact List.mem_cons_of_mem _ (h.issued_of_contains handle (contains_iff.mpr hmem))
    -- One handle more is issued, and one object more is on the heap.
    · have hlength := h.wellFormed.length_insert_next block
      have hbalance := h.balance
      simp only [heapSize, Option.toList_some, List.singleton_append, List.length_cons] at *
      omega
  next =>
    subst hallocate
    exact h

/-- What a collection takes off the heap it counts as collected. -/
theorem Consistent.collect (h : history.Consistent) (allocator : Allocator) :
    (history.serve (.collect allocator)).Consistent := by
  refine h.of_kept (h.wellFormed.collect allocator) rfl ?_ ?_
  · exact fun handle hcontains => contains_of_discard history.collector.isGarbage hcontains
  · have hcount := count_add_heapSize_collect history.collector allocator
    change (history.collector.collect allocator).2.1.heapSize +
      (history.collector.counts.collected + (history.collector.collect allocator).1) +
      history.collector.counts.frees = _
    omega

/-- An object that is freed by itself is counted once; a handle that is not on the heap is ignored,
whether it is stale, unknown or repeated. -/
theorem Consistent.deallocate (h : history.Consistent) (allocator : Allocator) (handle : Nat) :
    (history.serve (.deallocate allocator handle)).Consistent := by
  have hwf := h.wellFormed.deallocate allocator handle
  simp only [serve, Collector.serve, returned?, givenUp]
  by_cases hcontains : history.collector.contains handle = true
  · have hsize := h.wellFormed.heapSize_deallocate allocator hcontains
    rw [Collector.deallocate, if_pos hcontains] at hsize hwf ⊢
    refine h.of_kept hwf rfl ?_ ?_
    · exact fun other hother => contains_of_discard (fun freed => freed = handle) hother
    · dsimp only at hsize ⊢
      omega
  · rw [Collector.deallocate, if_neg hcontains]
    exact h

/-- What is given up with the whole heap is counted by the history. -/
theorem Consistent.clear (h : history.Consistent) (allocator : Allocator) :
    (history.serve (.clear allocator)).Consistent where
  wellFormed := wellFormed_clear history.collector allocator
  issued_nodup := h.issued_nodup
  issued_lt := h.issued_lt
  issued_of_contains handle hcontains := by cases hcontains
  balance := by
    have hbalance := h.balance
    simp only [serve, Collector.serve, returned?, givenUp, Collector.clear, heapSize,
      Option.toList_none, List.nil_append, List.length_nil] at hbalance ⊢
    omega

/-- Every request keeps a history consistent. -/
theorem Consistent.serve (h : history.Consistent) (request : Request) :
    (history.serve request).Consistent := by
  have hwf := h.wellFormed.serve request
  cases request with
  | allocate host allocator size => exact h.allocate host allocator size
  | collect allocator => exact h.collect allocator
  | deallocate allocator handle => exact h.deallocate allocator handle
  | clear allocator => exact h.clear allocator
  -- Roots and references have nothing to do with the heap.
  | clearRoots => exact h.of_kept hwf rfl (fun _ hcontains => hcontains) rfl
  | addRoot handle =>
    simp only [History.serve, Collector.serve, returned?, givenUp] at hwf ⊢
    by_cases hadded : (history.collector.contains handle && !history.collector.isRoot handle) = true
    · rw [Collector.addRoot, if_pos hadded] at hwf ⊢
      exact h.of_kept hwf rfl (fun _ hcontains => hcontains) rfl
    · rw [Collector.addRoot, if_neg hadded]
      exact h
  | addReference source target =>
    simp only [History.serve, Collector.serve, returned?, givenUp] at hwf ⊢
    by_cases hboth :
        (history.collector.contains source && history.collector.contains target) = true
    · rw [Collector.addReference, if_pos hboth] at hwf ⊢
      exact h.of_kept hwf rfl (fun _ hcontains => hcontains) rfl
    · rw [Collector.addReference, if_neg hboth]
      exact h

/-- A new collector has no objects. -/
theorem consistent_new : ({} : History).Consistent where
  wellFormed := wellFormed_new
  issued_nodup := List.nodup_nil
  issued_lt := by simp
  issued_of_contains handle hcontains := by cases hcontains
  balance := rfl

/-- What one request keeps, a sequence of requests keeps. -/
theorem Consistent.foldl_serve (h : history.Consistent) (requests : List Request) :
    (requests.foldl History.serve history).Consistent := by
  induction requests generalizing history with
  | nil => exact h
  | cons request requests ih => exact ih (h.serve request)

end History

/-- What holds of a collector after every sequence of requests to a new one, with handles in any
order, stale, unknown or repeated. Every root and both ends of every reference are on the heap, and
no object is in the graph without references. The handles that were returned are distinct and below
the next one, and those on the heap are among them. The objects that were allocated are as many as
are on the heap, were collected, were freed one by one, or were given up with the whole heap. -/
theorem graph_on_heap_after (requests : List Request) :
    let history := History.ofRequests requests
    let c := history.collector
    (∀ root ∈ c.roots, c.contains root = true) ∧
    (∀ source targets, (source, targets) ∈ c.references →
      c.contains source = true ∧ targets ≠ [] ∧ ∀ target ∈ targets, c.contains target = true) ∧
    history.issued.Nodup ∧ (∀ handle ∈ history.issued, handle < c.nextHandle) ∧
    (∀ handle, c.contains handle = true → handle ∈ history.issued) ∧
    history.issued.length = c.heapSize + c.counts.collected + c.counts.frees + history.cleared := by
  intro history c
  have h : history.Consistent := History.consistent_new.foldl_serve requests
  refine ⟨?_, ?_, h.issued_nodup, h.issued_lt, h.issued_of_contains, h.balance⟩
  · exact fun root hroot => contains_iff.mpr (h.wellFormed.root_mem root hroot)
  · intro source targets hentry
    have htargets := h.wellFormed.target_mem _ hentry
    exact ⟨contains_iff.mpr (h.wellFormed.source_mem _ hentry),
      h.wellFormed.targets_ne_nil _ hentry,
      fun target htarget => contains_iff.mpr (htargets target htarget)⟩

end Collector

end StackMachine
