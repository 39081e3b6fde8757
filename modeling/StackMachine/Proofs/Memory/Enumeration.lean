import Mathlib.Data.List.Nodup
import Mathlib.Data.Option.Basic
import StackMachine.Proofs.Memory.Freeing

/-!
# The order in which a collector goes through its tables

To collect, a collector goes through its roots, its heap, its references and the garbage; to give up
the whole heap, it goes through the heap. Here each of these tables is gone through in an order of
its own, one handle after the other: an object is released by taking it from the roots and the heap
and handing its block to the allocator, and the references of an object are rewritten in place.

No order can be told from another. The traversal finds the same objects from wherever it sets out,
releasing and rewriting leave the same collector, and the allocator gets the same blocks in another
order, which its figures do not show. So whoever shares the allocator gets the same answers
afterwards.

## Main definitions

* `Collector.Enumeration` and `Collector.Order`: the orders in which tables are gone through.
* `Collector.collectIn` and `Collector.clearIn`: collecting and giving up, in an order.
* `Sharing` and `Sharing.Reachable`: a collector and others that use one allocator.
* `Sharing.Indistinguishable`: the same collector, and an allocator that shows and answers the same.

## Main results

* `Collector.foldl_release`: what is left after objects were released one after the other.
* `Collector.purgeIn_eq`: what is left after references were rewritten one after the other.
* `Collector.collectIn_eq` and `Collector.clearIn_eq`: the outcome in any order.
* `Sharing.order_unobservable`: no order can be told from another.
-/

namespace StackMachine

namespace Collector

/-- An order in which a table is gone through: it lists each key of the table once, and may depend
on the keys in any way. -/
structure Enumeration where
  /-- The keys in this order. -/
  list : List Nat → List Nat
  /-- They are the keys of the table. -/
  perm : ∀ keys, (list keys).Perm keys

/-- The order of the keys in the table. -/
def Enumeration.stored : Enumeration := ⟨id, List.Perm.refl⟩

/-- The last key of the table comes first. -/
def Enumeration.reversed : Enumeration := ⟨List.reverse, List.reverse_perm⟩

/-- The orders in which a collector goes through its tables. -/
structure Order where
  /-- The roots, from which the traversal sets out. -/
  roots : Enumeration
  /-- The heap, in which the garbage is looked for. -/
  heap : Enumeration
  /-- The garbage, which is released. -/
  garbage : Enumeration
  /-- The objects with references, which are rewritten. -/
  references : Enumeration

/-- Everything is gone through as it is stored. -/
def Order.stored : Order := ⟨.stored, .stored, .stored, .stored⟩

/-- Everything is gone through backwards. -/
def Order.reversed : Order := ⟨.reversed, .reversed, .reversed, .reversed⟩

/-- Takes an object from the roots and the heap, and hands its block to the allocator. -/
def release (state : Collector × Allocator) (handle : Nat) : Collector × Allocator :=
  ({ state.1 with
      heap := Entries.erase handle state.1.heap
      roots := state.1.roots.filter (· ≠ handle) },
    state.2.deallocateAll (Entries.find? handle state.1.heap).toList)

/-- What is left of the references of an object: an object that is dead or not on the heap has none,
and neither has one that would keep none. -/
def retained (heap : Entries Nat Block) (dead : Nat → Bool) (entry : Nat × List Nat) :
    Option (Nat × List Nat) :=
  let targets := entry.2.filter fun target => !dead target && Entries.has target heap
  if dead entry.1 || !Entries.has entry.1 heap || targets.isEmpty then none
  else some (entry.1, targets)

/-- Rewrites the references of one object. -/
def purge (heap : Entries Nat Block) (dead : Nat → Bool) (references : Entries Nat (List Nat))
    (source : Nat) : Entries Nat (List Nat) :=
  ((Entries.find? source references).bind fun targets => retained heap dead (source, targets)).elim
    (Entries.erase source references)
    fun kept => Entries.insert source kept.2 references

/-- Rewrites the references of all objects. -/
def purgeIn (order : Enumeration) (c : Collector) (dead : Nat → Bool) : Collector :=
  { c with references := (order.list c.references.keys).foldl (purge c.heap dead) c.references }

/-- The objects that are not reached, in the order in which they are released. -/
def garbageIn (order : Order) (c : Collector) : List Nat :=
  let live := c.visit (order.roots.list c.roots) []
  order.garbage.list ((order.heap.list c.heap.keys).filter fun handle => !live.contains handle)

/-- Frees every object that is not reachable and returns the number of objects freed. -/
def collectIn (order : Order) (c : Collector) (allocator : Allocator) :
    Nat × Collector × Allocator :=
  let garbage := c.garbageIn order
  let released := garbage.foldl release (c, allocator)
  let kept := released.1.purgeIn order.references garbage.contains
  (garbage.length,
    { kept with counts := { c.counts with
        collections := c.counts.collections + 1
        collected := c.counts.collected + garbage.length } },
    released.2)

/-- Frees every object. -/
def clearIn (order : Order) (c : Collector) (allocator : Allocator) : Collector × Allocator :=
  let released := (order.heap.list c.heap.keys).foldl release (c, allocator)
  ({ released.1 with references := [] }, released.2)

variable {c : Collector}

/-! ### Releasing -/

/-- The blocks of objects, in the order in which the objects are listed. -/
def blocksAt (c : Collector) (handles : List Nat) : List Block :=
  handles.filterMap fun handle => Entries.find? handle c.heap

/-- The collector without some of its objects, while the references are still to be rewritten. -/
def without (c : Collector) (dead : Nat → Bool) : Collector :=
  { c with
    heap := c.heap.filter fun entry => !dead entry.1
    roots := c.roots.filter fun handle => !dead handle }

/-- Releasing two sets of objects is releasing their union. -/
theorem without_without (c : Collector) (first second : Nat → Bool) :
    (c.without first).without second = c.without fun handle => first handle || second handle := by
  simp only [without, List.filter_filter, Bool.not_or, Bool.and_comm]

/-- Releasing an object takes it out of the tables and gives back its block, if it is there. -/
theorem release_eq (c : Collector) (allocator : Allocator) (handle : Nat) :
    release (c, allocator) handle =
      (c.without fun other => other = handle, allocator.deallocateAll (c.blocksAt [handle])) := by
  have hblocks : (Entries.find? handle c.heap).toList = c.blocksAt [handle] := by
    rw [blocksAt, List.filterMap_cons]
    cases Entries.find? handle c.heap <;> rfl
  simp only [release, hblocks, without, Entries.erase, decide_not]

/-- After objects were released one after the other, the collector is without them, and the
allocator has their blocks in the order in which they were released. -/
theorem foldl_release (c : Collector) (allocator : Allocator) {handles : List Nat}
    (hnodup : handles.Nodup) :
    handles.foldl release (c, allocator) =
      (c.without handles.contains, allocator.deallocateAll (c.blocksAt handles)) := by
  -- The induction is on the objects; each one is released from what the ones before it have left.
  induction handles generalizing c allocator with
  | nil => simp [without, blocksAt, Allocator.deallocateAll]
  | cons first handles ih =>
    obtain ⟨hfirst, hrest⟩ := List.nodup_cons.mp hnodup
    -- The others are found as before, since they are other objects.
    have hblocks :
        (c.without fun other => other = first).blocksAt handles = c.blocksAt handles := by
      refine List.filterMap_congr fun handle hmem => ?_
      have hne : handle ≠ first := by
        rintro rfl
        exact hfirst hmem
      rw [without, Entries.find?_filter_key fun other => !decide (other = first)]
      simp [hne]
    have hgiven : c.blocksAt [first] ++ c.blocksAt handles = c.blocksAt (first :: handles) :=
      List.filterMap_append.symm
    rw [List.foldl_cons, release_eq, ih _ _ hrest, without_without, or_contains_eq, hblocks,
      ← hgiven, Allocator.deallocateAll_append]

/-- The blocks of listed objects are those that a condition selects, if it selects these objects. -/
theorem WellFormed.blocksAt_filter (hc : c.WellFormed) (dead : Nat → Bool) :
    c.blocksAt (c.heap.keys.filter dead) = c.blocksOf dead := by
  rw [blocksAt, ← Entries.keys_filter_key, Entries.keys, List.filterMap_map, blocksOf,
    ← List.filterMap_eq_map]
  refine List.filterMap_congr fun entry hentry => ?_
  exact Entries.find?_of_mem hc.heap_sorted.nodup_keys (List.mem_of_mem_filter hentry)

/-! ### Rewriting references -/

/-- The references that stay belong to the same object. -/
theorem key_retained (heap : Entries Nat Block) (dead : Nat → Bool) (entry kept : Nat × List Nat)
    (h : retained heap dead entry = some kept) : kept.1 = entry.1 := by
  unfold retained at h
  dsimp only at h
  split at h
  next => cases h
  next => rw [← Option.some.inj h]

section Purge

variable {heap : Entries Nat Block} {dead : Nat → Bool} {references : Entries Nat (List Nat)}

/-- Rewriting the references of an object keeps their order. -/
theorem sorted_purge (h : references.Sorted) (source : Nat) :
    (purge heap dead references source).Sorted := by
  unfold purge
  cases (Entries.find? source references).bind fun targets =>
      retained heap dead (source, targets) with
  | none => exact h.filter _
  | some kept => exact Entries.sorted_insert source kept.2 h

/-- Rewriting the references of one object leaves those of the others as they are. -/
theorem find?_purge (references : Entries Nat (List Nat)) (source key : Nat) :
    Entries.find? key (purge heap dead references source) =
      if source = key then
        (Entries.find? key references).bind fun targets =>
          (retained heap dead (key, targets)).map (·.2)
      else Entries.find? key references := by
  unfold purge
  by_cases hkey : source = key
  · subst hkey
    rw [if_pos rfl]
    cases Entries.find? source references with
    | none => simp [Entries.find?_erase]
    | some targets =>
      rw [Option.bind_some, Option.bind_some]
      cases retained heap dead (source, targets) with
      | none => simp [Entries.find?_erase]
      | some kept => simp [Entries.find?_insert]
  · rw [if_neg hkey]
    cases (Entries.find? source references).bind fun targets =>
        retained heap dead (source, targets) with
    | none => simp [Entries.find?_erase, hkey]
    | some kept => simp [Entries.find?_insert, hkey]

theorem sorted_foldl_purge (h : references.Sorted) (sources : List Nat) :
    (sources.foldl (purge heap dead) references).Sorted := by
  induction sources generalizing references with
  | nil => exact h
  | cons source sources ih => exact ih (sorted_purge h source)

/-- After the references of some objects were rewritten one after the other, each of these has what
is left of its references, and the others have theirs. -/
theorem find?_foldl_purge {sources : List Nat} (hnodup : sources.Nodup) (key : Nat) :
    Entries.find? key (sources.foldl (purge heap dead) references) =
      if key ∈ sources then
        (Entries.find? key references).bind fun targets =>
          (retained heap dead (key, targets)).map (·.2)
      else Entries.find? key references := by
  induction sources generalizing references with
  | nil => simp
  | cons source sources ih =>
    obtain ⟨hsource, hrest⟩ := List.nodup_cons.mp hnodup
    rw [List.foldl_cons, ih hrest, find?_purge]
    -- No object is listed twice, so what was rewritten is not rewritten again.
    by_cases hkey : source = key
    · subst hkey
      simp [hsource]
    · simp [hkey, Ne.symm hkey]

end Purge

/-- In whatever order the references are rewritten once objects were released, what is left is what
discarding these objects leaves. -/
theorem WellFormed.purgeIn_eq (hc : c.WellFormed) (order : Enumeration) (dead : Nat → Bool) :
    (c.without dead).purgeIn order dead = c.discard dead := by
  have hperm := order.perm c.references.keys
  have hnodup : (order.list c.references.keys).Nodup :=
    hperm.nodup_iff.mpr hc.graph_sorted.nodup_keys
  have hreferences : (order.list c.references.keys).foldl (purge (c.discard dead).heap dead)
      c.references = (c.discard dead).references := by
    -- Both tables are sorted, so it is enough to look up every object.
    refine Entries.Sorted.ext (sorted_foldl_purge hc.graph_sorted _)
      (hc.discard dead).graph_sorted fun key => ?_
    have hdiscard : Entries.find? key (c.discard dead).references =
        (Entries.find? key c.references).bind fun targets =>
          (retained (c.discard dead).heap dead (key, targets)).map (·.2) :=
      Entries.find?_filterMap (key_retained _ _) key hc.graph_sorted.nodup_keys
    rw [find?_foldl_purge hnodup, hdiscard]
    split
    next => rfl
    next hkey =>
      rw [hperm.mem_iff] at hkey
      rw [Entries.find?_eq_none_iff.mpr hkey, Option.bind_none]
  exact congrArg (fun references => { c.discard dead with references }) hreferences

/-! ### Collecting and giving up -/

/-- From wherever the traversal sets out, the garbage is the same. -/
theorem WellFormed.perm_garbageIn (hc : c.WellFormed) (order : Order) :
    (c.garbageIn order).Perm (c.heap.keys.filter c.isGarbage) := by
  have hlive : ∀ handle, (c.visit (order.roots.list c.roots) []).contains handle =
      c.reachable.contains handle := by
    intro handle
    rw [Bool.eq_iff_iff, List.contains_iff_mem, List.contains_iff_mem, mem_reachable_iff hc]
    exact mem_visit_iff hc fun other => (order.roots.perm c.roots).mem_iff
  have hgarbage : (c.heap.keys.filter fun handle =>
      !(c.visit (order.roots.list c.roots) []).contains handle) =
      c.heap.keys.filter c.isGarbage := by
    refine List.filter_congr fun handle hmem => ?_
    rw [isGarbage, contains_iff.mpr hmem, hlive, Bool.true_and]
  rw [← hgarbage]
  exact (order.garbage.perm _).trans ((order.heap.perm _).filter _)

/-- The outcome of a collection in any order is that of a collection, except that the blocks are
handed to the allocator in this order. -/
theorem WellFormed.collectIn_eq (hc : c.WellFormed) (order : Order) (allocator : Allocator) :
    c.collectIn order allocator =
      ((c.collect allocator).1, (c.collect allocator).2.1,
        allocator.deallocateAll (c.blocksAt (c.garbageIn order))) := by
  have hperm := hc.perm_garbageIn order
  have hnodup : (c.garbageIn order).Nodup :=
    hperm.nodup_iff.mpr (hc.heap_sorted.nodup_keys.filter _)
  -- To be listed is to be garbage, whatever the order of the list.
  have hdead : (c.garbageIn order).contains = c.isGarbage := by
    funext handle
    rw [Bool.eq_iff_iff, List.contains_iff_mem, hperm.mem_iff, List.mem_filter, ← contains_iff]
    refine and_iff_right_of_imp fun hgarbage => ?_
    rw [isGarbage, Bool.and_eq_true_iff] at hgarbage
    exact hgarbage.1
  have hcount : (c.garbageIn order).length = (c.blocksOf c.isGarbage).length := by
    rw [hperm.length_eq, ← Entries.keys_filter_key, Entries.keys, blocksOf, List.length_map,
      List.length_map]
  simp only [collectIn, foldl_release c allocator hnodup, hdead, hcount, hc.purgeIn_eq, collect_eq]

/-- The outcome of giving up the heap in any order is that of giving it up, except that the blocks
are handed to the allocator in this order. -/
theorem WellFormed.clearIn_eq (hc : c.WellFormed) (order : Order) (allocator : Allocator) :
    c.clearIn order allocator =
      ((c.clear allocator).1,
        allocator.deallocateAll (c.blocksAt (order.heap.list c.heap.keys))) := by
  have hperm := order.heap.perm c.heap.keys
  have hnodup : (order.heap.list c.heap.keys).Nodup :=
    hperm.nodup_iff.mpr hc.heap_sorted.nodup_keys
  have hlisted : ∀ handle ∈ c.heap.keys, (order.heap.list c.heap.keys).contains handle = true := by
    intro handle hmem
    rw [List.contains_iff_mem, hperm.mem_iff]
    exact hmem
  have hheap : (c.without (order.heap.list c.heap.keys).contains).heap = [] := by
    refine List.filter_eq_nil_iff.mpr fun entry hentry => ?_
    simp only [hlisted entry.1 (List.mem_map_of_mem hentry), Bool.not_true, Bool.false_eq_true,
      not_false_eq_true]
  -- Roots are on the heap, so they go as well.
  have hroots : (c.without (order.heap.list c.heap.keys).contains).roots = [] := by
    refine List.filter_eq_nil_iff.mpr fun handle hroot => ?_
    simp only [hlisted handle (hc.root_mem handle hroot), Bool.not_true, Bool.false_eq_true,
      not_false_eq_true]
  simp only [clearIn, foldl_release c allocator hnodup, hheap, hroots, clear]
  rfl

/-- Going through the tables as they are stored is what collecting does. -/
theorem WellFormed.collectIn_stored (hc : c.WellFormed) (allocator : Allocator) :
    c.collectIn .stored allocator = c.collect allocator := by
  have hgarbage : c.garbageIn .stored = c.heap.keys.filter c.isGarbage :=
    List.filter_congr fun handle hmem => by
      rw [isGarbage, contains_iff.mpr hmem, Bool.true_and]
      rfl
  rw [hc.collectIn_eq, hgarbage, hc.blocksAt_filter]
  rfl

/-- Going through the heap as it is stored is what giving it up does. -/
theorem WellFormed.clearIn_stored (hc : c.WellFormed) (allocator : Allocator) :
    c.clearIn .stored allocator = c.clear allocator := by
  have hblocks : c.blocksAt c.heap.keys = c.heap.values := by
    have hall := hc.blocksAt_filter fun _ => true
    rwa [List.filter_true, blocksOf, List.filter_true] at hall
  rw [hc.clearIn_eq]
  exact congrArg (fun blocks => ((c.clear allocator).1, allocator.deallocateAll blocks)) hblocks

end Collector

/-! ### A shared allocator -/

/-- A collector and others that use one allocator. -/
structure Sharing where
  /-- The collector. -/
  collector : Collector := {}
  /-- The allocator. -/
  allocator : Allocator
  /-- The blocks that others have. -/
  others : List Block := []

namespace Sharing

open Collector (Order)

/-- The allocator with all blocks that it has lent. -/
def lending (s : Sharing) : Allocator.Lending where
  allocator := s.allocator
  lent := s.collector.heap.values ++ s.others

/-- The collector allocates an object. -/
def allocate (s : Sharing) (host : Host) (size : Nat) : Sharing :=
  let (_, collector, allocator) := s.collector.allocate host s.allocator size
  { s with collector, allocator }

/-- The collector frees one object. -/
def deallocate (s : Sharing) (handle : Nat) : Sharing :=
  let (collector, allocator) := s.collector.deallocate s.allocator handle
  { s with collector, allocator }

/-- A collection, which returns the number of objects freed. -/
def collectIn (order : Order) (s : Sharing) : Nat × Sharing :=
  let (count, collector, allocator) := s.collector.collectIn order s.allocator
  (count, { s with collector, allocator })

/-- The collector gives up the whole heap. -/
def clearIn (order : Order) (s : Sharing) : Sharing :=
  let (collector, allocator) := s.collector.clearIn order s.allocator
  { s with collector, allocator }

/-- Others ask for a block, write to one of theirs or give one back. -/
def serve (s : Sharing) (request : Allocator.Request) : Sharing :=
  let (_, after) := Allocator.Lending.serve ⟨s.allocator, s.others⟩ request
  { s with allocator := after.allocator, others := after.lent }

/-- What a collector and others come to from a fresh allocator. Each time the tables are gone
through, it may be in another order. -/
inductive Reachable : Sharing → Prop
  | new {allocator : Allocator} : allocator.IsFresh → Reachable { allocator }
  | allocate (host : Host) (size : Nat) {s : Sharing} :
      Reachable s → Reachable (s.allocate host size)
  | addRoot (handle : Nat) {s : Sharing} : Reachable s →
      Reachable { s with collector := s.collector.addRoot handle }
  | clearRoots {s : Sharing} : Reachable s →
      Reachable { s with collector := s.collector.clearRoots }
  | addReference (source target : Nat) {s : Sharing} : Reachable s →
      Reachable { s with collector := s.collector.addReference source target }
  | deallocate (handle : Nat) {s : Sharing} : Reachable s → Reachable (s.deallocate handle)
  | collect (order : Order) {s : Sharing} : Reachable s → Reachable (s.collectIn order).2
  | clear (order : Order) {s : Sharing} : Reachable s → Reachable (s.clearIn order)
  | serve (request : Allocator.Request) {s : Sharing} : Reachable s → Reachable (s.serve request)

/-- The graph is about objects on the heap, and all blocks, cached or lent, have the capacity of
their class. -/
structure Sound (s : Sharing) : Prop where
  /-- The collector is well-formed. -/
  wellFormed : s.collector.WellFormed
  /-- What is cached has the capacity of its class. -/
  allocator : s.allocator.Sound
  /-- What is on the heap has, too. -/
  heap : ∀ block ∈ s.collector.heap.values, block.FitsClass
  /-- And so has what others have. -/
  others : ∀ block ∈ s.others, block.FitsClass

/-- Two of them that nothing tells apart: the collectors are the same, the allocators show the same,
and whatever is asked of them afterwards has the same answers. -/
structure Indistinguishable (one other : Sharing) : Prop where
  /-- The same heap, roots, references and counters. -/
  collector : one.collector = other.collector
  /-- The same counters of the allocator. -/
  counts : one.allocator.counts = other.allocator.counts
  /-- As many cached blocks in every size class. -/
  cached : one.allocator.cached = other.allocator.cached
  /-- As many lent blocks in every size class. -/
  outstanding : one.allocator.outstanding = other.allocator.outstanding
  /-- The same blocks for all later requests. -/
  answers : ∀ requests, (one.lending.serveAll requests).1 = (other.lending.serveAll requests).1
  /-- And these are made of zeros. -/
  zeros : ∀ requests block, some block ∈ (one.lending.serveAll requests).1 →
    ∀ byte ∈ block.contents, byte = 0

variable {s : Sharing}

/-- The collector after it has handed blocks of its heap to the allocator. -/
def handing (s : Sharing) (collector : Collector) (blocks : List Block) : Sharing :=
  { s with collector, allocator := s.allocator.deallocateAll blocks }

/-- A state stays sound that hands over blocks of its heap. -/
theorem Sound.handing (h : s.Sound) {collector : Collector} {blocks : List Block}
    (hcollector : collector.WellFormed)
    (hheap : ∀ block ∈ collector.heap.values, block ∈ s.collector.heap.values)
    (hblocks : ∀ block ∈ blocks, block ∈ s.collector.heap.values) :
    (s.handing collector blocks).Sound where
  wellFormed := hcollector
  allocator := h.allocator.deallocateAll fun block hmem => h.heap block (hblocks block hmem)
  heap block hmem := h.heap block (hheap block hmem)
  others := h.others

/-- The order in which blocks are handed to the allocator cannot be told. -/
theorem Sound.indistinguishable {collector : Collector} {blocks others : List Block}
    (h : (s.handing collector blocks).Sound) (hother : (s.handing collector others).Sound)
    (hperm : blocks.Perm others) :
    (s.handing collector blocks).Indistinguishable (s.handing collector others) := by
  have hfigures := Allocator.figures_deallocateAll_of_perm s.allocator hperm
  -- What is lent is the same on both sides, since the collectors and the others are.
  have hresembles : (s.handing collector blocks).lending.Resembles
      (s.handing collector others).lending :=
    { lent := rfl
      figures := hfigures
      sound_left := h.allocator
      sound_right := hother.allocator
      fits := fun block hmem => (List.mem_append.mp hmem).elim (h.heap block) (h.others block) }
  exact
    { collector := rfl
      counts := Allocator.counts_eq_of_figures hfigures
      cached := Allocator.cached_eq_of_figures hfigures
      outstanding := Allocator.outstanding_eq_of_figures hfigures
      answers := fun requests => (hresembles.serveAll requests).1
      zeros := fun requests => (hresembles.serveAll requests).2 }

/-- The blocks of objects are blocks of the heap. -/
theorem mem_values_of_blocksAt {c : Collector} {handles : List Nat} {block : Block}
    (h : block ∈ c.blocksAt handles) : block ∈ c.heap.values := by
  obtain ⟨handle, -, hfound⟩ := List.mem_filterMap.mp h
  exact List.mem_map.mpr ⟨_, Entries.mem_of_find? hfound, rfl⟩

theorem mem_values_of_discard (c : Collector) (dead : Nat → Bool) (block : Block)
    (h : block ∈ (c.discard dead).heap.values) : block ∈ c.heap.values :=
  (Collector.values_discard c dead).mem_iff.mpr (List.mem_append_right _ h)

/-- A collection in any order hands over the blocks of the garbage, in an order of its own. -/
theorem Sound.collectIn_eq (h : s.Sound) (order : Order) :
    s.collectIn order =
      ((s.collector.collect s.allocator).1,
        s.handing (s.collector.collect s.allocator).2.1
          (s.collector.blocksAt (s.collector.garbageIn order))) := by
  rw [collectIn, h.wellFormed.collectIn_eq]
  rfl

/-- Giving up the heap hands over all blocks, in an order of its own. -/
theorem Sound.clearIn_eq (h : s.Sound) (order : Order) :
    s.clearIn order =
      s.handing (s.collector.clear s.allocator).1
        (s.collector.blocksAt (order.heap.list s.collector.heap.keys)) := by
  rw [clearIn, h.wellFormed.clearIn_eq]
  rfl

theorem Sound.collectIn (h : s.Sound) (order : Order) : (s.collectIn order).2.Sound := by
  rw [h.collectIn_eq]
  exact h.handing (h.wellFormed.collect _) (mem_values_of_discard _ s.collector.isGarbage)
    fun _ => mem_values_of_blocksAt

theorem Sound.clearIn (h : s.Sound) (order : Order) : (s.clearIn order).Sound := by
  rw [h.clearIn_eq]
  exact h.handing (Collector.wellFormed_clear _ _) (fun _ hmem => absurd hmem List.not_mem_nil)
    fun _ => mem_values_of_blocksAt

/-- Freeing one object keeps a state sound. -/
theorem Sound.deallocate (h : s.Sound) (handle : Nat) : (s.deallocate handle).Sound := by
  rw [Sharing.deallocate, h.wellFormed.deallocate_eq]
  exact h.handing (h.wellFormed.freed _) (mem_values_of_discard _ fun other => other = handle)
    fun block hmem =>
      (Collector.values_discard s.collector _).mem_iff.mpr (List.mem_append_left _ hmem)

/-- So does a new object, also one that is refused. -/
theorem Sound.allocate (h : s.Sound) (host : Host) (size : Nat) : (s.allocate host size).Sound := by
  obtain ⟨hallocator, hblock⟩ := h.allocator.allocate host size
  have hcollector := h.wellFormed.allocate host s.allocator size
  simp only [Sharing.allocate, Collector.allocate] at hcollector ⊢
  revert hallocator hblock hcollector
  cases s.allocator.allocate host size with
  | mk answer after =>
    cases answer with
    | none => exact fun hallocator _ _ => ⟨h.wellFormed, hallocator, h.heap, h.others⟩
    | some block =>
      intro hallocator hblock hcollector
      refine ⟨hcollector, hallocator, fun other hmem => ?_, h.others⟩
      obtain ⟨entry, hentry, rfl⟩ := List.mem_map.mp hmem
      rcases Entries.mem_insert hentry with rfl | hentry
      · exact (hblock block rfl).1
      · exact h.heap _ (List.mem_map.mpr ⟨entry, hentry, rfl⟩)

/-- So does serving another user of the allocator. -/
theorem Sound.serve (h : s.Sound) (request : Allocator.Request) : (s.serve request).Sound := by
  have hresembles : Allocator.Lending.Resembles ⟨s.allocator, s.others⟩ ⟨s.allocator, s.others⟩ :=
    ⟨rfl, rfl, h.allocator, h.allocator, h.others⟩
  obtain ⟨-, hafter, -⟩ := hresembles.serve request
  exact ⟨h.wellFormed, hafter.sound_left, h.heap, hafter.fits⟩

/-- Roots and references do not concern the blocks. -/
theorem Sound.of_heap_eq (h : s.Sound) {collector : Collector} (hcollector : collector.WellFormed)
    (hheap : collector.heap = s.collector.heap) : Sound { s with collector } :=
  { h with
    wellFormed := hcollector
    heap := fun block hmem => h.heap block (hheap ▸ hmem) }

/-- However a collector and others come to share an allocator, all blocks have the capacity of their
class. -/
theorem Reachable.sound (h : s.Reachable) : s.Sound := by
  induction h with
  | new hfresh =>
    exact ⟨Collector.wellFormed_new, hfresh.sound, fun _ hmem => absurd hmem List.not_mem_nil,
      fun _ hmem => absurd hmem List.not_mem_nil⟩
  | allocate host size _ ih => exact ih.allocate host size
  | addRoot handle _ ih =>
    refine ih.of_heap_eq (ih.wellFormed.addRoot handle) ?_
    unfold Collector.addRoot
    split <;> rfl
  | clearRoots _ ih => exact ih.of_heap_eq ih.wellFormed.clearRoots rfl
  | addReference source target _ ih =>
    refine ih.of_heap_eq (ih.wellFormed.addReference source target) ?_
    unfold Collector.addReference
    split <;> rfl
  | deallocate handle _ ih => exact ih.deallocate handle
  | collect order _ ih => exact ih.collectIn order
  | clear order _ ih => exact ih.clearIn order
  | serve request _ ih => exact ih.serve request

/-- **The order in which a collector goes through its tables cannot be told.** In whatever orders
two collections, or two ways to give up the heap, go through roots, heap, garbage and references,
they return the same number, leave the same collector and an allocator that shows the same, and all
that is asked of the allocator afterwards has the same answers. The order in which the tables are
stored is one of these orders. -/
theorem order_unobservable (hs : s.Reachable) (one other : Order) :
    (s.collectIn one).1 = (s.collectIn other).1 ∧
      (s.collectIn one).2.Indistinguishable (s.collectIn other).2 ∧
      (s.clearIn one).Indistinguishable (s.clearIn other) ∧
      s.collector.collectIn .stored s.allocator = s.collector.collect s.allocator ∧
      s.collector.clearIn .stored s.allocator = s.collector.clear s.allocator := by
  have h := hs.sound
  have hgarbage : ∀ order, (s.collector.garbageIn order).Perm _ := h.wellFormed.perm_garbageIn
  refine ⟨?_, ?_, ?_, h.wellFormed.collectIn_stored _, h.wellFormed.clearIn_stored _⟩
  · rw [h.collectIn_eq, h.collectIn_eq]
  · have hone := h.collectIn one
    have hother := h.collectIn other
    rw [h.collectIn_eq] at hone hother ⊢
    rw [h.collectIn_eq]
    exact hone.indistinguishable hother
      (((hgarbage one).trans (hgarbage other).symm).filterMap _)
  · have hone := h.clearIn one
    have hother := h.clearIn other
    rw [h.clearIn_eq] at hone hother ⊢
    rw [h.clearIn_eq]
    exact hone.indistinguishable hother
      (((one.heap.perm _).trans (other.heap.perm _).symm).filterMap _)

/-- Three objects, the first and the last of which have blocks of the same size class that were
asked for with different sizes. -/
def threeSizes : Sharing :=
  ((({ allocator := .pooled (Pool.fresh 2) } : Sharing).allocate Host.ample 8).allocate Host.ample
    20).allocate Host.ample 5

/-- The second object is a root, and the first one refers to the last. -/
def crossed : Sharing :=
  { threeSizes with collector := (threeSizes.collector.addRoot 2).addReference 1 3 }

/-- Two objects of one size class are freed in one order or the other. -/
theorem order_unobservable_crossed :
    crossed.Reachable ∧
      (crossed.collectIn .stored).1 = 2 ∧
      (crossed.collectIn .reversed).1 = 2 ∧
      (crossed.collectIn .stored).2.Indistinguishable (crossed.collectIn .reversed).2 := by
  have hfresh : (Allocator.pooled (Pool.fresh 2)).IsFresh := rfl
  have hthree : threeSizes.Reachable :=
    (((Reachable.new hfresh).allocate Host.ample 8).allocate Host.ample 20).allocate Host.ample 5
  have hreachable : crossed.Reachable := (hthree.addRoot 2).addReference 1 3
  obtain ⟨hcount, hsame, -⟩ := order_unobservable hreachable .stored .reversed
  have hlive : crossed.collector.visit crossed.collector.roots [] = [2] := by
    have hroots : crossed.collector.roots = [2] := by decide +kernel
    have htargets : crossed.collector.referencesOf 2 = [] := by decide +kernel
    have hfound : ([].contains 2 || !crossed.collector.contains 2) = false := by decide +kernel
    simp only [hroots, Collector.visit, hfound, htargets, Bool.false_eq_true, if_false,
      List.append_nil]
  have htwo : (crossed.collectIn .stored).1 = 2 := by
    have hgarbage : crossed.collector.garbageIn .stored =
        crossed.collector.heap.keys.filter fun handle =>
          !(crossed.collector.visit crossed.collector.roots []).contains handle := rfl
    rw [collectIn]
    change (crossed.collector.garbageIn .stored).length = 2
    rw [hgarbage, hlive]
    decide +kernel
  exact ⟨hreachable, htwo, hcount.symm.trans htwo, hsame⟩

end Sharing

end StackMachine
