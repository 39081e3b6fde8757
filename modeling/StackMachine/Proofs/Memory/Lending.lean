import Mathlib.Data.List.Perm.Basic
import Mathlib.Data.Nat.Basic
import Mathlib.Data.Option.Basic
import StackMachine.Proofs.Memory.Accounts

/-!
# Lending blocks and taking them back

The holders of blocks ask an allocator for memory, write to the blocks they got, and give each one
back at most once. The order in which they do so is theirs, and the host may refuse any fresh
reservation.

A size class of a pool never has more than its share of blocks, cached or in use. No code checks
this when a block comes back: a returned block takes the place of one in use, and a fresh block is
only made if no returned one is left. The counters are truncated at zero, but only lent blocks are
taken back, so they never are.

## Main definitions

* `Allocator.Request`: what the holder of blocks can do.
* `Allocator.Lending`: an allocator with the blocks that it has lent and not taken back.
* `Pool.servedBy?`, `Pool.reservation?` and `Pool.granted`: which class serves a request, what it
  needs from the host, and what it gets.
* `Pool.WellFormed`: the blocks that a class has cached are as large as the class says.
* `Pool.Keeps`: the pool has the books of its lent blocks, and no class has more than its share.

## Main results

* `Pool.allocate_eq_none_iff` and `Pool.WellFormed.allocate_eq_some`: what a request is answered
  with.
* `Pool.Keeps.serve`: every request of a holder keeps the invariant.
* `Pool.lending_within_bounds`: the invariant after every sequence of requests, and what the next
  request is answered with.
-/

namespace StackMachine

namespace Block

/-- The block with other bytes, as many as before. -/
def overwritten (block : Block) (bytes : Nat → UInt8) : Block :=
  { block with contents := Array.ofFn fun i : Fin block.capacity => bytes i }

/-- Writing to a block does not change its capacity. -/
@[simp]
theorem capacity_overwritten (block : Block) (bytes : Nat → UInt8) :
    (block.overwritten bytes).capacity = block.capacity := Array.size_ofFn

/-- A pooled block has the capacity of its size class. -/
def FitsClass (block : Block) : Prop :=
  ∀ index, block.sizeClass = some index → Pool.classSizes[index]? = some block.capacity

/-- Writing to a block does not change its class. -/
theorem FitsClass.overwritten {block : Block} (h : block.FitsClass) (bytes : Nat → UInt8) :
    (block.overwritten bytes).FitsClass := by
  intro index hindex
  rw [capacity_overwritten]
  exact h index hindex

theorem mem_contents_zeros {capacity size : Nat} {sizeClass : Option Nat} {byte : UInt8}
    (h : byte ∈ (zeros capacity size sizeClass).contents) : byte = 0 :=
  (Array.mem_replicate.mp h).2

end Block

/-! ### Requests -/

namespace Allocator

/-- What the holder of blocks can do. Blocks are named by their position among those lent. -/
inductive Request
  /-- Ask for a block. -/
  | lend (host : Host) (size : Nat)
  /-- Write to a block. -/
  | write (position : Nat) (bytes : Nat → UInt8)
  /-- Give a block back. -/
  | giveBack (position : Nat)

/-- An allocator with the blocks that it has lent and not taken back. -/
structure Lending where
  /-- The allocator. -/
  allocator : Allocator
  /-- The blocks that are lent, the latest first. -/
  lent : List Block := []

namespace Lending

/-- Serves a request; only one for a block can be answered with a block. A position at which no
block is lent is ignored. -/
def serve (lending : Lending) : Request → Option Block × Lending
  | .lend host size =>
    let (answer, allocator) := lending.allocator.allocate host size
    (answer, { allocator, lent := answer.toList ++ lending.lent })
  | .write position bytes =>
    (none, { lending with lent := lending.lent.modify position (·.overwritten bytes) })
  | .giveBack position =>
    match lending.lent[position]? with
    | some block =>
      (none,
        { allocator := lending.allocator.deallocate block
          lent := lending.lent.eraseIdx position })
    | none => (none, lending)

/-- Serves requests one after the other. -/
def serveAll (lending : Lending) : List Request → List (Option Block) × Lending
  | [] => ([], lending)
  | request :: requests =>
    let (answer, lending) := lending.serve request
    let (answers, lending) := lending.serveAll requests
    (answer :: answers, lending)

theorem serveAll_cons (lending : Lending) (request : Request) (requests : List Request) :
    lending.serveAll (request :: requests) =
      ((lending.serve request).1 :: ((lending.serve request).2.serveAll requests).1,
        ((lending.serve request).2.serveAll requests).2) := rfl

end Lending

end Allocator

namespace Pool

open Allocator

variable {host : Host} {pool : Pool} {size : Nat}

/-! ### Size classes -/

/-- The class at this position has the least capacity that fits. -/
def IsSmallestFitting (size index : Nat) : Prop :=
  ∃ capacity, classSizes[index]? = some capacity ∧ size ≤ capacity ∧
    ∀ other ∈ classSizes, size ≤ other → capacity ≤ other

/-- The size classes are in increasing order. -/
theorem classSizes_increasing : classSizes.Pairwise (· < ·) := by decide

/-- The class for a size is the smallest one that fits. -/
theorem classFor?_eq_some_iff {index : Nat} :
    classFor? size = some index ↔ IsSmallestFitting size index := by
  have hincreasing := List.pairwise_iff_getElem.mp classSizes_increasing
  rw [classFor?, List.findIdx?_eq_some_iff_getElem]
  constructor
  · rintro ⟨hindex, hfits, hbefore⟩
    refine ⟨classSizes[index], List.getElem?_eq_getElem hindex, by simpa using hfits, ?_⟩
    intro other hother hsize
    -- A class that fits does not stand before the first one that does.
    obtain ⟨position, hposition, rfl⟩ := List.getElem_of_mem hother
    rcases Nat.lt_trichotomy position index with hlt | rfl | hgt
    · exact absurd (by simpa using hsize) (hbefore position hlt)
    · exact Nat.le_refl _
    · exact Nat.le_of_lt (hincreasing index position hindex hposition hgt)
  · rintro ⟨capacity, hcapacity, hfits, hleast⟩
    obtain ⟨hindex, rfl⟩ := List.getElem?_eq_some_iff.mp hcapacity
    refine ⟨hindex, by simpa using hfits, fun position hposition hsize => ?_⟩
    have hle := hleast classSizes[position] (List.getElem_mem _) (by simpa using hsize)
    exact absurd (hincreasing position index _ hindex hposition) (Nat.not_lt.mpr hle)

/-- The class that serves a request, with its position: the smallest one that fits, if it may lend
one more block. -/
def servedBy? (pool : Pool) (size : Nat) : Option (Nat × SizeClass) :=
  (classFor? size).bind fun index =>
    pool.classes[index]?.bind fun sizeClass =>
      if sizeClass.outstanding < pool.blocksPerClass then some (index, sizeClass) else none

/-- A class serves a request if it is the smallest that fits and has not lent all of its share. -/
theorem servedBy?_eq_some_iff {index : Nat} {sizeClass : SizeClass} :
    pool.servedBy? size = some (index, sizeClass) ↔
      classFor? size = some index ∧ pool.classes[index]? = some sizeClass ∧
        sizeClass.outstanding < pool.blocksPerClass := by
  simp only [servedBy?, Option.bind_eq_some_iff, Option.ite_none_right_eq_some, Option.some.injEq,
    Prod.mk.injEq]
  constructor
  · rintro ⟨_, hindex, _, hclass, hroom, rfl, rfl⟩
    exact ⟨hindex, hclass, hroom⟩
  · rintro ⟨hindex, hclass, hroom⟩
    exact ⟨index, hindex, sizeClass, hclass, hroom, rfl, rfl⟩

/-- The number of bytes that serving a request takes from the host. A returned block takes none. -/
def reservation? (pool : Pool) (size : Nat) : Option Nat :=
  match pool.servedBy? size with
  | some (_, sizeClass) => if sizeClass.cached = [] then some sizeClass.size else none
  | none => some size

/-- The host refuses what serving a request takes. -/
def IsRefused (host : Host) (pool : Pool) (size : Nat) : Prop :=
  ∃ bytes, pool.reservation? size = some bytes ∧ host bytes = false

/-- The block that a request gets unless it is refused, and the pool afterwards. -/
def granted (pool : Pool) (size : Nat) : Block × Pool :=
  match pool.servedBy? size with
  | some (index, sizeClass) =>
    (Block.zeros sizeClass.size size (some index),
      { pool with
        classes := pool.classes.set index
          { sizeClass with
            cached := sizeClass.cached.tail
            outstanding := sizeClass.outstanding + 1 }
        counts := pool.counts.lend sizeClass.size })
  | none =>
    (Block.zeros size size none,
      { pool with
        counts := { pool.counts with fallbacks := pool.counts.fallbacks + 1 }.lend size })

/-- A class that serves a request lends the block. -/
theorem allocate_of_served {index : Nat} {sizeClass : SizeClass} (hsize : size ≠ 0)
    (hserved : pool.servedBy? size = some (index, sizeClass)) :
    pool.allocate host size = pool.lendFrom host index sizeClass size := by
  obtain ⟨hindex, hclass, hroom⟩ := servedBy?_eq_some_iff.mp hserved
  simp only [allocate, if_neg hsize, hindex, hclass, if_pos hroom]

/-- Without such a class, the block has exactly the requested size. -/
theorem allocate_of_unserved (hsize : size ≠ 0) (hserved : pool.servedBy? size = none) :
    pool.allocate host size = pool.lendExact host size := by
  rw [allocate, if_neg hsize]
  split
  next => rfl
  next index hindex =>
    split
    next => rfl
    next sizeClass hclass =>
      have hfull : ¬sizeClass.outstanding < pool.blocksPerClass := by
        simpa [servedBy?, hindex, hclass] using hserved
      rw [if_neg hfull]

/-- A request fails only if it asks for nothing or the host refuses what serving it takes. -/
theorem allocate_eq_none_iff :
    pool.allocate host size = none ↔ size = 0 ∨ pool.IsRefused host size := by
  by_cases hsize : size = 0
  · simp [allocate, hsize]
  · rw [IsRefused, reservation?]
    cases hserved : pool.servedBy? size with
    | none =>
      rw [allocate_of_unserved hsize hserved]
      cases hhost : host size <;> simp [lendExact, hsize, hhost]
    | some served =>
      obtain ⟨index, sizeClass⟩ := served
      rw [allocate_of_served hsize hserved]
      cases hcached : sizeClass.cached with
      | nil => cases hhost : host sizeClass.size <;> simp [lendFrom, hcached, hsize, hhost]
      -- With a returned block at hand the host is not asked.
      | cons returned cached => simp [lendFrom, hcached, hsize]

/-! ### Well-formed pools -/

/-- The pool has the size classes, and the blocks that a class has cached are as large as the class
says. -/
structure WellFormed (pool : Pool) : Prop where
  /-- The classes have their capacities. -/
  sizes : pool.classes.map (·.size) = classSizes
  /-- What is cached has the capacity of its class. -/
  cached : ∀ sizeClass ∈ pool.classes, ∀ contents ∈ sizeClass.cached,
    contents.size = sizeClass.size

/-- The capacity of a class is the one listed for its position. -/
theorem WellFormed.size_eq (h : pool.WellFormed) {index : Nat} {sizeClass : SizeClass}
    (hclass : pool.classes[index]? = some sizeClass) :
    classSizes[index]? = some sizeClass.size := by
  rw [← h.sizes, List.getElem?_map, hclass]
  rfl

/-- A class that is put in the place of one with the same capacity. -/
theorem WellFormed.set (h : pool.WellFormed) {index : Nat} {sizeClass changed : SizeClass}
    (hclass : pool.classes[index]? = some sizeClass) (hsize : changed.size = sizeClass.size)
    (hcached : ∀ contents ∈ changed.cached, contents.size = sizeClass.size)
    (counts : AllocationCounts) :
    ({ pool with classes := pool.classes.set index changed, counts } : Pool).WellFormed where
  sizes := by
    obtain ⟨hlt, -⟩ := List.getElem?_eq_some_iff.mp hclass
    rw [← h.sizes, List.map_set, hsize]
    -- The list of capacities is set to what it has at this position.
    refine List.ext_getElem? fun position => ?_
    rw [List.getElem?_set]
    split
    next heq =>
      subst heq
      rw [List.length_map, if_pos hlt, List.getElem?_map, hclass]
      rfl
    next => rfl
  cached other hother contents hcontents := by
    rcases List.mem_or_eq_of_mem_set hother with hother | rfl
    · exact h.cached other hother contents hcontents
    · rw [hsize]
      exact hcached contents hcontents

/-- A request that succeeds gets a block of zeros, whether the block was returned before or is
fresh. -/
theorem WellFormed.allocate_eq_some (h : pool.WellFormed) {answer : Block × Pool}
    (hsome : pool.allocate host size = some answer) : answer = pool.granted size := by
  have hsize : size ≠ 0 := by
    rintro rfl
    simp [allocate] at hsome
  rw [granted]
  cases hserved : pool.servedBy? size with
  | none =>
    rw [allocate_of_unserved hsize hserved, lendExact] at hsome
    split at hsome
    next => exact (Option.some.inj hsome).symm
    next => cases hsome
  | some served =>
    obtain ⟨index, sizeClass⟩ := served
    rw [allocate_of_served hsize hserved] at hsome
    simp only [lendFrom] at hsome
    split at hsome
    next returned cached hcached =>
      -- The bytes of a returned block are replaced one by one.
      have hmem : sizeClass ∈ pool.classes :=
        List.mem_of_getElem? (servedBy?_eq_some_iff.mp hserved).2.1
      have hlength : returned.size = sizeClass.size :=
        h.cached sizeClass hmem returned (by rw [hcached]; exact List.mem_cons_self)
      have hzeros : (returned.map fun _ => (0 : UInt8)) = Array.replicate sizeClass.size 0 := by
        rw [← hlength]
        exact Array.map_const
      rw [← Option.some.inj hsome, hzeros]
      simp [Block.zeros, hcached]
    next hcached =>
      split at hsome
      next =>
        rw [← Option.some.inj hsome]
        simp [Block.zeros, hcached]
      next => cases hsome

/-- The block granted has the capacity of its class. -/
theorem WellFormed.fitsClass_granted (h : pool.WellFormed) (size : Nat) :
    (pool.granted size).1.FitsClass := by
  intro index hindex
  unfold granted at hindex ⊢
  split at hindex
  next served sizeClass hserved =>
    obtain ⟨-, hclass, -⟩ := servedBy?_eq_some_iff.mp hserved
    cases hindex
    rw [capacity_zeros]
    exact h.size_eq hclass
  next => cases hindex

/-- Granting a request keeps a pool well-formed. -/
theorem WellFormed.granted (h : pool.WellFormed) (size : Nat) :
    (pool.granted size).2.WellFormed := by
  unfold Pool.granted
  split
  next index sizeClass hserved =>
    obtain ⟨-, hclass, -⟩ := servedBy?_eq_some_iff.mp hserved
    refine h.set hclass ?_ (fun contents hcontents => ?_) _
    · rfl
    · exact h.cached sizeClass (List.mem_of_getElem? hclass) contents
        (List.mem_of_mem_tail hcontents)
  next => exact ⟨h.sizes, h.cached⟩

/-- So does taking a block back that fits its class. -/
theorem WellFormed.deallocate (h : pool.WellFormed) {block : Block} (hfits : block.FitsClass) :
    (pool.deallocate block).WellFormed := by
  unfold Pool.deallocate
  dsimp only
  split
  next => exact ⟨h.sizes, h.cached⟩
  next index hindex =>
    split
    next => exact ⟨h.sizes, h.cached⟩
    next sizeClass hclass =>
      have hcapacity : block.capacity = sizeClass.size :=
        Option.some.inj ((hfits index hindex).symm.trans (h.size_eq hclass))
      refine h.set hclass ?_ (fun contents hcontents => ?_) _
      · rfl
      · rcases List.mem_cons.mp hcontents with rfl | hcontents
        · exact hcapacity
        · exact h.cached sizeClass (List.mem_of_getElem? hclass) contents hcontents

theorem wellFormed_fresh (blocks : Nat) : (fresh blocks).WellFormed where
  sizes := rfl
  cached sizeClass hclass contents hcontents := by
    obtain ⟨size, -, rfl⟩ := List.mem_map.mp hclass
    cases hcontents

/-! ### The share of a class -/

/-- The pool has the books of the blocks it has lent, which have the capacities of their classes,
and no class has more than its share of blocks. -/
structure Keeps (pool : Pool) (lent : List Block) : Prop where
  /-- What is cached has the capacity of its class. -/
  wellFormed : pool.WellFormed
  /-- The counters agree with the blocks lent. -/
  accounts : (Allocator.pooled pool).Accounts lent
  /-- What is lent has the capacity of its class. -/
  fits : ∀ block ∈ lent, block.FitsClass
  /-- What a class has cached and in use is bounded. -/
  capped : ∀ sizeClass ∈ pool.classes,
    sizeClass.cached.length + sizeClass.outstanding ≤ pool.blocksPerClass

variable {lent : List Block} {block : Block}

/-- A new pool has lent nothing. -/
theorem keeps_fresh (blocks : Nat) : (fresh blocks).Keeps [] where
  wellFormed := wellFormed_fresh blocks
  accounts := by
    have hfresh : (Allocator.pooled (fresh blocks)).IsFresh := rfl
    exact hfresh.accounts
  fits := by simp
  capped sizeClass hclass := by
    obtain ⟨size, -, rfl⟩ := List.mem_map.mp hclass
    exact Nat.zero_le _

/-- The order of the blocks lent does not matter. -/
theorem Keeps.perm {others : List Block} (h : pool.Keeps lent) (hperm : lent.Perm others) :
    pool.Keeps others :=
  { h with
    accounts := h.accounts.perm hperm
    fits := fun block hblock => h.fits block (hperm.mem_iff.mpr hblock) }

/-- The books of blocks do not say what is written in them. -/
theorem Keeps.overwrite (h : pool.Keeps (block :: lent)) (bytes : Nat → UInt8) :
    pool.Keeps (block.overwritten bytes :: lent) where
  wellFormed := h.wellFormed
  accounts :=
    { count := h.accounts.count
      bytes := by
        rw [h.accounts.bytes, Block.total_cons, Block.total_cons, Block.capacity_overwritten]
      classes := fun index => by
        rw [h.accounts.classes, List.countP_cons, List.countP_cons]
        rfl }
  fits other hother := by
    rcases List.mem_cons.mp hother with rfl | hother
    · exact (h.fits block List.mem_cons_self).overwritten bytes
    · exact h.fits other (List.mem_cons_of_mem _ hother)
  capped := h.capped

/-- Lending takes a returned block if there is one, and otherwise one more of the share. -/
theorem Keeps.lend {pool' : Pool} (h : pool.Keeps lent)
    (hsome : pool.allocate host size = some (block, pool')) :
    pool'.Keeps (block :: lent) := by
  obtain ⟨rfl, rfl⟩ : block = (pool.granted size).1 ∧ pool' = (pool.granted size).2 :=
    Prod.mk.inj (h.wellFormed.allocate_eq_some hsome)
  have hallocate : (Allocator.pooled pool).allocate host size =
      (some (pool.granted size).1, .pooled (pool.granted size).2) := by
    simp only [Allocator.allocate, hsome]
  refine ⟨h.wellFormed.granted size, h.accounts.lend (lends_of_allocate hallocate), ?_, ?_⟩
  · intro other hother
    rcases List.mem_cons.mp hother with rfl | hother
    · exact h.wellFormed.fitsClass_granted size
    · exact h.fits other hother
  · unfold Pool.granted
    split
    next index sizeClass hserved =>
      -- A returned block leaves the sum as it is; a fresh one needs room, and none is cached then.
      obtain ⟨-, hclass, hroom⟩ := servedBy?_eq_some_iff.mp hserved
      have hbefore := h.capped sizeClass (List.mem_of_getElem? hclass)
      intro other hother
      rcases List.mem_or_eq_of_mem_set hother with hother | rfl
      · exact h.capped other hother
      · dsimp only
        rw [List.length_tail]
        omega
    next => exact h.capped

/-- A block that is taken back was in use, so it takes its own place among the cached ones. -/
theorem Keeps.takeBack (h : pool.Keeps (block :: lent)) : (pool.deallocate block).Keeps lent := by
  refine ⟨h.wellFormed.deallocate (h.fits block List.mem_cons_self), h.accounts.takeBack,
    fun other hother => h.fits other (List.mem_cons_of_mem _ hother), ?_⟩
  have haffords := (h.accounts.affords List.mem_cons_self).2
  unfold Pool.deallocate
  dsimp only
  split
  next => exact h.capped
  next index hindex =>
    split
    next => exact h.capped
    next sizeClass hclass =>
      -- The books say that the class has a block in use, so the count does not stop at zero.
      have hbusy : 0 < sizeClass.outstanding := by
        have hpositive := haffords index hindex
        rwa [outstanding, hclass] at hpositive
      have hbefore := h.capped sizeClass (List.mem_of_getElem? hclass)
      intro other hother
      rcases List.mem_or_eq_of_mem_set hother with hother | rfl
      · exact h.capped other hother
      · dsimp only
        rw [List.length_cons]
        omega

/-! ### Any sequence of requests -/

/-- Whether an answer is a block that belongs to no size class. -/
def isFallback (answer : Option Block) : Bool := answer.any fun block => block.sizeClass.isNone

theorem blocksPerClass_granted (pool : Pool) (size : Nat) :
    (pool.granted size).2.blocksPerClass = pool.blocksPerClass := by
  unfold granted
  split <;> rfl

/-- A fallback is counted exactly if the answer is outside of the classes. -/
theorem fallbacks_granted (pool : Pool) (size : Nat) :
    (pool.granted size).2.counts.fallbacks =
      pool.counts.fallbacks + (isFallback (some (pool.granted size).1)).toNat := by
  unfold granted
  split <;> rfl

theorem blocksPerClass_deallocate (pool : Pool) (block : Block) :
    (pool.deallocate block).blocksPerClass = pool.blocksPerClass := by
  unfold deallocate
  dsimp only
  split
  · rfl
  · split <;> rfl

theorem fallbacks_deallocate (pool : Pool) (block : Block) :
    (pool.deallocate block).counts.fallbacks = pool.counts.fallbacks := by
  have hcounts : (pool.deallocate block).counts = pool.counts.takeBack block.capacity :=
    counts_deallocate (.pooled pool) block
  rw [hcounts]
  rfl

/-- The block at a position can be listed first. -/
theorem perm_eraseIdx {position : Nat} (hat : lent[position]? = some block) :
    lent.Perm (block :: lent.eraseIdx position) := by
  obtain ⟨hlt, rfl⟩ := List.getElem?_eq_some_iff.mp hat
  exact (List.getElem_cons_eraseIdx_perm hlt).symm

/-- So can one that was changed. -/
theorem perm_modify {position : Nat} (change : Block → Block)
    (hat : lent[position]? = some block) :
    (lent.modify position change).Perm (change block :: lent.eraseIdx position) := by
  rw [← List.eraseIdx_modify_of_eq change]
  refine perm_eraseIdx ?_
  rw [List.getElem?_modify, hat]
  simp

/-- One more request leaves the pool with the books of its blocks, and an answer outside its classes
is counted. -/
theorem Keeps.serve (h : pool.Keeps lent) (request : Request) :
    ∃ after : Pool,
      (Lending.serve ⟨.pooled pool, lent⟩ request).2.allocator = .pooled after ∧
      after.blocksPerClass = pool.blocksPerClass ∧
      after.Keeps (Lending.serve ⟨.pooled pool, lent⟩ request).2.lent ∧
      after.counts.fallbacks = pool.counts.fallbacks +
        (isFallback (Lending.serve ⟨.pooled pool, lent⟩ request).1).toNat := by
  cases request with
  | lend host size =>
    simp only [Lending.serve, Allocator.allocate]
    cases hanswer : pool.allocate host size with
    | none => exact ⟨pool, rfl, rfl, h, rfl⟩
    | some answer =>
      obtain ⟨block, after⟩ := answer
      have hkeeps := h.lend hanswer
      obtain ⟨rfl, rfl⟩ : block = (pool.granted size).1 ∧ after = (pool.granted size).2 :=
        Prod.mk.inj (h.wellFormed.allocate_eq_some hanswer)
      exact ⟨_, rfl, blocksPerClass_granted pool size, hkeeps, fallbacks_granted pool size⟩
  | write position bytes =>
    refine ⟨pool, rfl, rfl, ?_, rfl⟩
    simp only [Lending.serve]
    cases hat : lent[position]? with
    | none =>
      rw [List.modify_eq_set_getElem?, hat]
      exact h
    -- The books do not depend on the order, so the block that is written may be the first.
    | some block =>
      exact ((h.perm (perm_eraseIdx hat)).overwrite bytes).perm
        (perm_modify (·.overwritten bytes) hat).symm
  | giveBack position =>
    simp only [Lending.serve]
    cases hat : lent[position]? with
    | none => exact ⟨pool, rfl, rfl, h, rfl⟩
    | some block =>
      exact ⟨pool.deallocate block, rfl, blocksPerClass_deallocate pool block,
        (h.perm (perm_eraseIdx hat)).takeBack, fallbacks_deallocate pool block⟩

/-- What one request keeps, a sequence of requests keeps. -/
theorem Keeps.serveAll (h : pool.Keeps lent) (requests : List Request) :
    ∃ after : Pool,
      (Lending.serveAll ⟨.pooled pool, lent⟩ requests).2.allocator = .pooled after ∧
      after.blocksPerClass = pool.blocksPerClass ∧
      after.Keeps (Lending.serveAll ⟨.pooled pool, lent⟩ requests).2.lent ∧
      after.counts.fallbacks = pool.counts.fallbacks +
        (Lending.serveAll ⟨.pooled pool, lent⟩ requests).1.countP isFallback := by
  induction requests generalizing pool lent with
  | nil => exact ⟨pool, rfl, rfl, h, rfl⟩
  | cons request requests ih =>
    obtain ⟨next, hnext, hshare, hkeeps, hcount⟩ := h.serve request
    rw [Lending.serveAll_cons]
    generalize Lending.serve ⟨.pooled pool, lent⟩ request = served at hnext hkeeps hcount
    obtain ⟨answer, allocator, lent'⟩ := served
    obtain rfl : allocator = .pooled next := hnext
    obtain ⟨after, hafter, hshare', hkeeps', hcount'⟩ := ih hkeeps
    refine ⟨after, hafter, hshare'.trans hshare, hkeeps', ?_⟩
    dsimp only at hcount
    rw [hcount', hcount, List.countP_cons]
    cases isFallback answer
    · rfl
    · simp only [Bool.toNat_true, if_true]
      omega

/-! ### What a request is answered with -/

/-- The blocks of a class in use are the lent ones of this class. -/
theorem Keeps.outstanding_eq (h : pool.Keeps lent) (index : Nat) :
    (Allocator.pooled pool).outstanding index =
      lent.countP fun block => block.sizeClass = some index := h.accounts.classes index

/-- No class has more than its share of blocks. -/
theorem Keeps.cachedIn_add_outstanding_le (h : pool.Keeps lent) (index : Nat) :
    pool.cachedIn index + (Allocator.pooled pool).outstanding index ≤ pool.blocksPerClass := by
  rw [cachedIn, outstanding]
  cases hclass : pool.classes[index]? with
  | none => exact Nat.zero_le _
  | some sizeClass => exact h.capped sizeClass (List.mem_of_getElem? hclass)

/-- A block is pooled in the smallest class that fits, if that class may lend one more. -/
theorem WellFormed.sizeClass_granted_iff (h : pool.WellFormed) (size index : Nat) :
    (pool.granted size).1.sizeClass = some index ↔
      IsSmallestFitting size index ∧
        (Allocator.pooled pool).outstanding index < pool.blocksPerClass := by
  have hserved : (pool.granted size).1.sizeClass = some index ↔
      ∃ sizeClass, pool.servedBy? size = some (index, sizeClass) := by
    unfold Pool.granted
    split
    next first sizeClass hserved => simp [Block.zeros, hserved]
    next hserved => simp [Block.zeros, hserved]
  rw [hserved, ← classFor?_eq_some_iff]
  constructor
  · rintro ⟨sizeClass, hsome⟩
    obtain ⟨hindex, hclass, hroom⟩ := servedBy?_eq_some_iff.mp hsome
    exact ⟨hindex, by simpa [outstanding, hclass] using hroom⟩
  · rintro ⟨hindex, hroom⟩
    -- The pool has all the classes, so one at this position.
    obtain ⟨capacity, hcapacity, -⟩ := classFor?_eq_some_iff.mp hindex
    rw [← h.sizes, List.getElem?_map, Option.map_eq_some_iff] at hcapacity
    obtain ⟨sizeClass, hclass, -⟩ := hcapacity
    refine ⟨sizeClass, servedBy?_eq_some_iff.mpr ⟨hindex, hclass, ?_⟩⟩
    simpa [outstanding, hclass] using hroom

/-- The block that is granted is made of zeros and large enough; outside the classes it has exactly
the requested size. -/
theorem WellFormed.granted_spec (h : pool.WellFormed) (size : Nat) :
    (∀ byte ∈ (pool.granted size).1.contents, byte = 0) ∧ (pool.granted size).1.size = size ∧
      size ≤ (pool.granted size).1.capacity ∧
      ((pool.granted size).1.sizeClass = none → (pool.granted size).1.capacity = size) := by
  unfold Pool.granted
  split
  next index sizeClass hserved =>
    obtain ⟨hindex, hclass, -⟩ := servedBy?_eq_some_iff.mp hserved
    obtain ⟨capacity, hcapacity, hfits, -⟩ := classFor?_eq_some_iff.mp hindex
    obtain rfl := Option.some.inj (hcapacity.symm.trans (h.size_eq hclass))
    refine ⟨fun _ => Block.mem_contents_zeros, rfl, ?_, fun hnone => by cases hnone⟩
    rw [capacity_zeros]
    exact hfits
  next =>
    refine ⟨fun _ => Block.mem_contents_zeros, rfl, ?_, fun _ => capacity_zeros _ _ _⟩
    rw [capacity_zeros]

/-- The share of a size class. Let a pool lend blocks and take them back in any order, each at most
once, while their holders write to them and the host refuses what it likes. Then the blocks of a
class in use are those lent, and with those cached they are at most the share of the class; what is
cached is as large as its class; and the fallbacks are the answers outside the classes. The next
request fails exactly if it asks for nothing or the host refuses what serving it takes, and then
changes nothing; otherwise it is answered with a block of zeros of the requested size, in the
smallest class that fits exactly if that class has fewer blocks in use than its share, and else with
exactly the requested capacity. -/
theorem lending_within_bounds (blocks : Nat) (requests : List Request) :
    let served := Lending.serveAll ⟨.pooled (fresh blocks), []⟩ requests
    ∃ pool : Pool, served.2.allocator = .pooled pool ∧
      (∀ index, (Allocator.pooled pool).outstanding index =
          served.2.lent.countP (fun block => block.sizeClass = some index) ∧
        pool.cachedIn index + (Allocator.pooled pool).outstanding index ≤ blocks) ∧
      pool.classes.map (·.size) = classSizes ∧
      (∀ sizeClass ∈ pool.classes, ∀ contents ∈ sizeClass.cached,
        contents.size = sizeClass.size) ∧
      pool.counts.fallbacks = served.1.countP isFallback ∧
      ∀ host size,
        (((Allocator.pooled pool).allocate host size).1 = none ↔
          size = 0 ∨ pool.IsRefused host size) ∧
        (((Allocator.pooled pool).allocate host size).1 = none →
          ((Allocator.pooled pool).allocate host size).2 = .pooled pool) ∧
        ∀ block, ((Allocator.pooled pool).allocate host size).1 = some block →
          (∀ byte ∈ block.contents, byte = 0) ∧ block.size = size ∧ size ≤ block.capacity ∧
          (∀ index, block.sizeClass = some index ↔
            IsSmallestFitting size index ∧
              (Allocator.pooled pool).outstanding index < blocks) ∧
          (block.sizeClass = none → block.capacity = size) := by
  intro served
  -- The invariant holds of a new pool and along all requests.
  obtain ⟨pool, hpool, rfl, hkeeps, hcount⟩ := (keeps_fresh blocks).serveAll requests
  refine ⟨pool, hpool, fun index => ⟨hkeeps.outstanding_eq index,
    hkeeps.cachedIn_add_outstanding_le index⟩, hkeeps.wellFormed.sizes, hkeeps.wellFormed.cached,
    hcount.trans (Nat.zero_add _), fun host size => ?_⟩
  rw [← allocate_eq_none_iff]
  simp only [Allocator.allocate]
  cases hanswer : pool.allocate host size with
  | none => simp
  | some answer =>
    obtain rfl := hkeeps.wellFormed.allocate_eq_some hanswer
    refine ⟨by simp, by simp, fun block hblock => ?_⟩
    obtain rfl := Option.some.inj hblock
    obtain ⟨hzero, hsize, hfits, hexact⟩ := hkeeps.wellFormed.granted_spec size
    exact ⟨hzero, hsize, hfits, hkeeps.wellFormed.sizeClass_granted_iff size, hexact⟩

end Pool

end StackMachine
