import Mathlib.Data.List.Basic
import StackMachine.Memory.Allocator

/-!
# The books of an allocator

The counters of an allocator against the blocks that it has lent and not taken back. Taking a block
back subtracts its capacity from the bytes in use and one from the blocks of its size class, and
both subtractions stop at zero. As long as only lent blocks are taken back, neither ever does.

## Main definitions

* `Allocator.outstanding`: the number of blocks of a size class that are in use.
* `Allocator.Accounts`: the counters of the allocator agree with a list of lent blocks.
* `Allocator.Affords`: no counter is too small for a block to be taken back.

## Main results

* `Allocator.Accounts.lend` and `Allocator.Accounts.refuse`: a request keeps the books.
* `Allocator.Accounts.takeBack` and `Allocator.Accounts.takeBackAll`: so does taking back what was
  lent.
* `Allocator.Accounts.affords`: what was lent can be taken back.
-/

namespace StackMachine

namespace Block

/-- The sum of a measure over blocks. -/
def total (measure : Block → Nat) (blocks : List Block) : Nat :=
  blocks.foldr (fun block sum => measure block + sum) 0

@[simp]
theorem total_nil (measure : Block → Nat) : total measure [] = 0 := rfl

@[simp]
theorem total_cons (measure : Block → Nat) (block : Block) (blocks : List Block) :
    total measure (block :: blocks) = measure block + total measure blocks := rfl

@[simp]
theorem total_append (measure : Block → Nat) (blocks more : List Block) :
    total measure (blocks ++ more) = total measure blocks + total measure more := by
  induction blocks with
  | nil => simp
  | cons block blocks ih =>
    rw [List.cons_append, total_cons, total_cons, ih]
    omega

/-- The order of the blocks does not matter. -/
theorem total_perm (measure : Block → Nat) {blocks others : List Block}
    (h : blocks.Perm others) : total measure blocks = total measure others := by
  induction h with
  | nil => rfl
  | cons block _ ih => rw [total_cons, total_cons, ih]
  | swap first second rest =>
    simp only [total_cons]
    omega
  | trans _ _ ih ih' => exact ih.trans ih'

end Block

namespace Allocator

variable {allocator : Allocator} {lent : List Block} {block : Block}

/-- The number of blocks of a size class that are in use; none if there is no such class. -/
def outstanding : Allocator → Nat → Nat
  | pooled pool, index => (pool.classes[index]?.map (·.outstanding)).getD 0
  | direct _, _ => 0
  | rationed _ _, _ => 0

/-- The allocator has lent nothing yet. -/
def IsFresh : Allocator → Prop
  | pooled pool => pool = Pool.fresh pool.blocksPerClass
  | direct counts => counts = {}
  | rationed _ counts => counts = {}

/-- The counters of the allocator agree with the blocks it has lent and not taken back. -/
structure Accounts (allocator : Allocator) (lent : List Block) : Prop where
  /-- What was handed out and not taken back is lent. -/
  count : allocator.counts.allocations = allocator.counts.deallocations + lent.length
  /-- The bytes in use are the capacities of what is lent. -/
  bytes : allocator.counts.bytesInUse = Block.total Block.capacity lent
  /-- The blocks of a size class in use are those of that class that are lent. -/
  classes : ∀ index,
    allocator.outstanding index = lent.countP fun block => block.sizeClass = some index

/-- No counter is too small for the block to be taken back. -/
def Affords (allocator : Allocator) (block : Block) : Prop :=
  block.capacity ≤ allocator.counts.bytesInUse ∧
    ∀ index, block.sizeClass = some index → 0 < allocator.outstanding index

/-- A new allocator has lent nothing. -/
theorem IsFresh.accounts (h : allocator.IsFresh) : allocator.Accounts [] := by
  cases allocator with
  | pooled pool =>
    have hpool : pool = Pool.fresh pool.blocksPerClass := h
    rw [hpool]
    refine ⟨rfl, rfl, fun index => ?_⟩
    -- Every class of a new pool is idle.
    have hidle : ∀ sizeClass ∈ (Pool.fresh pool.blocksPerClass).classes,
        sizeClass.outstanding = 0 := by
      intro sizeClass hmem
      obtain ⟨size, -, rfl⟩ := List.mem_map.mp hmem
      rfl
    rw [outstanding, List.countP_nil]
    cases hclass : (Pool.fresh pool.blocksPerClass).classes[index]? with
    | none => rfl
    | some sizeClass => exact hidle sizeClass (List.mem_of_getElem? hclass)
  | direct counts =>
    have hcounts : counts = {} := h
    subst hcounts
    exact ⟨rfl, rfl, fun _ => rfl⟩
  | rationed requests counts =>
    have hcounts : counts = {} := h
    subst hcounts
    exact ⟨rfl, rfl, fun _ => rfl⟩

/-- The order in which the lent blocks are listed does not matter. -/
theorem Accounts.perm {others : List Block} (h : allocator.Accounts lent)
    (hperm : lent.Perm others) : allocator.Accounts others where
  count := by rw [← hperm.length_eq, h.count]
  bytes := by rw [← Block.total_perm Block.capacity hperm, h.bytes]
  classes index := by rw [← hperm.countP_eq, h.classes]

/-- What was lent can be taken back. -/
theorem Accounts.affords (h : allocator.Accounts lent) (hmem : block ∈ lent) :
    allocator.Affords block := by
  -- The block is one of the summands of the bytes in use.
  obtain ⟨before, behind, rfl⟩ := List.append_of_mem hmem
  constructor
  · rw [h.bytes, Block.total_append, Block.total_cons]
    omega
  · intro index hindex
    rw [h.classes]
    exact List.countP_pos_iff.mpr ⟨block, hmem, by simpa using hindex⟩

/-! ### Lending -/

/-- A pool lends a block of exactly the requested size, or one of a size class. -/
theorem pool_allocate_some {host : Host} {pool after : Pool} {size : Nat}
    (h : pool.allocate host size = some (block, after)) :
    (block = Block.zeros size size none ∧
      after = { pool with
        counts := { pool.counts with fallbacks := pool.counts.fallbacks + 1 }.lend size }) ∨
    ∃ index sizeClass contents cached, pool.classes[index]? = some sizeClass ∧
      block = ⟨contents, size, some index⟩ ∧
      after = { pool with
        classes := pool.classes.set index
          { sizeClass with cached, outstanding := sizeClass.outstanding + 1 }
        counts := pool.counts.lend contents.size } := by
  -- Three ways lead to a block of exactly the requested size.
  have hexact : pool.lendExact host size = some (block, after) →
      block = Block.zeros size size none ∧
        after = { pool with
          counts := { pool.counts with fallbacks := pool.counts.fallbacks + 1 }.lend size } := by
    intro hlend
    unfold Pool.lendExact at hlend
    split at hlend
    next => cases hlend; exact ⟨rfl, rfl⟩
    next => cases hlend
  unfold Pool.allocate at h
  split at h
  next => cases h
  next =>
    split at h
    next => exact .inl (hexact h)
    next index _ =>
      split at h
      next => exact .inl (hexact h)
      next sizeClass hclass =>
        split at h
        next =>
          right
          -- A returned block is taken before a fresh one; either counts the same.
          unfold Pool.lendFrom at h
          dsimp only at h
          split at h
          next => cases h; exact ⟨index, sizeClass, _, _, hclass, rfl, rfl⟩
          next =>
            split at h
            next => cases h; exact ⟨index, sizeClass, _, _, hclass, rfl, rfl⟩
            next => cases h
        next => exact .inl (hexact h)

/-- What lending a block does to the counters. -/
structure Lends (allocator : Allocator) (size : Nat) (block : Block) (after : Allocator) :
    Prop where
  /-- The block was asked for with this size. -/
  size_eq : block.size = size
  /-- One more block was handed out. -/
  allocations : after.counts.allocations = allocator.counts.allocations + 1
  /-- None was taken back. -/
  deallocations : after.counts.deallocations = allocator.counts.deallocations
  /-- The capacity of the block is in use. -/
  bytes : after.counts.bytesInUse = allocator.counts.bytesInUse + block.capacity
  /-- One more block of its size class is in use. -/
  classes : ∀ index, after.outstanding index =
    allocator.outstanding index + if block.sizeClass = some index then 1 else 0

theorem capacity_zeros (capacity size : Nat) (sizeClass : Option Nat) :
    (Block.zeros capacity size sizeClass).capacity = capacity := Array.size_replicate

/-- A fresh block is made of zeros, belongs to no class, and is counted. -/
theorem lendFresh_some {host : Host} {counts after : AllocationCounts} {size : Nat}
    (h : lendFresh host counts size = some (block, after)) :
    block = Block.zeros size size none ∧ after = counts.lend size := by
  unfold lendFresh at h
  split at h
  next => cases h; exact ⟨rfl, rfl⟩
  next => cases h

/-- Granting a request lends a block of the requested size. -/
theorem lends_of_allocate {host : Host} {after : Allocator} {size : Nat}
    (h : allocator.allocate host size = (some block, after)) :
    allocator.Lends size block after := by
  unfold allocate at h
  split at h
  next pool =>
    split at h
    next lentBlock rest hpool =>
      cases h
      rcases pool_allocate_some hpool with ⟨rfl, rfl⟩ | ⟨index, sizeClass, contents, cached,
        hclass, rfl, rfl⟩
      · exact ⟨rfl, rfl, rfl, congrArg _ (capacity_zeros size size none).symm, fun _ => rfl⟩
      · refine ⟨rfl, rfl, rfl, rfl, fun other => ?_⟩
        -- Only the class that the block belongs to is busier.
        obtain ⟨hlt, hat⟩ := List.getElem?_eq_some_iff.mp hclass
        simp only [outstanding, List.getElem?_set, Option.some.injEq]
        by_cases hother : index = other
        · subst hother
          simp [hlt, hat]
        · simp [hother]
    next => cases h
  next counts =>
    split at h
    next lentBlock rest hlend =>
      cases h
      obtain ⟨rfl, rfl⟩ := lendFresh_some hlend
      exact ⟨rfl, rfl, rfl, congrArg _ (capacity_zeros size size none).symm, fun _ => rfl⟩
    next => cases h
  next => cases h
  next requests counts =>
    split at h
    next lentBlock rest hlend =>
      cases h
      obtain ⟨rfl, rfl⟩ := lendFresh_some hlend
      exact ⟨rfl, rfl, rfl, congrArg _ (capacity_zeros size size none).symm, fun _ => rfl⟩
    next => cases h

/-- Lending adds the block to the books. -/
theorem Accounts.lend {after : Allocator} {size : Nat} (h : allocator.Accounts lent)
    (hlends : allocator.Lends size block after) : after.Accounts (block :: lent) where
  count := by
    rw [hlends.allocations, hlends.deallocations, h.count, List.length_cons]
    omega
  bytes := by
    rw [hlends.bytes, h.bytes, Block.total_cons]
    omega
  classes index := by
    rw [hlends.classes, h.classes, List.countP_cons]
    simp only [decide_eq_true_eq]

/-- A refused request changes no counter. -/
theorem refused_counts {host : Host} {size : Nat}
    (h : (allocator.allocate host size).1 = none) :
    (allocator.allocate host size).2.counts = allocator.counts ∧
      (allocator.allocate host size).2.outstanding = allocator.outstanding := by
  unfold allocate at h ⊢
  split
  next pool => split <;> simp_all
  next => split <;> simp_all
  next => exact ⟨rfl, rfl⟩
  -- A ration is used up without being counted.
  next requests counts =>
    split
    next => simp_all
    next => exact ⟨rfl, rfl⟩

/-- A refused request changes nothing in the books. -/
theorem Accounts.refuse {host : Host} {size : Nat} (h : allocator.Accounts lent)
    (hnone : (allocator.allocate host size).1 = none) :
    (allocator.allocate host size).2.Accounts lent := by
  obtain ⟨hcounts, hclasses⟩ := refused_counts hnone
  exact ⟨by rw [hcounts, h.count], by rw [hcounts, h.bytes], fun index => by
    rw [hclasses, h.classes]⟩

/-! ### Taking back -/

/-- Taking a block back is counted with its capacity. -/
theorem counts_deallocate (allocator : Allocator) (block : Block) :
    (allocator.deallocate block).counts = allocator.counts.takeBack block.capacity := by
  cases allocator with
  | pooled pool =>
    simp only [deallocate, Pool.deallocate, counts]
    split
    · rfl
    · split <;> rfl
  | direct => rfl
  | rationed => rfl

/-- Taking a block back is noted in its class. -/
theorem outstanding_deallocate (allocator : Allocator) (block : Block) (index : Nat) :
    (allocator.deallocate block).outstanding index =
      allocator.outstanding index - if block.sizeClass = some index then 1 else 0 := by
  cases allocator with
  | pooled pool =>
    simp only [deallocate, Pool.deallocate]
    split
    next hclass => simp [outstanding, hclass]
    next own hclass =>
      split
      -- A class that the pool does not have has no blocks in use before or after.
      next hnone =>
        by_cases hindex : own = index
        · subst hindex
          simp [outstanding, hnone]
        · simp [outstanding, hclass, hindex]
      next sizeClass hsome =>
        obtain ⟨hlt, hat⟩ := List.getElem?_eq_some_iff.mp hsome
        simp only [outstanding, List.getElem?_set, hclass, Option.some.injEq]
        by_cases hindex : own = index
        · subst hindex
          simp [hlt, hat]
        · simp [hindex]
  | direct => simp [deallocate, outstanding]
  | rationed => simp [deallocate, outstanding]

/-- Taking back a lent block removes it from the books. -/
theorem Accounts.takeBack (h : allocator.Accounts (block :: lent)) :
    (allocator.deallocate block).Accounts lent where
  count := by
    have hcount := h.count
    rw [List.length_cons] at hcount
    rw [counts_deallocate, AllocationCounts.takeBack]
    dsimp only
    omega
  bytes := by
    rw [counts_deallocate, AllocationCounts.takeBack]
    dsimp only
    rw [h.bytes, Block.total_cons]
    omega
  classes index := by
    rw [outstanding_deallocate, h.classes, List.countP_cons]
    simp only [decide_eq_true_eq]
    omega

/-- Taking back lent blocks one after the other removes them all from the books. -/
theorem Accounts.takeBackAll {freed : List Block} (h : allocator.Accounts (freed ++ lent)) :
    (allocator.deallocateAll freed).Accounts lent := by
  induction freed generalizing allocator with
  | nil => exact h
  | cons block freed ih => exact ih h.takeBack

end Allocator

end StackMachine
