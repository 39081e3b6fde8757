import Mathlib.Logic.Relation
import StackMachine.Machine.State
import StackMachine.Proofs.Memory.Accounts
import StackMachine.Proofs.Memory.Tables

/-!
# What can happen to memory and files

A machine holds memory in three tables, which share one allocator, and files in a fourth. Whatever
it does, only a few things can happen to them. They are listed once, as `Resources.Change`; what
holds along every run of a machine follows from what holds of one change.

## Main definitions

* `Resources`: the allocator, the collector, the tables of managed objects and raw blocks, and the
  open files.
* `Resources.Change`: everything that can happen to them in one go. Memory is only asked for within
  the heap limit.
* `Resources.WellFormed`: numbers are distinct and below the next one, and no object of the
  collector refers to another.
* `Resources.Flow`: a change seen from the allocator.
* `Resources.Succeeds`: a change seen from the numbers.

## Main results

* `Resources.Change.wellFormed`: every change keeps the resources well-formed.
* `Resources.Change.flow`: a change lends one block, is refused one, or returns blocks that were
  held, each once.
* `Resources.Change.succeeds`: no change brings a number back that was used before.
-/

namespace StackMachine

/-- What a machine holds: memory and open files. -/
structure Resources where
  /-- Where blocks come from. -/
  allocator : Allocator
  /-- The objects of the collector. -/
  collector : Collector
  /-- The managed objects. -/
  objects : ObjectTable
  /-- The raw blocks. -/
  blocks : BlockTable
  /-- The open files. -/
  files : FileTable

/-- The resources of a machine. -/
def Machine.resources (m : Machine) : Resources where
  allocator := m.allocator
  collector := m.collector
  objects := m.objects
  blocks := m.blocks
  files := m.files

/-- The machine with other resources. -/
def Machine.withResources (m : Machine) (r : Resources) : Machine :=
  { m with
    allocator := r.allocator
    collector := r.collector
    objects := r.objects
    blocks := r.blocks
    files := r.files }

namespace Resources

variable {limit : Option Nat} {r after : Resources} {target : Target}

/-- Resources that were never used. -/
def unused (allocator : Allocator) : Resources where
  allocator
  collector := {}
  objects := {}
  blocks := {}
  files := FileTable.empty

/-- Every block that is held, each once. -/
def held (r : Resources) : List Block :=
  r.collector.heap.values ++ (r.objects.entries.values.map (·.block) ++ r.blocks.entries.values)

/-- The bytes that the blocks held were asked for with. -/
def heapBytes (r : Resources) : Nat :=
  r.collector.heapBytes + r.blocks.bytesInUse + r.objects.bytesInUse

/-- So many more bytes stay within the limit. -/
def Fits (r : Resources) (limit : Option Nat) (size : Nat) : Prop :=
  ∀ most, limit = some most → r.heapBytes + size ≤ most

/-- Whether a target still exists. -/
def isLive (r : Resources) : Target → Bool
  | .null => false
  | .object id => r.objects.has id
  | .collected handle => r.collector.contains handle
  | .file id => r.files.has id
  | .address location => r.blocks.has location

/-- The target has a number that was handed out. -/
def IsUsed (r : Resources) : Target → Prop
  | .null => False
  | .object id => id < r.objects.next
  | .collected handle => handle < r.collector.nextHandle
  | .file id => id < r.files.next
  | .address location => location < r.blocks.next

/-- Gives up what a target refers to. Files stay open. -/
def free (r : Resources) : Target → Resources
  | .object id =>
    { r with
      objects := (r.objects.free r.allocator id).2.1
      allocator := (r.objects.free r.allocator id).2.2 }
  | .collected handle =>
    { r with
      collector := (r.collector.deallocate r.allocator handle).1
      allocator := (r.collector.deallocate r.allocator handle).2 }
  | .address location =>
    { r with
      blocks := (r.blocks.free r.allocator location).2.1
      allocator := (r.blocks.free r.allocator location).2.2 }
  | .file _ | .null => r

/-- Gives up everything; the numbers stay used. -/
def clear (r : Resources) : Resources :=
  let (objects, allocator) := r.objects.release r.allocator
  let (blocks, allocator) := r.blocks.release allocator
  let (collector, allocator) := r.collector.clear allocator
  { allocator, collector, objects, blocks, files := Numbered.clear r.files }

/-- What can happen to the resources in one go under a heap limit. -/
inductive Change (limit : Option Nat) (r : Resources) : Resources → Prop
  /-- A managed object is asked for, within the limit. -/
  | createObject (host : Host) (tag : String) {size : Nat} (fits : r.Fits limit size) :
      Change limit r
        { r with
          objects := (r.objects.create host r.allocator tag size).2.1
          allocator := (r.objects.create host r.allocator tag size).2.2 }
  /-- An object of the collector is asked for, within the limit. -/
  | createCollected (host : Host) {size : Nat} (fits : r.Fits limit size) :
      Change limit r
        { r with
          collector := (r.collector.allocate host r.allocator size).2.1
          allocator := (r.collector.allocate host r.allocator size).2.2 }
  /-- A raw block is asked for, within the limit. -/
  | createBlock (host : Host) {size : Nat} (fits : r.Fits limit size) :
      Change limit r
        { r with
          blocks := (r.blocks.create host r.allocator size).2.1
          allocator := (r.blocks.create host r.allocator size).2.2 }
  /-- What a target refers to is given up. -/
  | free (target : Target) : Change limit r (r.free target)
  /-- Garbage is collected, from any roots. -/
  | collect (roots : List Nat) :
      Change limit r
        { r with
          collector := ((r.collector.withRoots roots).collect r.allocator).2.1
          allocator := ((r.collector.withRoots roots).collect r.allocator).2.2 }
  /-- A file is opened. -/
  | openFile (file : OpenFile) : Change limit r { r with files := (Numbered.add r.files file).2 }
  /-- An open file is read or written. -/
  | useFile {number : Int} (isOpen : r.files.has number = true) (file : OpenFile) :
      Change limit r { r with files := Numbered.set r.files number file }
  /-- A file is closed. -/
  | closeFile (number : Int) : Change limit r { r with files := Numbered.remove r.files number }
  /-- Everything is given up. -/
  | clear : Change limit r r.clear

/-- What can happen to the resources in any number of steps. -/
abbrev Changes (limit : Option Nat) : Resources → Resources → Prop :=
  Relation.ReflTransGen (Change limit)

/-! ### What is held -/

theorem length_held (r : Resources) :
    r.held.length = r.collector.heapSize + r.objects.size + r.blocks.size := by
  simp only [held, List.length_append, List.length_map, Entries.values]
  exact (Nat.add_assoc _ _ _).symm

/-- The total over the blocks in a table is the total over its entries. -/
theorem total_map_values {κ ν : Type} (measure : Block → Nat) (block : ν → Block)
    (entries : Entries κ ν) :
    Block.total measure (entries.values.map block) =
      Entries.total (fun value => measure (block value)) entries := by
  induction entries with
  | nil => rfl
  | cons entry rest ih => exact congrArg (measure (block entry.2) + ·) ih

/-- A measure of what is held, table by table. -/
theorem total_held (r : Resources) (measure : Block → Nat) :
    Block.total measure r.held =
      Entries.total measure r.collector.heap +
        Entries.total (fun object => measure object.block) r.objects.entries +
        Entries.total measure r.blocks.entries := by
  -- The entries of the collector and of the raw blocks are the blocks themselves.
  have hheap := total_map_values measure id r.collector.heap
  have hblocks := total_map_values measure id r.blocks.entries
  rw [List.map_id] at hheap hblocks
  rw [held, Block.total_append, Block.total_append, hheap, hblocks, total_map_values]
  exact (Nat.add_assoc _ _ _).symm

/-! ### Every change keeps the resources well-formed -/

/-- Numbers are distinct and below the next one, and no object of the collector refers to
another. -/
structure WellFormed (r : Resources) : Prop where
  /-- The heap of the collector is. -/
  collector : r.collector.WellFormed
  /-- No object refers to another. -/
  references : r.collector.references = []
  /-- The managed objects are. -/
  objects : r.objects.WellFormed
  /-- The raw blocks are. -/
  blocks : r.blocks.WellFormed
  /-- The open files are. -/
  files : r.files.WellFormed

theorem wellFormed_unused (allocator : Allocator) : (unused allocator).WellFormed where
  collector := Collector.wellFormed_new
  references := rfl
  objects := Numbered.wellFormed_of_entries_nil rfl
  blocks := Numbered.wellFormed_of_entries_nil rfl
  files := Numbered.wellFormed_of_entries_nil rfl

/-- A new object keeps the numbers of the table in order, and a refused one changes nothing. -/
theorem wellFormed_create_object {table : ObjectTable} (h : Numbered.WellFormed table)
    (host : Host) (allocator : Allocator) (tag : String) (size : Nat) :
    Numbered.WellFormed (table.create host allocator tag size).2.1 := by
  unfold ObjectTable.create
  split
  · exact h.add _
  · exact h

/-- So does a new raw block. -/
theorem wellFormed_create_block {table : BlockTable} (h : Numbered.WellFormed table)
    (host : Host) (allocator : Allocator) (size : Nat) :
    Numbered.WellFormed (table.create host allocator size).2.1 := by
  unfold BlockTable.create
  split
  · exact h.add _
  · exact h

/-- A new object is not referred to. -/
theorem references_allocate (c : Collector) (host : Host) (allocator : Allocator) (size : Nat) :
    (c.allocate host allocator size).2.1.references = c.references := by
  rcases Collector.allocate_cases c host allocator size with h | ⟨block, h⟩ <;> rw [h]

theorem references_discard_of_nil {c : Collector} (h : c.references = []) (dead : Nat → Bool) :
    (c.discard dead).references = [] := by
  rw [Collector.references_discard, h]
  rfl

/-- Freeing a target keeps the tables in order, whatever the target is. -/
theorem WellFormed.free (h : r.WellFormed) (target : Target) : (r.free target).WellFormed := by
  cases target with
  | null => exact h
  | file id => exact h
  | object id =>
    refine { h with objects := ?_ }
    simp only [Resources.free, ObjectTable.free]
    split
    · exact h.objects.remove id
    · exact h.objects
  | address location =>
    refine { h with blocks := ?_ }
    simp only [Resources.free, BlockTable.free]
    split
    · exact h.blocks.remove location
    · exact h.blocks
  | collected handle =>
    refine { h with collector := h.collector.deallocate r.allocator handle, references := ?_ }
    simp only [Resources.free, Collector.deallocate]
    split
    · exact references_discard_of_nil h.references fun other => other = handle
    · exact h.references

/-- Every change keeps the resources well-formed. -/
theorem Change.wellFormed (hchange : Change limit r after) (h : r.WellFormed) :
    after.WellFormed := by
  cases hchange with
  | createObject host tag fits =>
    exact { h with objects := wellFormed_create_object h.objects host r.allocator tag _ }
  | createCollected host fits =>
    exact { h with
      collector := h.collector.allocate host r.allocator _
      references := (references_allocate r.collector host r.allocator _).trans h.references }
  | createBlock host fits =>
    exact { h with blocks := wellFormed_create_block h.blocks host r.allocator _ }
  | free target => exact h.free target
  | collect roots =>
    obtain ⟨kept, heq, -⟩ := Collector.withRoots_eq r.collector roots
    have hreferences : (r.collector.withRoots roots).references = [] := by
      rw [heq]
      exact h.references
    exact { h with
      collector := (h.collector.withRoots roots).collect r.allocator
      references := references_discard_of_nil hreferences (r.collector.withRoots roots).isGarbage }
  | openFile file => exact { h with files := h.files.add file }
  | useFile isOpen file => exact { h with files := h.files.set isOpen file }
  | closeFile number => exact { h with files := h.files.remove number }
  | clear =>
    exact {
      collector := Collector.wellFormed_clear r.collector r.allocator
      references := rfl
      objects := Numbered.wellFormed_of_entries_nil rfl
      blocks := Numbered.wellFormed_of_entries_nil rfl
      files := Numbered.wellFormed_of_entries_nil rfl }

/-- So does a sequence of changes. -/
theorem Changes.wellFormed (hchanges : Changes limit r after) (h : r.WellFormed) :
    after.WellFormed := by
  induction hchanges with
  | refl => exact h
  | tail _ hchange ih => exact hchange.wellFormed ih

/-! ### Changes seen from the allocator -/

/-- A change seen from the allocator: it lends one block, is asked for one and refuses, or takes
back blocks that were held, each once. -/
inductive Flow (limit : Option Nat) (r after : Resources) : Prop
  /-- One more block is held. -/
  | lent {host : Host} {size : Nat} {block : Block} (fits : r.Fits limit size)
      (granted : r.allocator.allocate host size = (some block, after.allocator))
      (held : after.held.Perm (block :: r.held))
  /-- The same blocks are held. -/
  | refused {host : Host} {size : Nat}
      (refused : r.allocator.allocate host size = (none, after.allocator))
      (held : after.held = r.held)
  /-- The blocks taken back are no longer held. -/
  | returned (freed : List Block) (held : r.held.Perm (freed ++ after.held))
      (allocator : after.allocator = r.allocator.deallocateAll freed)

/-- Resources that hold the same blocks of the same allocator. -/
theorem Flow.of_eq (hheld : after.held = r.held) (hallocator : after.allocator = r.allocator) :
    Flow limit r after :=
  .returned [] (by rw [hheld]; exact List.Perm.refl _) hallocator

/-- One more block in the middle table is one more block. -/
theorem perm_cons_middle {before middle more behind : List Block} {block : Block}
    (h : more.Perm (block :: middle)) :
    (before ++ (more ++ behind)).Perm (block :: (before ++ (middle ++ behind))) :=
  ((h.append_right behind).append_left before).trans List.perm_middle

theorem perm_cons_last {before middle last more : List Block} {block : Block}
    (h : more.Perm (block :: last)) :
    (before ++ (middle ++ more)).Perm (block :: (before ++ (middle ++ last))) := by
  rw [← List.append_assoc, ← List.append_assoc before middle last]
  exact (h.append_left _).trans List.perm_middle

/-- Blocks that leave the collector. -/
theorem perm_returned {heap freed kept rest : List Block} (h : heap.Perm (freed ++ kept)) :
    (heap ++ rest).Perm (freed ++ (kept ++ rest)) := by
  rw [← List.append_assoc]
  exact h.append_right rest

/-- A new object borrows one block, or none if it is refused. -/
theorem flow_createObject (h : r.WellFormed) (host : Host) (tag : String) {size : Nat}
    (fits : r.Fits limit size) :
    Flow limit r
      { r with
        objects := (r.objects.create host r.allocator tag size).2.1
        allocator := (r.objects.create host r.allocator tag size).2.2 } := by
  unfold ObjectTable.create
  split
  next block allocator hgranted =>
    refine .lent fits hgranted (perm_cons_middle ?_)
    exact (h.objects.values_add { block, tag }).map (·.block)
  next allocator hrefused => exact .refused hrefused rfl

/-- So does a new object of the collector. -/
theorem flow_createCollected (h : r.WellFormed) (host : Host) {size : Nat}
    (fits : r.Fits limit size) :
    Flow limit r
      { r with
        collector := (r.collector.allocate host r.allocator size).2.1
        allocator := (r.collector.allocate host r.allocator size).2.2 } := by
  unfold Collector.allocate
  split
  next block allocator hgranted =>
    -- The handle is new, so the block replaces nothing.
    have hnew : Entries.has r.collector.nextHandle r.collector.heap = false := by
      rw [Bool.eq_false_iff, Ne, Entries.has_iff_mem_keys]
      intro hmem
      exact Nat.lt_irrefl _ (h.collector.handle_lt _ hmem)
    refine .lent fits hgranted ?_
    exact ((Entries.perm_insert block hnew).map (·.2)).append_right _
  next allocator hrefused => exact .refused hrefused rfl

/-- So does a new raw block. -/
theorem flow_createBlock (h : r.WellFormed) (host : Host) {size : Nat}
    (fits : r.Fits limit size) :
    Flow limit r
      { r with
        blocks := (r.blocks.create host r.allocator size).2.1
        allocator := (r.blocks.create host r.allocator size).2.2 } := by
  unfold BlockTable.create
  split
  next block allocator hgranted =>
    exact .lent fits hgranted (perm_cons_last (h.blocks.values_add block))
  next allocator hrefused => exact .refused hrefused rfl

/-- Freeing a target gives back its block, and nothing if there is none. -/
theorem flow_free (h : r.WellFormed) (target : Target) : Flow limit r (r.free target) := by
  cases target with
  | null => exact .of_eq rfl rfl
  | file id => exact .of_eq rfl rfl
  | object id =>
    simp only [Resources.free, ObjectTable.free]
    split
    next object hget =>
      exact .returned [object.block]
        (perm_cons_middle ((h.objects.values_remove hget).map (·.block))) rfl
    next => exact .of_eq rfl rfl
  | address location =>
    simp only [Resources.free, BlockTable.free]
    split
    next block hget =>
      exact .returned [block] (perm_cons_last (h.blocks.values_remove hget)) rfl
    next => exact .of_eq rfl rfl
  | collected handle =>
    simp only [Resources.free, Collector.deallocate]
    split
    next =>
      exact .returned (r.collector.blocksOf fun other => other = handle)
        (perm_returned (r.collector.values_discard _)) rfl
    next => exact .of_eq rfl rfl

/-- A collection gives back the blocks of the garbage. -/
theorem flow_collect (r : Resources) (roots : List Nat) :
    Flow limit r
      { r with
        collector := ((r.collector.withRoots roots).collect r.allocator).2.1
        allocator := ((r.collector.withRoots roots).collect r.allocator).2.2 } := by
  -- Setting the roots moves no block, so what is freed and what is kept make up the old heap.
  obtain ⟨kept, heq, -⟩ := Collector.withRoots_eq r.collector roots
  have hheap : (r.collector.withRoots roots).heap = r.collector.heap := by rw [heq]
  refine .returned ((r.collector.withRoots roots).blocksOf
    (r.collector.withRoots roots).isGarbage) ?_ rfl
  have hvalues := (r.collector.withRoots roots).values_discard
    (r.collector.withRoots roots).isGarbage
  rw [hheap] at hvalues
  exact perm_returned hvalues

/-- Giving up everything returns every block that is held. -/
theorem clear_eq (r : Resources) :
    r.clear.held = [] ∧ r.clear.allocator = r.allocator.deallocateAll
      (r.objects.entries.values.map (·.block) ++ r.blocks.entries.values ++
        r.collector.heap.values) := by
  refine ⟨rfl, ?_⟩
  -- The three tables give back their blocks one after the other.
  rw [Allocator.deallocateAll, List.foldl_append, List.foldl_append]
  rfl

theorem flow_clear (r : Resources) : Flow limit r r.clear := by
  obtain ⟨hheld, hallocator⟩ := clear_eq r
  refine .returned _ ?_ hallocator
  rw [hheld, List.append_nil]
  exact List.perm_append_comm

/-- A change lends one block, is refused one, or returns blocks that were held. -/
theorem Change.flow (hchange : Change limit r after) (h : r.WellFormed) : Flow limit r after := by
  cases hchange with
  | createObject host tag fits => exact flow_createObject h host tag fits
  | createCollected host fits => exact flow_createCollected h host fits
  | createBlock host fits => exact flow_createBlock h host fits
  | free target => exact flow_free h target
  | collect roots => exact flow_collect r roots
  | openFile file => exact .of_eq rfl rfl
  | useFile isOpen file => exact .of_eq rfl rfl
  | closeFile number => exact .of_eq rfl rfl
  | clear => exact flow_clear r

/-! ### Changes seen from the numbers -/

/-- Used numbers stay used in every table, and none comes back. -/
structure Succeeds (r after : Resources) : Prop where
  /-- The handles of the collector. -/
  collector : r.collector.Succeeds after.collector
  /-- The numbers of managed objects. -/
  objects : r.objects.Succeeds after.objects
  /-- The addresses of raw blocks. -/
  blocks : r.blocks.Succeeds after.blocks
  /-- The numbers of files. -/
  files : r.files.Succeeds after.files

theorem Succeeds.refl (r : Resources) : r.Succeeds r :=
  ⟨.refl _, .refl _, .refl _, .refl _⟩

/-- Freeing a target gives up at most its number. -/
theorem succeeds_free (r : Resources) (target : Target) : r.Succeeds (r.free target) := by
  cases target with
  | null => exact .refl r
  | file id => exact .refl r
  | object id =>
    refine { Succeeds.refl r with objects := ?_ }
    simp only [free, ObjectTable.free]
    split
    · exact Numbered.succeeds_remove _ _
    · exact .refl _
  | address location =>
    refine { Succeeds.refl r with blocks := ?_ }
    simp only [free, BlockTable.free]
    split
    · exact Numbered.succeeds_remove _ _
    · exact .refl _
  | collected handle =>
    exact { Succeeds.refl r with
      collector := r.collector.succeeds_deallocate r.allocator handle }

/-- No change brings a number back that was used before. -/
theorem Change.succeeds (hchange : Change limit r after) : r.Succeeds after := by
  cases hchange with
  | createObject host tag fits =>
    refine { Succeeds.refl r with objects := ?_ }
    unfold ObjectTable.create
    split
    · exact Numbered.succeeds_add _ _
    · exact .refl _
  | createCollected host fits =>
    exact { Succeeds.refl r with
      collector := r.collector.succeeds_allocate host r.allocator _ }
  | createBlock host fits =>
    refine { Succeeds.refl r with blocks := ?_ }
    unfold BlockTable.create
    split
    · exact Numbered.succeeds_add _ _
    · exact .refl _
  | free target => exact succeeds_free r target
  | collect roots =>
    exact { Succeeds.refl r with
      collector := r.collector.succeeds_withRoots roots r.allocator }
  | openFile file => exact { Succeeds.refl r with files := Numbered.succeeds_add _ file }
  | useFile isOpen file => exact { Succeeds.refl r with files := Numbered.succeeds_set isOpen file }
  | closeFile number => exact { Succeeds.refl r with files := Numbered.succeeds_remove _ number }
  | clear =>
    exact ⟨r.collector.succeeds_clear r.allocator, Numbered.succeeds_clear _,
      Numbered.succeeds_clear _, Numbered.succeeds_clear _⟩

end Resources

end StackMachine
