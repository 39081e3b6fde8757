import StackMachine.Proofs.Session.Basic

/-!
# The books of a session

The collector, the managed objects and the raw blocks share one allocator. If the allocator is new
at the start of a session, its counters agree with what the three tables hold at every later
moment: every block that was handed out is in exactly one table or was taken back once.

## Main results

* `Resources.Flow.accounts`: one change keeps the books.
* `Machine.accounts_after`: so does a session.
* `Machine.books_balance_after`: the counters of the allocator are those of the three tables, no
  subtraction in them stops at zero, and nothing is held after a reset or a load.
-/

namespace StackMachine

namespace Resources

variable {limit : Option Nat} {r after : Resources}

/-- A change keeps the books of the allocator. -/
theorem Flow.accounts (hflow : Flow limit r after) (h : r.allocator.Accounts r.held) :
    after.allocator.Accounts after.held := by
  cases hflow with
  | lent _ granted held => exact (h.lend (Allocator.lends_of_allocate granted)).perm held.symm
  | @refused host size refused held =>
    have hrefused := h.refuse (congrArg Prod.fst refused)
    rw [refused] at hrefused
    rw [held]
    exact hrefused
  | returned freed held allocator =>
    -- What is taken back was lent: it is a part of what was held.
    rw [allocator]
    exact (h.perm held).takeBackAll

/-- The books balance after any changes. -/
theorem Changes.accounts (hchanges : Changes limit r after) (hr : r.WellFormed)
    (h : r.allocator.Accounts r.held) : after.allocator.Accounts after.held := by
  induction hchanges with
  | refl => exact h
  | tail hbefore hchange ih => exact (hchange.flow (Changes.wellFormed hbefore hr)).accounts ih

end Resources

namespace Machine

variable {start m : Machine}

/-- The books of the allocator agree with what is held throughout a session. -/
theorem accounts_after (hnew : start.IsNew) (hfresh : start.allocator.IsFresh)
    (operations : List Operation) :
    (start.after operations).allocator.Accounts (start.after operations).resources.held := by
  refine (start.evolves_after operations).changes.accounts ?_ ?_
  · exact hnew.wellFormed_after []
  · rw [hnew]
    exact hfresh.accounts

/-- No table holds a block and no byte is in use. -/
def HoldsNoMemory (m : Machine) : Prop :=
  m.collector.heapSize = 0 ∧ m.objects.size = 0 ∧ m.blocks.size = 0 ∧
    m.allocator.counts.bytesInUse = 0

/-- A reset takes everything back. -/
theorem holdsNoMemory_reset (h : m.allocator.Accounts m.resources.held) :
    m.reset.HoldsNoMemory := by
  -- A reset is the change that returns everything; the limit plays no part in it.
  have hflow : Resources.Flow none m.resources m.resources.clear := Resources.flow_clear m.resources
  have hclear : m.resources.clear.allocator.Accounts m.resources.clear.held :=
    hflow.accounts h
  exact ⟨rfl, rfl, rfl, hclear.bytes⟩

/-- A program that is loaded finds no memory in use. -/
theorem holdsNoMemory_load (h : m.allocator.Accounts m.resources.held) {source : String}
    {count : Nat} (hload : (m.load source).1 = .ok count) :
    (m.load source).2.HoldsNoMemory := by
  simp only [load] at hload ⊢
  split at hload
  · cases hload
  · rw [if_neg ‹_›]
    exact holdsNoMemory_reset h

/-- So does one from a file. -/
theorem holdsNoMemory_loadFile (h : m.allocator.Accounts m.resources.held) {path : String}
    {count : Nat} (hload : (m.loadFile path).1 = .ok count) :
    (m.loadFile path).2.HoldsNoMemory := by
  unfold loadFile at hload ⊢
  split at hload
  · exact holdsNoMemory_load h hload
  · cases hload

/-- Every block is accounted for and taken back once. After any session on a new allocator, the
blocks handed out and not taken back are as many as the three tables hold, and the bytes in use are
the capacities of the blocks in them. In whatever order blocks that are held are taken back, no
counter is too small for the next one, so no subtraction stops at zero. After a reset, and after
every load that succeeds, the tables are empty and no byte is in use. -/
theorem books_balance_after (hnew : start.IsNew) (hfresh : start.allocator.IsFresh)
    (operations : List Operation) :
    let m := start.after operations
    m.allocator.counts.allocations = m.allocator.counts.deallocations +
        (m.collector.heapSize + m.objects.size + m.blocks.size) ∧
      m.allocator.counts.bytesInUse =
        Entries.total Block.capacity m.collector.heap +
          Entries.total (fun object => object.block.capacity) m.objects.entries +
          Entries.total Block.capacity m.blocks.entries ∧
      (∀ freed block rest, m.resources.held.Perm (freed ++ block :: rest) →
        (m.allocator.deallocateAll freed).Affords block) ∧
      m.reset.HoldsNoMemory ∧
      (∀ source count, (m.load source).1 = .ok count → (m.load source).2.HoldsNoMemory) ∧
      ∀ path count, (m.loadFile path).1 = .ok count → (m.loadFile path).2.HoldsNoMemory := by
  intro m
  have haccounts : m.allocator.Accounts m.resources.held := accounts_after hnew hfresh operations
  refine ⟨?_, ?_, ?_, holdsNoMemory_reset haccounts, ?_, ?_⟩
  · rw [haccounts.count, Resources.length_held]
    rfl
  · rw [haccounts.bytes, Resources.total_held]
    rfl
  · -- When some of the blocks held have been taken back, the books are those of the rest.
    intro freed block rest hheld
    have hafter := (haccounts.perm hheld).takeBackAll
    exact hafter.affords List.mem_cons_self
  · exact fun source count hload => holdsNoMemory_load haccounts hload
  · exact fun path count hload => holdsNoMemory_loadFile haccounts hload

/-- A program that takes a block of each kind, gives one back, and fails. -/
def failingProgram : Program :=
  [{ opcode := .gcNew, operands := [], line := 1 },
    { opcode := .store, operands := ["kept"], line := 2 },
    { opcode := .push, operands := ["100"], literal := some (.int 100), line := 3 },
    { opcode := .memMalloc, operands := [], line := 4 },
    { opcode := .memFree, operands := [], line := 5 },
    { opcode := .ptrNew, operands := [], line := 6 },
    { opcode := .binaryOp, operands := ["+"], line := 7 }]

theorem books_balance_after_failingProgram :
    let start : Machine := { program := failingProgram }
    let m := start.after [.execute 10]
    start.IsNew ∧ start.allocator.IsFresh ∧ m.allocator.counts.deallocations = 1 ∧
      m.allocator.counts.allocations = m.allocator.counts.deallocations +
        (m.collector.heapSize + m.objects.size + m.blocks.size) ∧
      m.reset.HoldsNoMemory := by
  intro start m
  have hnew : start.IsNew := rfl
  have hfresh : start.allocator.IsFresh := rfl
  obtain ⟨hcount, -, -, hreset, -⟩ := books_balance_after hnew hfresh [.execute 10]
  exact ⟨hnew, hfresh, by decide +kernel, hcount, hreset⟩

end Machine

end StackMachine
