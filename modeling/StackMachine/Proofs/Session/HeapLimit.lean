import Mathlib.Logic.Relation
import StackMachine.Proofs.Machine.Step
import StackMachine.Proofs.Session.Basic

/-!
# The heap limit

Memory is only asked for within the heap limit, so the bytes held stay within it throughout a
session. A request that the limit or the allocator refuses leaves no trace in memory.

## Main definitions

* `Machine.Refuses`: a request does not fit the limit, or the allocator has no block for it.
* `Machine.SameMemory`: the tables with their next numbers and the counters of the allocator are
  the same.
* `Instruction.request?`: the number of bytes that an instruction asks for.

## Main results

* `Resources.Flow.heapBytes_le`: one change keeps the bytes held within the limit.
* `Instruction.run_request_of_refused`: a refused request is a memory fault and leaves memory as it
  was.
* `Machine.heap_within_limit`: no session exceeds the limit, and refused requests have no effect on
  memory.
-/

namespace StackMachine

namespace Resources

variable {limit : Option Nat} {r after : Resources} {most : Nat}

/-- The bytes held are the sizes of the blocks held. -/
theorem heapBytes_eq (r : Resources) : r.heapBytes = Block.total Block.size r.held := by
  rw [total_held]
  exact Nat.add_right_comm _ _ _

/-- A change keeps the bytes held within the limit: only a block that fits is added. -/
theorem Flow.heapBytes_le (hflow : Flow (some most) r after) (h : r.heapBytes ≤ most) :
    after.heapBytes ≤ most := by
  cases hflow with
  | @lent host size block fits granted held =>
    -- The limit was checked against the size that the block was asked for with.
    have hsize : block.size = size := (Allocator.lends_of_allocate granted).size_eq
    have hfits : r.heapBytes + size ≤ most := fits most rfl
    rw [heapBytes_eq] at hfits
    rw [heapBytes_eq, Block.total_perm _ held, Block.total_cons, hsize]
    omega
  | refused _ held =>
    rw [heapBytes_eq] at h ⊢
    rwa [held]
  | returned freed held _ =>
    rw [heapBytes_eq, Block.total_perm _ held, Block.total_append] at h
    rw [heapBytes_eq]
    omega

/-- Changes within a limit do not lead beyond it. -/
theorem Changes.heapBytes_le (hchanges : Changes (some most) r after) (hr : r.WellFormed)
    (h : r.heapBytes ≤ most) : after.heapBytes ≤ most := by
  induction hchanges with
  | refl => exact h
  | tail hbefore hchange ih => exact (hchange.flow (Changes.wellFormed hbefore hr)).heapBytes_le ih

end Resources

namespace Machine

variable {m after : Machine} {size : Nat}

/-- No session leads beyond the heap limit. -/
theorem Reachable.heapBytes_le (hm : m.Reachable) {most : Nat}
    (hlimit : m.settings.heapLimit = some most) : m.heapBytes ≤ most := by
  obtain ⟨start, operations, hnew, rfl⟩ := hm
  -- The limit at the end is the one under which all changes were made.
  have hevolves := start.evolves_after operations
  have hchanges := hevolves.changes
  rw [hevolves.settings] at hlimit
  rw [hlimit] at hchanges
  refine hchanges.heapBytes_le (hnew.wellFormed_after []) ?_
  rw [hnew]
  exact Nat.zero_le most

/-- A request of so many bytes does not fit the limit, or the allocator has no block for it. -/
def Refuses (m : Machine) (size : Nat) : Prop :=
  m.fitsHeapLimit size = false ∨ (m.allocator.allocate m.host size).1 = none

/-- The tables hold the same under the same numbers and will hand out the same numbers next, and
the counters of the allocator are the same. -/
structure SameMemory (m after : Machine) : Prop where
  /-- The objects of the collector. -/
  collector : after.collector = m.collector
  /-- The managed objects. -/
  objects : after.objects = m.objects
  /-- The raw blocks. -/
  blocks : after.blocks = m.blocks
  /-- The open files. -/
  files : after.files = m.files
  /-- What the allocator has done. -/
  counts : after.allocator.counts = m.allocator.counts

theorem SameMemory.refl (m : Machine) : m.SameMemory m := ⟨rfl, rfl, rfl, rfl, rfl⟩

/-- The operand stack is not part of memory. -/
theorem SameMemory.of_withStack {stack : List Value}
    (h : ({ m with stack } : Machine).SameMemory after) : m.SameMemory after :=
  ⟨h.collector, h.objects, h.blocks, h.files, h.counts⟩

end Machine

namespace Effect

open Machine

variable {α : Type} {m : Machine} {size : Nat}

/-- The effect asks the allocator for so many bytes: without a block it gives nothing and changes
nothing but the allocator, and with one it gives something. -/
structure Requests (create : Effect (Option α)) (size : Nat) : Prop where
  /-- Without a block, there is no result. -/
  refused : ∀ (m : Machine) (allocator : Allocator),
    m.allocator.allocate m.host size = (none, allocator) →
      create.run m = (.ok none, { m with allocator })
  /-- With a block, there is one. -/
  granted : ∀ (m : Machine) (block : Block) (allocator : Allocator),
    m.allocator.allocate m.host size = (some block, allocator) →
      ∃ a after, create.run m = (.ok (some a), after)

/-- A new object asks the allocator for its block. -/
theorem requests_createObject (tag : String) (size : Nat) :
    (createObject tag size).Requests size where
  refused m allocator h := by
    rw [createObject, run_get_bind, ObjectTable.create, h]
    rfl
  granted m block allocator h := by
    rw [createObject, run_get_bind, ObjectTable.create, h]
    exact ⟨_, _, rfl⟩

/-- So does a new object of the collector. -/
theorem requests_createCollected (size : Nat) : (createCollected size).Requests size where
  refused m allocator h := by
    rw [createCollected, run_get_bind, Collector.allocate, h]
    rfl
  granted m block allocator h := by
    rw [createCollected, run_get_bind, Collector.allocate, h]
    exact ⟨_, _, rfl⟩

/-- So does a new raw block. -/
theorem requests_createBlock (size : Nat) : (createBlock size).Requests size where
  refused m allocator h := by
    rw [createBlock, run_get_bind, BlockTable.create, h]
    rfl
  granted m block allocator h := by
    rw [createBlock, run_get_bind, BlockTable.create, h]
    exact ⟨_, _, rfl⟩

/-- What a refused request leaves is the memory as it was. -/
theorem Requests.sameMemory {create : Effect (Option α)} (h : create.Requests size)
    (hrefused : (m.allocator.allocate m.host size).1 = none) :
    ∃ after, create.run m = (.ok none, after) ∧ m.SameMemory after := by
  refine ⟨_, h.refused m _ (Prod.ext hrefused rfl), rfl, rfl, rfl, rfl, ?_⟩
  exact (Allocator.refused_counts hrefused).1

end Effect

namespace Instruction

open Effect Machine

variable {m : Machine} {instruction : Instruction} {size : Nat} {runner : Runner} {pc : Nat}

section Requests

variable {α : Type} {create : Effect (Option α)} {refused : Cause} {result : α → Value}

/-- A refused request is a memory fault and leaves memory as it was. -/
theorem run_request_of_refused (h : create.Requests size) (hkind : refused.kind = .memory)
    (hrefused : m.Refuses size) :
    ∃ cause after, (instruction.request create size refused result).run m =
        (.error (.fault (instruction.fault cause)), after) ∧
      cause.kind = .memory ∧ m.SameMemory after := by
  rw [request, run_bind, run_checkHeapLimit]
  by_cases hfits : m.fitsHeapLimit size = true
  · -- The limit lets the request pass, so it is the allocator that refuses.
    have hnone : (m.allocator.allocate m.host size).1 = none :=
      hrefused.resolve_left (by simp [hfits])
    obtain ⟨after, hrun, hsame⟩ := h.sameMemory hnone
    rw [if_pos hfits]
    dsimp only
    rw [run_bind_of_ok hrun]
    exact ⟨refused, after, rfl, hkind, hsame⟩
  · rw [if_neg hfits]
    exact ⟨_, m, rfl, rfl, .refl m⟩

/-- A request that is not refused goes on to the next instruction. -/
theorem run_request_of_granted (h : create.Requests size) (hgranted : ¬ m.Refuses size) :
    ∃ after, (instruction.request create size refused result).run m = (.ok .next, after) := by
  obtain ⟨hfits, hsome⟩ := not_or.mp hgranted
  obtain ⟨block, hblock⟩ := Option.ne_none_iff_exists.mp hsome
  obtain ⟨a, after, hrun⟩ := h.granted m block _ (Prod.ext hblock.symm rfl)
  rw [request, run_bind, run_checkHeapLimit, if_pos (by simpa using hfits)]
  dsimp only
  rw [run_bind_of_ok hrun]
  exact ⟨_, rfl⟩

end Requests

/-- The number of bytes that an instruction asks for, given the operand stack. A raw block of no
size is not asked for. -/
def request? (instruction : Instruction) (stack : List Value) : Option Nat :=
  match instruction.opcode with
  | .ptrNew => some (requestedSize stack.head? 8)
  | .gcNew => some (requestedSize stack.head? 1)
  | .memMalloc =>
    match stack with
    | value :: _ => if value.toInt64 ≤ 0 then none else some value.toInt64.toInt.toNat
    | [] => none
  | _ => none

/-- An instruction that asks for memory takes a value off the stack, if there is one, and then
requests. -/
theorem run_execute_of_request? (h : instruction.request? m.stack = some size) :
    ∃ (α : Type) (create : Effect (Option α)) (refused : Cause) (result : α → Value),
      create.Requests size ∧ refused.kind = .memory ∧
        (instruction.execute runner pc).run m =
          (instruction.request create size refused result).run
            { m with stack := m.stack.tail } := by
  -- Only three instructions ask for memory.
  cases hopcode : instruction.opcode <;> simp only [request?, hopcode, reduceCtorEq] at h
  case ptrNew =>
    cases h
    refine ⟨Int, createObject "object" _, .objectRefused,
      fun id => instruction.allocated (.object id) "object", requests_createObject _ _, rfl, ?_⟩
    simp only [execute, hopcode]
    rw [run_bind_of_ok (run_pop? m)]
  case gcNew =>
    cases h
    refine ⟨Nat, createCollected _, .collectedRefused,
      fun handle => instruction.allocated (.collected handle) "gc", requests_createCollected _,
      rfl, ?_⟩
    simp only [execute, hopcode]
    rw [run_bind_of_ok (run_pop? m)]
  case memMalloc =>
    split at h
    next value stack hstack =>
      split at h
      next => cases h
      next hpositive =>
        cases h
        refine ⟨Int, createBlock _, .blockRefused, fun address => .long (Int64.ofInt address),
          requests_createBlock _, rfl, ?_⟩
        simp only [execute, hopcode]
        rw [run_bind_of_ok (run_popOr_cons _ hstack), hstack, if_neg hpositive]
        rfl
    next => cases h

/-- An instruction that could ask for memory and does not is one for a raw block without a size.
It fails before anything is asked for. -/
theorem run_execute_of_no_request (hop : instruction.opcode ∈ [.ptrNew, .gcNew, .memMalloc])
    (h : instruction.request? m.stack = none) :
    ∃ cause, (instruction.execute runner pc).run m =
      (.error (.fault (instruction.fault cause)), { m with stack := m.stack.tail }) := by
  cases hopcode : instruction.opcode <;> simp [hopcode] at hop
  case ptrNew | gcNew => simp [request?, hopcode] at h
  case memMalloc =>
    simp only [execute, hopcode]
    cases hstack : m.stack with
    | nil =>
      refine ⟨.underflow "MEM_malloc", ?_⟩
      rw [run_bind_of_error (run_popOr_nil _ hstack), List.tail_nil, ← hstack]
    | cons value stack =>
      simp only [request?, hopcode, hstack, ite_eq_left_iff, reduceCtorEq, imp_false,
        Decidable.not_not] at h
      refine ⟨.invalidSize value.toInt64, ?_⟩
      rw [run_bind_of_ok (run_popOr_cons _ hstack), if_pos h]
      rfl

end Instruction

namespace Machine

open Effect

variable {m after : Machine} {instruction : Instruction} {size : Nat} {runner : Runner}

/-- An instruction whose request is refused fails for want of memory and leaves memory as it was. -/
theorem step_of_refused (hat : m.program[m.pc]? = some instruction)
    (hrequest : instruction.request? m.stack = some size) (hrefused : m.Refuses size) :
    ∃ cause after, (step runner).run m = (.error (.fault (instruction.fault cause)), after) ∧
      cause.kind = .memory ∧ m.SameMemory after := by
  obtain ⟨α, create, refused, result, hcreate, hkind, hrun⟩ :=
    Instruction.run_execute_of_request? hrequest
  have hrefusedBelow : ({ m with stack := m.stack.tail } : Machine).Refuses size := hrefused
  obtain ⟨cause, after, hrefusal, hcause, hsame⟩ :=
    Instruction.run_request_of_refused hcreate hkind hrefusedBelow
  exact ⟨cause, after, step_fault hat (hrun.trans hrefusal), hcause, hsame.of_withStack⟩

/-- However an instruction that asks for memory fails, it leaves memory as it was. -/
theorem sameMemory_of_step_error (hat : m.program[m.pc]? = some instruction)
    (hop : instruction.opcode ∈ [.ptrNew, .gcNew, .memMalloc]) {e : Interruption}
    (herror : (step runner).run m = (.error e, after)) : m.SameMemory after := by
  cases hrequest : instruction.request? m.stack with
  | none =>
    obtain ⟨cause, hrun⟩ := Instruction.run_execute_of_no_request hop hrequest
    rw [step_fault hat hrun] at herror
    cases herror
    exact SameMemory.of_withStack (.refl _)
  | some size =>
    by_cases hrefused : m.Refuses size
    · obtain ⟨cause, left, hstep, -, hsame⟩ := step_of_refused hat hrequest hrefused
      rw [hstep] at herror
      cases herror
      exact hsame
    · -- A request that is granted does not fail.
      obtain ⟨α, create, refused, result, hcreate, -, hrun⟩ :=
        Instruction.run_execute_of_request? hrequest
      have hgrantedBelow : ¬ ({ m with stack := m.stack.tail } : Machine).Refuses size := hrefused
      obtain ⟨left, hgranted⟩ := Instruction.run_request_of_granted hcreate hgrantedBelow
      rw [step_next hat (hrun.trans hgranted)] at herror
      cases herror

/-- The tag that a new object gets. -/
def newTag (argument : Value) : String := argument.text?.getD argument.typeName

/-- A new object that is refused is a null pointer, and memory is left as it was. -/
theorem run_newObject_of_refused {argument : Value}
    (hrefused : m.Refuses (ManagedObject.sizeFor (newTag argument))) :
    ∃ after, (Builtin.newObject argument).run m =
      (.ok (.pointer (.null (newTag argument))), after) ∧ m.SameMemory after := by
  unfold newTag at hrefused ⊢
  rw [Builtin.newObject, run_get_bind]
  split
  · -- The limit refuses: there is only a line in the diagnostics.
    exact ⟨_, rfl, rfl, rfl, rfl, rfl, rfl⟩
  next hfits =>
    have hnone := hrefused.resolve_left (by simpa using hfits)
    obtain ⟨after, hrun, hsame⟩ := (requests_createObject _ _).sameMemory hnone
    rw [run_bind_of_ok hrun]
    exact ⟨after, rfl, hsame⟩

/-- Where nothing is refused, the built-in function gives a pointer to a new object. -/
theorem run_newObject_of_granted {argument : Value}
    (hgranted : ¬ m.Refuses (ManagedObject.sizeFor (newTag argument))) :
    ∃ id after, (Builtin.newObject argument).run m =
      (.ok (.pointer { target := .object id, tag := newTag argument }), after) := by
  obtain ⟨hfits, hsome⟩ := not_or.mp hgranted
  obtain ⟨block, hblock⟩ := Option.ne_none_iff_exists.mp hsome
  obtain ⟨id, after, hrun⟩ :=
    (requests_createObject (newTag argument) _).granted m block _ (Prod.ext hblock.symm rfl)
  unfold newTag at hfits hrun
  rw [Builtin.newObject, run_get_bind, if_neg (by simpa using hfits), run_bind_of_ok hrun]
  exact ⟨id, after, rfl⟩

/-- Where the built-in function gives a null pointer, memory is left as it was. -/
theorem sameMemory_of_new_null {arguments : List Value} {p : Pointer} (hnull : p.isNull = true)
    (hrun : (Builtin.new.call runner arguments).run m = (.ok (.pointer p), after)) :
    m.SameMemory after := by
  cases arguments with
  | nil =>
    cases hrun
    exact .refl m
  | cons argument rest =>
    have hnew : (Builtin.newObject argument).run m = (.ok (.pointer p), after) := hrun
    by_cases hrefused : m.Refuses (ManagedObject.sizeFor (newTag argument))
    · obtain ⟨left, hrefusal, hsame⟩ := run_newObject_of_refused hrefused
      rw [hrefusal] at hnew
      cases hnew
      exact hsame
    · obtain ⟨id, left, hgranted⟩ := run_newObject_of_granted hrefused
      rw [hgranted] at hnew
      cases hnew
      cases hnull

/-- The heap limit is never exceeded, and what is refused leaves no trace. In every machine that a
session leads to, the bytes held are within the limit. An instruction whose request the limit or the
allocator refuses fails on its line for want of memory, the built-in function gives a null pointer,
and both leave the tables, their next numbers and the counters of the allocator as they were; so
does every failure of such an instruction and every null pointer of that function. -/
theorem heap_within_limit (hm : m.Reachable) :
    (∀ limit, m.settings.heapLimit = some limit → m.heapBytes ≤ limit) ∧
    (∀ runner instruction size, m.program[m.pc]? = some instruction →
      instruction.request? m.stack = some size → m.Refuses size →
      ∃ cause after, (step runner).run m = (.error (.fault (instruction.fault cause)), after) ∧
        cause.kind = .memory ∧ m.SameMemory after) ∧
    (∀ runner instruction e after, m.program[m.pc]? = some instruction →
      instruction.opcode ∈ [.ptrNew, .gcNew, .memMalloc] →
      (step runner).run m = (.error e, after) → m.SameMemory after) ∧
    (∀ runner argument rest, m.Refuses (ManagedObject.sizeFor (newTag argument)) →
      ∃ after, (Builtin.new.call runner (argument :: rest)).run m =
        (.ok (.pointer (.null (newTag argument))), after) ∧ m.SameMemory after) ∧
    ∀ runner arguments p after,
      (Builtin.new.call runner arguments).run m = (.ok (.pointer p), after) →
      p.isNull = true → m.SameMemory after := by
  refine ⟨fun limit hlimit => hm.heapBytes_le hlimit, ?_, ?_, ?_, ?_⟩
  · exact fun runner instruction size hat hrequest hrefused =>
      step_of_refused hat hrequest hrefused
  · exact fun runner instruction e after hat hop herror => sameMemory_of_step_error hat hop herror
  · exact fun runner argument rest hrefused => run_newObject_of_refused hrefused
  · exact fun runner arguments p after hrun hnull => sameMemory_of_new_null hnull hrun

/-- A machine that holds two objects of eight bytes, may hold twenty bytes, and is about to ask for
a third object. -/
def nearLimit : Machine :=
  Machine.after
    { settings := { heapLimit := some 20 }
      program :=
        [{ opcode := .ptrNew, operands := [], line := 1 },
          { opcode := .store, operands := ["first"], line := 2 },
          { opcode := .ptrNew, operands := [], line := 3 },
          { opcode := .store, operands := ["second"], line := 4 },
          { opcode := .ptrNew, operands := [], line := 5 }] }
    [.execute 4]

/-- A third object would exceed the limit, and is refused on its line. -/
theorem heap_within_limit_nearLimit :
    nearLimit.Reachable ∧ nearLimit.heapBytes ≤ 20 ∧ nearLimit.Refuses 8 ∧
      ∃ cause after, (step (nearLimit.innerRunner 0)).run nearLimit =
        (.error (.fault (.onLine cause 5)), after) ∧ cause.kind = .memory ∧
          nearLimit.SameMemory after := by
  have hm : nearLimit.Reachable := by
    refine ⟨_, _, ?_, rfl⟩
    rfl
  have hnext : nearLimit.program[nearLimit.pc]?.map
      (fun instruction => (instruction.request? nearLimit.stack, instruction.line)) =
        some (some 8, 5) := by decide +kernel
  obtain ⟨instruction, hat, heq⟩ := Option.map_eq_some_iff.mp hnext
  obtain ⟨hrequest, hline⟩ := Prod.mk.inj heq
  have hrefused : nearLimit.Refuses 8 := .inl (by decide +kernel)
  obtain ⟨hbytes, hrefusal, -⟩ := heap_within_limit hm
  rw [← hline]
  exact ⟨hm, hbytes 20 (by decide +kernel), hrefused, hrefusal _ _ 8 hat hrequest hrefused⟩

end Machine

end StackMachine
