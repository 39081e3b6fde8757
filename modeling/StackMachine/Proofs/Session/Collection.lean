import Mathlib.Data.List.Basic
import StackMachine.Proofs.Machine.Step
import StackMachine.Proofs.Session.Basic

/-!
# What a collection of a machine keeps

A machine takes the strong pointers in its operand stack and its variables for the roots of a
collection. No object of the collector refers to another, so the objects kept are exactly those
that such a pointer names.

## Main definitions

* `Pointer.Names`: a strong pointer to an object of the collector.
* `Value.Contains`: a pointer occurs in a value, at any depth inside lists and dictionaries.
* `Machine.Holds`: a pointer occurs in the operand stack or in a variable.

## Main results

* `Machine.mem_rootHandles`: the roots are the handles that strong pointers name.
* `Machine.collectGarbage_frees_unnamed`: a collection keeps exactly what a strong pointer names,
  and changes nothing else of the machine.
-/

namespace StackMachine

/-- The pointer is strong and refers to this object of the collector. -/
def Pointer.Names (p : Pointer) (handle : Nat) : Prop :=
  p.weak = false ∧ p.target = .collected handle

namespace Value

theorem mem_strongHandles_pointer {p : Pointer} {handle : Nat} :
    handle ∈ (Value.pointer p).strongHandles ↔ p.Names handle := by
  obtain ⟨target, tag, weak, reference⟩ := p
  rw [strongHandles, Pointer.Names]
  cases weak <;> cases target <;> simp [eq_comm]

-- The induction is on the value, with the items of lists and the entries of dictionaries.
mutual

/-- The strong handles of a value are those that pointers in it name. -/
theorem mem_strongHandles {handle : Nat} : ∀ value : Value,
    handle ∈ value.strongHandles ↔ ∃ p, value.Contains p ∧ p.Names handle
  | .pointer p => by
    rw [mem_strongHandles_pointer]
    constructor
    · intro hnames
      exact ⟨p, .pointer, hnames⟩
    · rintro ⟨q, hcontains, hnames⟩
      cases hcontains
      exact hnames
  | .list items => by
    rw [strongHandles, mem_strongInItems items]
    constructor
    · rintro ⟨item, hitem, p, hcontains, hnames⟩
      exact ⟨p, .item hitem hcontains, hnames⟩
    · rintro ⟨p, hcontains, hnames⟩
      cases hcontains with
      | item hitem hcontains => exact ⟨_, hitem, p, hcontains, hnames⟩
  | .dict entries => by
    rw [strongHandles, mem_strongInEntries entries]
    constructor
    · rintro ⟨⟨key, value⟩, hentry, p, hcontains, hnames⟩
      exact ⟨p, .entry hentry hcontains, hnames⟩
    · rintro ⟨p, hcontains, hnames⟩
      cases hcontains with
      | entry hentry hcontains => exact ⟨_, hentry, p, hcontains, hnames⟩
  | .int _ | .long _ | .double _ | .bool _ | .str _ | .null => by
    simp only [strongHandles, List.not_mem_nil, false_iff]
    rintro ⟨p, hcontains, -⟩
    cases hcontains

/-- The handles in a list are those that the pointers in its items name. -/
theorem mem_strongInItems {handle : Nat} : ∀ items : List Value,
    handle ∈ strongInItems items ↔
      ∃ item ∈ items, ∃ p, item.Contains p ∧ p.Names handle
  | [] => by simp [strongInItems]
  | item :: rest => by
    rw [strongInItems, List.mem_append, mem_strongHandles item, mem_strongInItems rest,
      List.exists_mem_cons_iff]

/-- The handles in a dictionary are those that the pointers in its values name. -/
theorem mem_strongInEntries {handle : Nat} : ∀ entries : List (String × Value),
    handle ∈ strongInEntries entries ↔
      ∃ entry ∈ entries, ∃ p, entry.2.Contains p ∧ p.Names handle
  | [] => by simp [strongInEntries]
  | (key, value) :: rest => by
    rw [strongInEntries, List.mem_append, mem_strongHandles value, mem_strongInEntries rest,
      List.exists_mem_cons_iff]

end

end Value

namespace Collector

variable {c : Collector}

/-- Where no object refers to another, only the roots are reached. -/
theorem reaches_iff_of_no_references (h : c.references = []) {handle : Nat} :
    c.Reaches handle ↔ c.isRoot handle = true := by
  constructor
  · intro hreaches
    -- A last reference on the way would have to be recorded.
    cases hreaches with
    | root hroot => exact hroot
    | reference _ htarget =>
      obtain ⟨entry, hentry, -⟩ := exists_entry_of_mem_referencesOf htarget
      rw [h] at hentry
      cases hentry
  · exact .root

/-- Without references, a collection keeps of the heap what is among the given handles. -/
theorem contains_collect_withRoots (hc : c.WellFormed) (h : c.references = [])
    (handles : List Nat) (allocator : Allocator) (handle : Nat) :
    ((c.withRoots handles).collect allocator).2.1.contains handle = true ↔
      c.contains handle = true ∧ handle ∈ handles := by
  -- The roots set before play no part: the new ones replace them.
  obtain ⟨roots, heq, hroots⟩ := withRoots_eq c handles
  have hreferences : (c.withRoots handles).references = [] := by rw [heq, h]
  rw [contains_collect_iff (hc.withRoots handles), reaches_iff_of_no_references hreferences,
    isRoot_iff, heq]
  constructor
  · rintro ⟨hheap, hroot⟩
    exact ⟨hheap, ((hroots handle).mp hroot).1⟩
  · rintro ⟨hheap, hmem⟩
    exact ⟨hheap, (hroots handle).mpr ⟨hmem, hheap⟩⟩

/-- A collection does not touch the blocks that it keeps. -/
theorem find?_collect {allocator : Allocator} {handle : Nat}
    (h : (c.collect allocator).2.1.contains handle = true) :
    Entries.find? handle (c.collect allocator).2.1.heap = Entries.find? handle c.heap := by
  have hkept : c.isGarbage handle = false := by
    rw [contains_iff, collect_eq] at h
    exact (mem_keys_discard.mp h).2
  rw [collect_eq]
  exact (Entries.find?_filter_key (fun other => !c.isGarbage other) handle c.heap).trans
    (if_pos (by simp [hkept]))

end Collector

namespace Machine

variable {m : Machine}

/-- The pointer occurs in the operand stack or in a variable. -/
def Holds (m : Machine) (p : Pointer) : Prop :=
  (∃ value ∈ m.stack, value.Contains p) ∨ ∃ entry ∈ m.bindings, entry.2.Contains p

/-- The roots of a collection are the handles that strong pointers name. -/
theorem mem_rootHandles {handle : Nat} :
    handle ∈ m.rootHandles ↔ ∃ p, m.Holds p ∧ p.Names handle := by
  rw [rootHandles, List.mem_append, Value.mem_strongInItems, Value.mem_strongInEntries]
  constructor
  · rintro (⟨value, hvalue, p, hcontains, hnames⟩ | ⟨entry, hentry, p, hcontains, hnames⟩)
    · exact ⟨p, .inl ⟨value, hvalue, hcontains⟩, hnames⟩
    · exact ⟨p, .inr ⟨entry, hentry, hcontains⟩, hnames⟩
  · rintro ⟨p, ⟨value, hvalue, hcontains⟩ | ⟨entry, hentry, hcontains⟩, hnames⟩
    · exact .inl ⟨value, hvalue, p, hcontains, hnames⟩
    · exact .inr ⟨entry, hentry, p, hcontains, hnames⟩

/-- The collector of a machine collects from the roots that the machine gives it. -/
theorem collector_collectGarbage (h : m.settings.collects = true) :
    m.collectGarbage.1 = ((m.collector.withRoots m.rootHandles).collect m.allocator).1 ∧
      m.collectGarbage.2.collector =
        ((m.collector.withRoots m.rootHandles).collect m.allocator).2.1 := by
  unfold collectGarbage
  rw [if_neg (by simp [h])]
  dsimp only
  split <;> exact ⟨rfl, rfl⟩

/-- `GC_RUN` pushes the number of objects freed. -/
theorem run_step_gcRun {runner : Runner} {instruction : Instruction}
    (hat : m.program[m.pc]? = some instruction) (hop : instruction.opcode = .gcRun) :
    (step runner).run m =
      (.ok (), { m.collectGarbage.2 with
        pc := m.pc + 1
        stack := .int (Int32.ofNat m.collectGarbage.1) :: m.stack }) := by
  -- The stack that the count is pushed on is the one before the collection.
  obtain ⟨collector, allocator, log, hframe⟩ := m.collectGarbage_frame
  have hrun : (instruction.execute runner m.pc).run m =
      (.ok .next, { m.collectGarbage.2 with
        stack := .int (Int32.ofNat m.collectGarbage.1) :: m.collectGarbage.2.stack }) := by
    simp only [Instruction.execute, hop]
    rfl
  rw [step_next hat hrun, hframe]

/-- There is no collection if it is disabled. -/
theorem collectGarbage_of_disabled (h : m.settings.collects = false) :
    m.collectGarbage = (0, m) := by
  rw [collectGarbage, if_pos (by simp [h])]

/-- A collection keeps the objects that strong pointers name. -/
theorem isLive_collectGarbage_iff (hm : m.Reachable) (hcollects : m.settings.collects = true)
    (handle : Nat) :
    m.collectGarbage.2.isLive (.collected handle) = true ↔
      m.isLive (.collected handle) = true ∧ ∃ p, m.Holds p ∧ p.Names handle := by
  have hr := hm.wellFormed
  rw [← mem_rootHandles, isLive, (collector_collectGarbage hcollects).2]
  exact Collector.contains_collect_withRoots hr.collector hr.references _ _ handle

/-- An object that survives keeps its block. -/
theorem find?_collectGarbage (hcollects : m.settings.collects = true) {handle : Nat}
    (hlive : m.collectGarbage.2.isLive (.collected handle) = true) :
    Entries.find? handle m.collectGarbage.2.collector.heap =
      Entries.find? handle m.collector.heap := by
  obtain ⟨roots, heq, -⟩ := Collector.withRoots_eq m.collector m.rootHandles
  rw [isLive, (collector_collectGarbage hcollects).2] at hlive
  rw [(collector_collectGarbage hcollects).2, Collector.find?_collect hlive, heq]

/-- The objects freed and those left are all objects. -/
theorem count_add_heapSize_collectGarbage (hcollects : m.settings.collects = true) :
    m.collectGarbage.1 + m.collectGarbage.2.collector.heapSize = m.collector.heapSize := by
  obtain ⟨roots, heq, -⟩ := Collector.withRoots_eq m.collector m.rootHandles
  obtain ⟨hcount, hcollector⟩ := collector_collectGarbage hcollects
  rw [hcount, hcollector, Collector.count_add_heapSize_collect, heq]
  rfl

/-- What a strong pointer refers to stays live, whatever it is. -/
theorem isLive_collectGarbage_of_holds (hm : m.Reachable) {p : Pointer} (hholds : m.Holds p)
    (hstrong : p.weak = false) (hlive : m.isLive p.target = true) :
    m.collectGarbage.2.isLive p.target = true := by
  cases hcollects : m.settings.collects with
  | false =>
    rw [collectGarbage_of_disabled hcollects]
    exact hlive
  | true =>
    obtain ⟨collector, allocator, log, hframe⟩ := m.collectGarbage_frame
    cases htarget : p.target with
    | collected handle =>
      rw [htarget] at hlive
      exact (isLive_collectGarbage_iff hm hcollects handle).mpr
        ⟨hlive, p, hholds, hstrong, htarget⟩
    -- The other tables are not touched, so whether the pointer is strong does not matter.
    | null | object | file | address =>
      rw [htarget] at hlive
      rw [hframe]
      exact hlive

/-- A collection frees exactly what no strong pointer names. In every machine that a session leads
to, it keeps an object of the collector, with its block, exactly if a strong pointer to the object
occurs in the operand stack or in a variable at any depth; weak pointers keep nothing, and what
strong pointers refer to stays live. It returns the number of objects freed and changes nothing
but the collector, the allocator and the diagnostics. The instruction does the same and pushes the
count. Where collecting is disabled, nothing happens and the count is zero. -/
theorem collectGarbage_frees_unnamed (hm : m.Reachable) :
    (m.settings.collects = true →
      (∀ handle, m.collectGarbage.2.isLive (.collected handle) = true ↔
        m.isLive (.collected handle) = true ∧ ∃ p, m.Holds p ∧ p.Names handle) ∧
      (∀ handle, m.collectGarbage.2.isLive (.collected handle) = true →
        Entries.find? handle m.collectGarbage.2.collector.heap =
          Entries.find? handle m.collector.heap) ∧
      (∀ handle, (∀ p, m.Holds p → p.target = .collected handle → p.weak = true) →
        m.collectGarbage.2.isLive (.collected handle) = false) ∧
      m.collectGarbage.1 + m.collectGarbage.2.collector.heapSize = m.collector.heapSize) ∧
    (∀ p, m.Holds p → p.weak = false → m.isLive p.target = true →
      m.collectGarbage.2.isLive p.target = true) ∧
    (∃ collector allocator log, m.collectGarbage.2 = { m with collector, allocator, log }) ∧
    (∀ runner instruction, m.program[m.pc]? = some instruction → instruction.opcode = .gcRun →
      (step runner).run m =
        (.ok (), { m.collectGarbage.2 with
          pc := m.pc + 1
          stack := .int (Int32.ofNat m.collectGarbage.1) :: m.stack })) ∧
    (m.settings.collects = false → m.collectGarbage = (0, m)) := by
  refine ⟨fun hcollects => ⟨isLive_collectGarbage_iff hm hcollects,
    fun handle hlive => find?_collectGarbage hcollects hlive, ?_,
    count_add_heapSize_collectGarbage hcollects⟩,
    fun p hholds hstrong hlive => isLive_collectGarbage_of_holds hm hholds hstrong hlive,
    m.collectGarbage_frame, fun runner instruction hat hop => run_step_gcRun hat hop,
    collectGarbage_of_disabled⟩
  -- An object that is kept is named by a strong pointer, so not all pointers to it are weak.
  intro handle hweak
  rw [Bool.eq_false_iff]
  intro hlive
  obtain ⟨-, p, hholds, hstrong, htarget⟩ :=
    (isLive_collectGarbage_iff hm hcollects handle).mp hlive
  rw [hweak p hholds htarget] at hstrong
  cases hstrong

/-- A machine that has made three objects: one is held in a list in a variable, one in a variable
by a weak pointer, one on the stack. -/
def threeObjects : Machine :=
  Machine.after
    { program :=
        [{ opcode := .gcNew, operands := [], line := 1 },
          { opcode := .call, operands := ["list", "1"], line := 2 },
          { opcode := .store, operands := ["kept"], line := 3 },
          { opcode := .gcNew, operands := ["weak"], line := 4 },
          { opcode := .store, operands := ["watched"], line := 5 },
          { opcode := .gcNew, operands := [], line := 6 }] }
    [.execute 10]

/-- Of the objects in variables, the one in the list stays and the one that is only watched goes. -/
theorem collectGarbage_frees_unnamed_threeObjects :
    threeObjects.Reachable ∧ threeObjects.settings.collects = true ∧
      threeObjects.isLive (.collected 1) = true ∧ threeObjects.isLive (.collected 2) = true ∧
      threeObjects.collectGarbage.2.isLive (.collected 1) = true ∧
      threeObjects.collectGarbage.2.isLive (.collected 2) = false := by
  have hm : threeObjects.Reachable := by
    refine ⟨_, _, ?_, rfl⟩
    rfl
  have hcollects : threeObjects.settings.collects = true := by decide +kernel
  have hfirst : threeObjects.isLive (.collected 1) = true := by decide +kernel
  obtain ⟨hkept, -, hweak, -⟩ := (collectGarbage_frees_unnamed hm).1 hcollects
  -- The roots of a collection can be computed.
  have hnamed : 1 ∈ threeObjects.rootHandles := by decide +kernel
  have hunnamed : 2 ∉ threeObjects.rootHandles := by decide +kernel
  refine ⟨hm, hcollects, hfirst, by decide +kernel,
    (hkept 1).mpr ⟨hfirst, mem_rootHandles.mp hnamed⟩, hweak 2 fun p hholds htarget => ?_⟩
  by_contra hstrong
  exact hunnamed (mem_rootHandles.mpr ⟨p, hholds, Bool.eq_false_of_not_eq_true hstrong, htarget⟩)

end Machine

end StackMachine
