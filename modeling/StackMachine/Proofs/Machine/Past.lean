import StackMachine.Proofs.Debug.View
import StackMachine.Proofs.Session.Lifetime

/-!
# Programs do not see the past

A reset leaves some things of a machine as they are: the state of its allocator, the numbers that
its tables hand out next, the counters of the collector, and what the overlay is asked to do. This
is the past of a machine that holds nothing. An instruction that acquires nothing does the same
whatever the past is, and nothing is held after it.

## Main definitions

* `Resources.IsEmpty`: nothing is held.
* `Machine.withoutPast`: the machine with the past of one that was never used.
* `Alike`: two ends of a run with the same result, on machines that hold nothing and differ at most
  in their past.
* `Coupling.oblivious`: the machines hold nothing and differ at most in their past.

## Main results

* `Coupling.suits_oblivious`: the instructions that acquire nothing do not see the past.
* `Machine.alike_step`: nor does a step of a program made of them.
-/

namespace StackMachine

/-! ### Holding nothing -/

namespace Resources

/-- Nothing is held. -/
structure IsEmpty (r : Resources) : Prop where
  /-- The collector has no objects. -/
  heap : r.collector.heap = []
  /-- There are no managed objects. -/
  objects : r.objects.entries = []
  /-- There are no raw blocks. -/
  blocks : r.blocks.entries = []
  /-- No file is open. -/
  files : r.files.entries = []

variable {r : Resources}

theorem isEmpty_clear (r : Resources) : r.clear.IsEmpty := ⟨rfl, rfl, rfl, rfl⟩

theorem isEmpty_unused (allocator : Allocator) : (unused allocator).IsEmpty := ⟨rfl, rfl, rfl, rfl⟩

/-- Where nothing is held, no pointer leads anywhere. -/
theorem IsEmpty.isLive_eq_false (h : r.IsEmpty) (target : Target) : r.isLive target = false := by
  cases target with
  | null => rfl
  | object id => simp [isLive, Numbered.has, Entries.has, h.objects]
  | collected handle => simp [isLive, Collector.contains, Entries.has, h.heap]
  | file id => simp [isLive, Numbered.has, Entries.has, h.files]
  | address location => simp [isLive, Numbered.has, Entries.has, h.blocks]

end Resources

namespace Machine

variable {m : Machine}

/-- Nothing is live where nothing is held. -/
theorem isLive_of_isEmpty (h : m.resources.IsEmpty) (target : Target) :
    m.isLive target = false := by
  have hresources := h.isLive_eq_false target
  cases target <;> exact hresources

/-- What a collection reports that has nothing to collect. -/
def logIdleCollection (m : Machine) : Machine :=
  if m.settings.collects && m.settings.reportCollections then
    m.logLine "[GC] collected: 0, live: 0, heap: 0"
  else m

/-- The machine with the past of one that was never used. -/
def withoutPast (m : Machine) : Machine :=
  { m.withResources (.unused (.pooled (Pool.fresh Pool.defaultBlocks))) with
    overlay := ({} : Overlay).during m }

/-- What a collection notes in the log where nothing is held does not depend on the past. -/
theorem logIdleCollection_withoutPast (m : Machine) :
    m.withoutPast.logIdleCollection.withoutPast = m.logIdleCollection.withoutPast := by
  rw [logIdleCollection, logIdleCollection]
  rw [show m.withoutPast.settings = m.settings from rfl]
  split <;> rfl

/-- A machine without a past holds nothing. -/
theorem isEmpty_withoutPast (m : Machine) : m.withoutPast.resources.IsEmpty :=
  Resources.isEmpty_unused _

/-- Collecting where nothing is held changes nothing but the past and the diagnostics. -/
theorem collectGarbage_of_isEmpty (h : m.resources.IsEmpty) :
    m.collectGarbage.1 = 0 ∧ m.collectGarbage.2.resources.IsEmpty ∧
      m.collectGarbage.2.withoutPast = m.logIdleCollection.withoutPast := by
  have hheap : (m.collector.withRoots m.rootHandles).heap = [] := by
    obtain ⟨roots, heq, -⟩ := Collector.withRoots_eq m.collector m.rootHandles
    rw [heq]
    exact h.heap
  have hcollect : ((m.collector.withRoots m.rootHandles).collect m.allocator).1 = 0 ∧
      ((m.collector.withRoots m.rootHandles).collect m.allocator).2.1.heap = [] := by
    simp [Collector.collect, Collector.blocksOf, Collector.discard, hheap]
  rw [collectGarbage, logIdleCollection]
  cases hcollects : m.settings.collects with
  | false => exact ⟨rfl, h, rfl⟩
  | true =>
    obtain ⟨hcount, hafter⟩ := hcollect
    have hsize : Collector.heapSize _ = 0 := congrArg List.length hafter
    have hrooted : Collector.heapSize _ = 0 := congrArg List.length hheap
    rw [Collector.withRoots] at hcount hafter hsize hrooted
    simp only [Bool.not_true, Bool.false_eq_true, if_false, Bool.true_and]
    refine ⟨hcount, ?_, ?_⟩
    · split <;> exact { h with heap := hafter }
    · rw [hcount, hsize, hrooted]
      split <;> rfl

end Machine

/-! ### Runs that end alike -/

/-- Two ends of a run with the same result, on machines that hold nothing and differ at most in
their past. -/
structure Alike {ρ : Type} (first second : ρ × Machine) : Prop where
  /-- The results are the same. -/
  result : first.1 = second.1
  /-- So are the machines, up to their past. -/
  machine : first.2.withoutPast = second.2.withoutPast
  /-- The first machine holds nothing. -/
  first_isEmpty : first.2.resources.IsEmpty
  /-- Nor does the second one. -/
  second_isEmpty : second.2.resources.IsEmpty

namespace Alike

variable {ρ : Type} {first second third : ρ × Machine}

theorem symm (h : Alike first second) : Alike second first :=
  ⟨h.result.symm, h.machine.symm, h.second_isEmpty, h.first_isEmpty⟩

theorem trans (h : Alike first second) (h' : Alike second third) : Alike first third :=
  ⟨h.result.trans h'.result, h.machine.trans h'.machine, h.first_isEmpty, h'.second_isEmpty⟩

/-- The results may be replaced by a common one. -/
theorem map {σ : Type} (h : Alike first second) (result : σ) :
    Alike (result, first.2) (result, second.2) :=
  ⟨rfl, h.machine, h.first_isEmpty, h.second_isEmpty⟩

/-- A machine that holds nothing is like itself without its past. -/
theorem withoutPast {m : Machine} (result : ρ) (h : m.resources.IsEmpty) :
    Alike (result, m) (result, m.withoutPast) :=
  ⟨rfl, rfl, h, m.isEmpty_withoutPast⟩

/-- What does not depend on the past is the same on machines that are alike. -/
theorem observe {γ : Type} (h : Alike first second) (f : Machine → γ)
    (hf : ∀ m : Machine, f m.withoutPast = f m) : f first.2 = f second.2 := by
  rw [← hf first.2, h.machine, hf]

/-- What ends alike with and without the past of a machine ends alike whatever the past is. -/
theorem of_withoutPast {f : Machine → ρ × Machine} {m n : Machine} (h : Alike ((), m) ((), n))
    (hf : ∀ machine : Machine, machine.program = m.program → machine.resources.IsEmpty →
      Alike (f machine) (f machine.withoutPast)) : Alike (f m) (f n) := by
  have hprogram : m.program = n.program := h.observe Machine.program fun _ => rfl
  have hfirst := hf m rfl h.first_isEmpty
  have hsecond := hf n hprogram.symm h.second_isEmpty
  rw [show m.withoutPast = n.withoutPast from h.machine] at hfirst
  exact hfirst.trans hsecond.symm

end Alike

namespace Alike

variable {m n : Machine}

/-- A change that has nothing to do with what is held. -/
theorem update (h : Alike ((), m) ((), n)) {f : Machine → Machine}
    (hresources : ∀ m : Machine, (f m).resources = m.resources)
    (hf : ∀ m : Machine, (f m.withoutPast).withoutPast = (f m).withoutPast) :
    Alike ((), f m) ((), f n) where
  result := rfl
  machine := h.observe (fun m => (f m).withoutPast) hf
  first_isEmpty := (hresources m).symm ▸ h.first_isEmpty
  second_isEmpty := (hresources n).symm ▸ h.second_isEmpty

end Alike

/-! ### Where nothing is held -/

namespace Machine

variable {m : Machine}

/-- No file is open, so there is none to be closed. -/
theorem close_of_isEmpty (h : m.resources.IsEmpty) (id : Int) :
    m.files.close id = (false, m.files) := by
  have hfiles : m.files = { entries := [], next := m.files.next } :=
    congrArg (fun entries => ({ entries, next := m.files.next } : FileTable)) h.files
  rw [hfiles]
  rfl

/-- Nor is there one to be read. -/
theorem read_of_isEmpty (h : m.resources.IsEmpty) (id : Int) :
    m.files.read m.folder id = none := by
  have hget : m.files.get? id = none := Numbered.get?_eq_none (isLive_of_isEmpty h (.file id))
  rw [FileTable.read, hget]

/-- Every pointer is dead, whatever it once led to. -/
theorem dereference_of_isEmpty {n : Machine} (hm : m.resources.IsEmpty) (hn : n.resources.IsEmpty)
    (p : Pointer) (line : Nat) :
    Instruction.dereference n p line = Instruction.dereference m p line := by
  have hdead := isLive_of_isEmpty hm p.target
  have hdead' := isLive_of_isEmpty hn p.target
  simp only [Instruction.dereference, hdead, hdead', Bool.not_false, if_true]

end Machine

/-! ### Steps that do not see the past -/

namespace Coupling

/-- The machines hold nothing and differ at most in their past. -/
def oblivious : Coupling where
  rel _ m n := Alike ((), m) ((), n)
  allowed _ := True
  pointer _ := True
  lax := False

variable {m n : Machine}

/-- The basic changes do not see the past. There is nothing to be freed, closed or read, and a
machine that is started has no part in the past of the one that starts it. -/
theorem laws_oblivious (runner : Runner) (line : Nat) : oblivious.Laws runner runner line where
  weaken _ h := h
  pointers := Pointer.closed_true
  fault _ := trivial
  unlocated _ := trivial
  push {_ m n value} h _ :=
    h.update (f := fun m => { m with stack := value :: m.stack }) (fun _ => rfl) fun _ => rfl
  pop {_ m n} h := by
    have hsame : m.stack = n.stack := h.observe Machine.stack fun _ => rfl
    cases hstack : m.stack with
    | nil => exact .inl ⟨rfl, hsame ▸ hstack⟩
    | cons value stack =>
      refine .inr ⟨value, stack, stack, rfl, hsame ▸ hstack, value.all_true, ?_⟩
      exact h.update (f := fun m => { m with stack }) (fun _ => rfl) fun _ => rfl
  height {m n} h := by rw [show m.stack = n.stack from h.observe Machine.stack fun _ => rfl]
  bindings h := ⟨(h.observe Machine.bindings fun _ => rfl).symm, fun entry _ => entry.2.all_true⟩
  store {_ m n name value} h _ :=
    h.update (f := fun m => { m with bindings := Entries.insert name value m.bindings })
      (fun _ => rfl) fun _ => rfl
  log {_ m n text} h := h.update (f := fun m => m.logLine text) (fun _ => rfl) fun _ => rfl
  write {_ m n} texts h := by
    refine ⟨(h.observe (fun m => (m.output.putEach texts).1) fun _ => rfl).symm, ?_⟩
    exact h.update (f := fun m => { m with output := (m.output.putEach texts).2 })
      (fun _ => rfl) fun _ => rfl
  input h := by
    refine ⟨(h.observe Machine.input fun _ => rfl).symm,
      (h.observe Machine.standardInput fun _ => rfl).symm, fun input standardInput => ?_⟩
    exact h.update (f := fun m => { m with input, standardInput }) (fun _ => rfl) fun _ => rfl
  -- Whatever a pointer names is not there on either side.
  release {_ m n target} h := by
    have hm := Machine.isLive_of_isEmpty h.first_isEmpty target
    have hn := Machine.isLive_of_isEmpty h.second_isEmpty target
    rw [Effect.run_release_of_dead hm, Effect.run_release_of_dead hn]
    exact h
  isLive {_ m n target} h := by
    rw [Machine.isLive_of_isEmpty h.first_isEmpty, Machine.isLive_of_isEmpty h.second_isEmpty]
  dereference h := Machine.dereference_of_isEmpty h.first_isEmpty h.second_isEmpty _ line
  close id h := by
    rw [Machine.close_of_isEmpty h.first_isEmpty, Machine.close_of_isEmpty h.second_isEmpty]
    exact ⟨rfl, h⟩
  read id h := by
    rw [Machine.read_of_isEmpty h.first_isEmpty, Machine.read_of_isEmpty h.second_isEmpty]
    exact .none
  depth h := (h.observe Machine.depth fun _ => rfl).symm
  nested path h _ := by
    refine sameNested_of_child_eq (h.observe Machine.child fun _ => rfl).symm (fun inner => ?_)
      trivial path
    exact h.update (f := fun m => m.adopt inner) (fun _ => rfl) fun _ => rfl

/-- Nor do the changes of where the machine is. -/
theorem positionLaws_oblivious : oblivious.PositionLaws where
  program h := (h.observe Machine.program fun _ => rfl).symm
  loops h := (h.observe Machine.loops fun _ => rfl).symm
  functions h := (h.observe Machine.functions fun _ => rfl).symm
  setLoops {_ _ _ loops} h :=
    h.update (f := fun m => { m with loops }) (fun _ => rfl) fun _ => rfl
  define {_ _ _ name pc} h := h.update (f := fun m => { m with
    functions := Entries.insert name pc m.functions, scopes := m.scopes + 1 })
    (fun _ => rfl) fun _ => rfl
  enter {_ _ _ name} h := h.update (f := fun m => { m with
    scopes := m.scopes + 1, overlay := m.overlay.enterCall name }) (fun _ => rfl) fun _ => rfl
  leave h := h.update (f := fun m => { m with
    scopes := if 1 < m.scopes then m.scopes - 1 else m.scopes
    overlay := m.overlay.exitCall }) (fun _ => rfl) fun _ => rfl
  position h := (h.observe Machine.pc fun _ => rfl).symm
  move {_ _ pc} h := h.update (f := fun m => { m with pc }) (fun _ => rfl) fun _ => rfl
  halt h := h.update (f := fun m => { m with running := false }) (fun _ => rfl) fun _ => rfl
  line _ := trivial

/-- There is nothing to be collected. -/
theorem collectionLaws_oblivious : oblivious.CollectionLaws := by
  intro _ m n h
  obtain ⟨hcount, hempty, hafter⟩ := Machine.collectGarbage_of_isEmpty h.first_isEmpty
  obtain ⟨hcount', hempty', hafter'⟩ := Machine.collectGarbage_of_isEmpty h.second_isEmpty
  have hlogged := h.observe (fun m => m.logIdleCollection.withoutPast)
    Machine.logIdleCollection_withoutPast
  exact ⟨hcount'.trans hcount.symm, rfl, hafter.trans (hlogged.trans hafter'.symm), hempty,
    hempty'⟩

/-- The instructions that acquire nothing do not see the past. -/
theorem suits_oblivious (runner : Runner) {instruction : Instruction}
    (h : instruction.acquires = false) : oblivious.Suits runner runner instruction where
  laws := laws_oblivious runner _
  literal value _ := value.all_true
  control _ := positionLaws_oblivious.toControlLaws
  acquisition hacquires := by simp [h] at hacquires
  collection _ := collectionLaws_oblivious

end Coupling

namespace Machine

/-- No instruction of the program asks for memory or opens a file. -/
def AcquiresNothing (m : Machine) : Prop :=
  ∀ instruction ∈ m.program, instruction.acquires = false

/-- A step of a program that acquires nothing leads from machines that are alike to machines that
are alike. -/
theorem alike_step (runner : Runner) {m n : Machine} (hprogram : m.AcquiresNothing)
    (h : Alike ((), m) ((), n)) : Alike ((step runner).run m) ((step runner).run n) := by
  have hrel : Coupling.oblivious.rel 2 m n := h
  have hends := Coupling.positionLaws_oblivious.ends_step hrel id fun instruction hat =>
    ⟨Coupling.suits_oblivious runner (hprogram instruction (List.mem_of_getElem? hat)),
      instruction.reach_le_two⟩
  have hafter : Alike ((), ((step runner).run m).2) ((), ((step runner).run n).2) := hends.rel id
  exact ⟨hends.result_eq id, hafter.machine, hafter.first_isEmpty, hafter.second_isEmpty⟩

end Machine

end StackMachine
