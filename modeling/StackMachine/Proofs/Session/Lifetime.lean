import StackMachine.Proofs.Machine.Step
import StackMachine.Proofs.Session.Basic

/-!
# Dead pointers stay dead

The tables of a machine never hand out a number twice, also not after a reset. So a target that was
live and is no longer live stays dead for the rest of the session, and nothing that a program can
do with a pointer to it has an effect.

## Main definitions

* `Machine.Dead`: a target is not live, and every use of a pointer to it says so.

## Main results

* `Resources.Changes.dead`: what is dead among the used numbers stays dead.
* `Machine.dead_of_not_live`: what the uses of a pointer to a dead target do.
* `Machine.dead_forever`: what has died is dead in every later state of the session.
-/

namespace StackMachine

namespace Resources

variable {limit : Option Nat} {r after : Resources} {target : Target}

/-- Only numbers that were handed out are live. -/
theorem WellFormed.isUsed_of_isLive (h : r.WellFormed) (hlive : r.isLive target = true) :
    r.IsUsed target := by
  cases target with
  | null => cases hlive
  | object id => exact h.objects.number_lt id (Numbered.has_iff.mp hlive)
  | collected handle => exact h.collector.handle_lt handle (Collector.contains_iff.mp hlive)
  | file id => exact h.files.number_lt id (Numbered.has_iff.mp hlive)
  | address location => exact h.blocks.number_lt location (Numbered.has_iff.mp hlive)

/-- A used target stays used. -/
theorem Succeeds.isUsed (h : r.Succeeds after) (hused : r.IsUsed target) :
    after.IsUsed target := by
  cases target with
  | null => exact hused
  | object id => exact lt_of_lt_of_le hused h.objects.next_le
  | collected handle => exact lt_of_lt_of_le hused h.collector.next_le
  | file id => exact lt_of_lt_of_le hused h.files.next_le
  | address location => exact lt_of_lt_of_le hused h.blocks.next_le

/-- What is live among the used numbers was live before. -/
theorem Succeeds.isLive_of_isLive (h : r.Succeeds after) (hused : r.IsUsed target)
    (hlive : after.isLive target = true) : r.isLive target = true := by
  cases target with
  | null => exact hlive
  | object id => exact h.objects.has_of_has id hused hlive
  | collected handle => exact h.collector.contains_of_contains handle hused hlive
  | file id => exact h.files.has_of_has id hused hlive
  | address location => exact h.blocks.has_of_has location hused hlive

theorem Changes.isUsed (hchanges : Changes limit r after) (hused : r.IsUsed target) :
    after.IsUsed target := by
  induction hchanges with
  | refl => exact hused
  | tail _ hchange ih => exact hchange.succeeds.isUsed ih

/-- What is dead among the used numbers stays dead. -/
theorem Changes.dead (hchanges : Changes limit r after) (hused : r.IsUsed target)
    (hdead : r.isLive target = false) : after.isLive target = false := by
  induction hchanges with
  | refl => exact hdead
  | tail hbefore hchange ih =>
    -- The number is still used, so the change does not bring it back.
    have husedBefore := Changes.isUsed hbefore hused
    rw [Bool.eq_false_iff] at ih ⊢
    exact fun hlive => ih (hchange.succeeds.isLive_of_isLive husedBefore hlive)

/-- Nothing is freed where nothing is live. -/
theorem free_eq_self (h : r.isLive target = false) : r.free target = r := by
  cases target with
  | null => rfl
  | file id => rfl
  | object id => simp only [free, ObjectTable.free, Numbered.get?_eq_none h]
  | collected handle =>
    have hcontains : r.collector.contains handle = false := h
    simp only [free, Collector.deallocate, hcontains, Bool.false_eq_true, if_false]
  | address location => simp only [free, BlockTable.free, Numbered.get?_eq_none h]

end Resources

namespace Effect

/-- Releasing what is not there changes nothing. -/
theorem run_release_of_dead {m : Machine} {target : Target} (h : m.isLive target = false) :
    (release target).run m = (.ok (), m) := by
  have hfree : m.resources.free target = m.resources :=
    Resources.free_eq_self (by cases target <;> exact h)
  rw [run_release, hfree]
  rfl

end Effect

namespace Machine

open Effect

variable {m : Machine} {target : Target}

/-- A target that is not live, as everything that uses a pointer to it finds it. -/
structure Dead (m : Machine) (target : Target) : Prop where
  /-- It is not live. -/
  not_live : m.isLive target = false
  /-- The instruction that reads through a pointer fails, as it does with a dangling one. -/
  ptrDeref : ∀ runner instruction p stack, m.program[m.pc]? = some instruction →
    instruction.opcode = .ptrDeref → m.stack = .pointer p :: stack → p.target = target →
    (step runner).run m =
      (.error (.fault (instruction.fault .danglingDereference)), { m with stack })
  /-- The built-in function that reads through a pointer finds nothing. -/
  deref : ∀ runner p rest, p.target = target →
    (Builtin.deref.call runner (.pointer p :: rest)).run m = (.ok (.str "null"), m)
  /-- The built-in function that frees changes nothing. -/
  del : ∀ runner p rest, p.target = target →
    (Builtin.del.call runner (.pointer p :: rest)).run m = (.ok (.int 0), m)
  /-- The instruction that frees an object of the collector takes the pointer off the stack. -/
  gcDelete : ∀ runner instruction p stack, m.program[m.pc]? = some instruction →
    instruction.opcode = .gcDelete → m.stack = .pointer p :: stack → p.target = target →
    (step runner).run m = (.ok (), { m with stack, pc := m.pc + 1 })
  /-- The instruction that frees a raw block takes the address off the stack. -/
  memFree : ∀ runner instruction value stack, m.program[m.pc]? = some instruction →
    instruction.opcode = .memFree → m.stack = value :: stack →
    target = .address value.toInt64.toInt →
    (step runner).run m = (.ok (), { m with stack, pc := m.pc + 1 })
  /-- The built-in function that closes a file adds a line to the diagnostics. -/
  close : ∀ runner p rest, p.target = target →
    ∃ text, (Builtin.close.call runner (.pointer p :: rest)).run m =
      (.ok (.int (-1)), m.logLine text)

/-- A pointer to what is not there is dangling. -/
theorem dereference_of_dead {p : Pointer} (htarget : p.target ≠ .null)
    (h : m.isLive p.target = false) (line : Nat) :
    Instruction.dereference m p line = .error (.onLine .danglingDereference line) := by
  have hnull : p.isNull = false := decide_eq_false htarget
  rw [Instruction.dereference, hnull, h]
  rfl

/-- The operand stack does not matter to what is live. -/
theorem isLive_withStack (stack : List Value) :
    ({ m with stack } : Machine).isLive target = m.isLive target := by
  cases target <;> rfl

/-- `PTR_DEREF` fails on a dangling pointer. -/
theorem run_step_ptrDeref_of_dead {runner : Runner} {instruction : Instruction} {p : Pointer}
    {stack : List Value} (htarget : p.target ≠ .null) (h : m.isLive p.target = false)
    (hat : m.program[m.pc]? = some instruction) (hop : instruction.opcode = .ptrDeref)
    (hstack : m.stack = .pointer p :: stack) :
    (step runner).run m =
      (.error (.fault (instruction.fault .danglingDereference)), { m with stack }) := by
  have hlive : ({ m with stack } : Machine).isLive p.target = false :=
    (isLive_withStack stack).trans h
  refine step_fault hat ?_
  simp only [Instruction.execute, hop]
  rw [run_bind_of_ok (run_popOr_cons _ hstack)]
  dsimp only
  rw [run_get_bind, dereference_of_dead htarget hlive]
  rfl

/-- `GC_DELETE` does nothing to what is not there. -/
theorem run_step_gcDelete_of_dead {runner : Runner} {instruction : Instruction} {p : Pointer}
    {stack : List Value} (h : m.isLive p.target = false)
    (hat : m.program[m.pc]? = some instruction) (hop : instruction.opcode = .gcDelete)
    (hstack : m.stack = .pointer p :: stack) :
    (step runner).run m = (.ok (), { m with stack, pc := m.pc + 1 }) := by
  have hlive := (isLive_withStack stack).trans h
  have hrun : (instruction.execute runner m.pc).run m = (.ok .next, { m with stack }) := by
    simp only [Instruction.execute, hop]
    rw [run_bind_of_ok (run_pop?_cons hstack)]
    obtain ⟨target, tag, weak, reference⟩ := p
    -- Pointers to anything else are only taken off the stack.
    cases target with
    | collected handle => exact run_bind_of_ok (run_release_of_dead hlive)
    | null | object | file | address => rfl
  exact step_next hat hrun

theorem run_step_memFree_of_dead {runner : Runner} {instruction : Instruction} {value : Value}
    {stack : List Value} (h : m.isLive (.address value.toInt64.toInt) = false)
    (hat : m.program[m.pc]? = some instruction) (hop : instruction.opcode = .memFree)
    (hstack : m.stack = value :: stack) :
    (step runner).run m = (.ok (), { m with stack, pc := m.pc + 1 }) := by
  have hlive := (isLive_withStack stack).trans h
  have hrun : (instruction.execute runner m.pc).run m = (.ok .next, { m with stack }) := by
    simp only [Instruction.execute, hop]
    rw [run_bind_of_ok (run_pop?_cons hstack)]
    exact run_bind_of_ok (run_release_of_dead hlive)
  exact step_next hat hrun

/-- The built-in function gives the text of null for a dangling pointer. -/
theorem run_deref_of_dead {runner : Runner} {p : Pointer} {rest : List Value}
    (h : m.isLive p.target = false) :
    (Builtin.deref.call runner (.pointer p :: rest)).run m = (.ok (.str "null"), m) := by
  change ((get : Effect Machine) >>= _).run m = _
  rw [run_get_bind, h]
  rfl

/-- Closing a file that is not open is noted in the log. -/
theorem run_close_of_dead {runner : Runner} {p : Pointer} {rest : List Value}
    (h : m.isLive p.target = false) :
    ∃ text, (Builtin.close.call runner (.pointer p :: rest)).run m =
      (.ok (.int (-1)), m.logLine text) := by
  obtain ⟨target, tag, weak, reference⟩ := p
  cases target with
  | file id =>
    -- Closing removes the number from the open files, where it is not.
    refine ⟨"Error: Invalid file handle", ?_⟩
    have hhas : Numbered.has m.files id = false := h
    have hclose : m.files.close id = (false, m.files) := by
      rw [FileTable.close, hhas, Numbered.remove_eq_self hhas]
    change (Builtin.closeFile (some id)).run m = _
    rw [Builtin.closeFile, run_get_bind]
    dsimp only
    rw [hclose]
    rfl
  | null | object | collected | address => exact ⟨"Error: Cannot close null file handle", rfl⟩

/-- Whatever a program does with a pointer to a target that is not live says so and has no
effect. -/
theorem dead_of_not_live (htarget : target ≠ .null) (h : m.isLive target = false) :
    m.Dead target where
  not_live := h
  ptrDeref := by
    rintro runner instruction p stack hat hop hstack rfl
    exact run_step_ptrDeref_of_dead htarget h hat hop hstack
  deref := by
    rintro runner p rest rfl
    exact run_deref_of_dead h
  del := by
    rintro runner p rest rfl
    exact run_bind_of_ok (run_release_of_dead h)
  gcDelete := by
    rintro runner instruction p stack hat hop hstack rfl
    exact run_step_gcDelete_of_dead h hat hop hstack
  memFree := by
    rintro runner instruction value stack hat hop hstack rfl
    exact run_step_memFree_of_dead h hat hop hstack
  close := by
    rintro runner p rest rfl
    exact run_close_of_dead h

/-- A dead pointer stays dead. If a target is live at some moment of a session and no longer live
at a later one, it is dead at every moment after that: reading through a pointer to it fails or
finds nothing, and freeing or closing it again changes nothing. -/
theorem dead_forever (hm : m.Reachable) (between later : List Operation)
    (hlive : m.isLive target = true) (hdead : (m.after between).isLive target = false) :
    (m.after (between ++ later)).Dead target := by
  have htarget : target ≠ .null := by
    rintro rfl
    cases hlive
  -- The number was handed out when the target was live, and stays so while it dies.
  have hused : m.resources.IsUsed target := hm.wellFormed.isUsed_of_isLive hlive
  have husedBetween : (m.after between).resources.IsUsed target :=
    (m.evolves_after between).changes.isUsed hused
  refine dead_of_not_live htarget ?_
  rw [after_append]
  exact ((m.after between).evolves_after later).changes.dead husedBetween hdead

/-- The first object, freed, is not the one created after a reset. -/
theorem dead_forever_firstObject :
    let create : Operation := .callBuiltin 0 "new" [.str "int"]
    let free : Operation := .callBuiltin 0 "del" [.pointer { target := .object 1, tag := "int" }]
    let m := Machine.after {} [create]
    m.Reachable ∧ m.isLive (.object 1) = true ∧ (m.after [free]).isLive (.object 1) = false ∧
      (m.after [free, .reset, create]).Dead (.object 1) := by
  intro create free m
  have hm : m.Reachable := ⟨{}, [create], rfl, rfl⟩
  have hlive : m.isLive (.object 1) = true := by decide +kernel
  have hdead : (m.after [free]).isLive (.object 1) = false := by decide +kernel
  exact ⟨hm, hlive, hdead, dead_forever hm [free] [.reset, create] hlive hdead⟩

end Machine

end StackMachine
