import StackMachine.Proofs.Debug.Session
import StackMachine.Proofs.Machine.Control

/-!
# How calls to run to the next pause end

A call passes instructions up to one at which the overlay pauses, one that fails, or the end of the
program. Whatever the output stream refuses, a call that fails has halted the machine, with one
exception: if the line that announces a pause is refused, the call fails and the machine is still
running. The next call then looks at the same instruction again.

## Main definitions

* `Machine.Passes`: instructions are executed at which the overlay does not pause.
* `Machine.EndsAt`: the ways in which a call ends.
* `Machine.HasHalted`: the machine has halted and executes nothing more.
* `Machine.NoticeRefused`: a call has come to a pause and could not announce it.

## Main results

* `Machine.exists_endsAt_of_debugSteps`: every call that ends does so in one of these ways.
* `Machine.hasHalted_execute`: a run to the end of the program halts the machine.
* `Machine.failed_call_halts_iff`: a call that fails halts the machine, unless a pause could not be
  announced.
-/

namespace StackMachine

/-- A line is written, or refused; nothing else changes. -/
theorem Effect.run_writeLine_cases (text : String) (m : Machine) :
    (∃ sink, m.output.putLine text = (.ok (), sink) ∧
      (writeLine text).run m = (.ok (), { m with output := sink })) ∨
    ∃ reason sink, m.output.putLine text = (.error reason, sink) ∧
      (writeLine text).run m =
        (.error (.fault (.onLine (.outputRefused reason) 0)), { m with output := sink }) := by
  rw [writeLine, output, run_get_bind]
  rcases m.output.putLine text with ⟨reason | _, sink⟩
  · exact .inr ⟨reason, sink, rfl, rfl⟩
  · exact .inl ⟨sink, rfl, rfl⟩

namespace Machine

variable {runner : Runner} {m next last after : Machine} {steps : Nat} {fault : Fault}

/-! ### The ways in which a call ends -/

/-- The text that announces a pause. -/
def notice (m : Machine) : String := "DEBUGGER PAUSED at PC: " ++ toString m.pc

/-- Instructions lead from one machine to another, and the overlay does not pause at any of
them. -/
inductive Passes (runner : Runner) : Machine → Machine → Prop
  | refl (m : Machine) : Passes runner m m
  | step {m next last : Machine} :
      m.canStep = true → m.look.1 = false →
      (Machine.step runner).run { m with resumePc := none } = (.ok (), next) →
      Passes runner next last → Passes runner m last

/-- How a call ends at a machine, with the result of the call. -/
inductive EndsAt (runner : Runner) (m : Machine) : Outcome DebugEvent × Machine → Prop
  /-- The overlay pauses, and the pause is announced. -/
  | paused {checked : Overlay} {sink : Sink} :
      m.canStep = true → m.look = (true, checked) → m.output.putLine m.notice = (.ok (), sink) →
      EndsAt runner m
        (.done (.paused m.pc m.currentLine),
          { m with overlay := checked.clearPending, resumePc := some m.pc, output := sink })
  /-- The overlay pauses, but the stream refuses the announcement. -/
  | refused {checked : Overlay} {sink : Sink} {reason : String} :
      m.canStep = true → m.look = (true, checked) →
      m.output.putLine m.notice = (.error reason, sink) →
      EndsAt runner m
        (.failed (.onLine (.outputRefused reason) 0), { m with overlay := checked, output := sink })
  /-- The next instruction fails. -/
  | fault {fault : Fault} {after : Machine} :
      m.canStep = true → m.look.1 = false →
      (Machine.step runner).run { m with resumePc := none } = (.error (.fault fault), after) →
      EndsAt runner m (.failed fault, after.fail fault)
  /-- Nothing is left to execute. -/
  | complete : m.canStep = false → EndsAt runner m (m.complete.1.ended, m.complete.2)

/-- A look that does not pause leaves the overlay as it is. -/
theorem look_of_not (h : m.look.1 = false) : m.look = (false, m.overlay) := by
  unfold look at h ⊢
  split at h
  next hresumed => rw [if_pos hresumed]
  next hresumed =>
    rw [if_neg hresumed]
    exact Overlay.checkPause_of_not h

/-- A look that does not pause changes nothing in the overlay. -/
theorem look_passed {pauses : Bool} {overlay : Overlay} (hlook : m.look = (pauses, overlay))
    (hpauses : ¬ pauses = true) : m.look.1 = false ∧ overlay = m.overlay := by
  have hfalse : m.look.1 = false := by
    rw [hlook]
    simpa using hpauses
  exact ⟨hfalse, (Prod.mk.inj (hlook.symm.trans (look_of_not hfalse))).2⟩

/-- A call ends where there is nothing more to do. -/
theorem EndsAt.of_complete {outcome : Outcome Unit} (hcan : ¬ m.canStep = true)
    (h : m.complete = (outcome, after)) : EndsAt runner m (outcome.ended, after) := by
  have hends : EndsAt runner m (m.complete.1.ended, m.complete.2) :=
    .complete (by simpa using hcan)
  rwa [h] at hends

/-- A call that ends passes instructions and then ends in one of the ways listed. -/
theorem exists_endsAt_of_debugSteps (h : (debugSteps runner steps m).1 ≠ .unfinished) :
    ∃ last, Passes runner m last ∧ EndsAt runner last (debugSteps runner steps m) := by
  fun_induction debugSteps runner steps m with
  -- A pause is announced, or the announcement is refused.
  | case1 steps m hcan line overlay checked paused hline hlook =>
    refine ⟨m, .refl m, ?_⟩
    rcases Effect.run_writeLine_cases m.notice checked with ⟨sink, hput, hrun⟩ | ⟨_, _, -, hrun⟩
    · obtain ⟨-, rfl⟩ := Prod.mk.inj (hline.symm.trans hrun)
      exact .paused hcan hlook hput
    · cases hline.symm.trans hrun
  | case2 => exact absurd rfl h
  | case3 steps m hcan line overlay checked fault paused hline hlook =>
    refine ⟨m, .refl m, ?_⟩
    rcases Effect.run_writeLine_cases m.notice checked with
      ⟨_, -, hrun⟩ | ⟨reason, sink, hput, hrun⟩
    · cases hline.symm.trans hrun
    · obtain ⟨hfault, rfl⟩ := Prod.mk.inj (hline.symm.trans hrun)
      cases hfault
      exact .refused hcan hlook hput
  | case4 => exact absurd rfl h
  -- No pause: the next instruction is executed.
  | case5 m hcan line pauses overlay hlook checked hpauses steps next hstep ih =>
    obtain ⟨hfalse, rfl⟩ := look_passed hlook hpauses
    obtain ⟨last, hpasses, hends⟩ := ih h
    exact ⟨last, .step hcan hfalse hstep hpasses, hends⟩
  | case6 => exact absurd rfl h
  | case7 m hcan line pauses overlay hlook checked hpauses steps fault after hstep =>
    obtain ⟨hfalse, rfl⟩ := look_passed hlook hpauses
    exact ⟨m, .refl m, .fault hcan hfalse hstep⟩
  -- The end of the program.
  | case8 steps m hcan ended hended => exact ⟨m, .refl m, .of_complete hcan hended⟩
  | case9 steps m hcan fault ended hended => exact ⟨m, .refl m, .of_complete hcan hended⟩
  | case10 => exact absurd rfl h

/-- The instructions that are passed change neither the program nor the state of the run. -/
theorem Passes.frame (h : Passes runner m last) :
    last.program = m.program ∧ last.status = m.status := by
  induction h with
  | refl m => exact ⟨rfl, rfl⟩
  | @step m next last hcan _ hstep _ ih =>
    obtain ⟨hprogram, hstatus⟩ := frame_step (m := { m with resumePc := none }) runner hcan
    rw [hstep] at hprogram hstatus
    exact ⟨ih.1.trans hprogram, ih.2.trans hstatus⟩

/-! ### Machines that have halted -/

/-- The machine has halted and executes nothing more. -/
def HasHalted (m : Machine) : Prop := m.status = .halted ∧ m.running = false

/-- A machine that has come to its end has halted. -/
theorem hasHalted_complete (m : Machine) : m.complete.2.HasHalted := by
  obtain ⟨output, log, hcomplete⟩ := m.complete_frame
  rw [hcomplete]
  exact ⟨rfl, rfl⟩

theorem hasHalted_fail (m : Machine) (fault : Fault) : (m.fail fault).HasHalted := by
  obtain ⟨output, log, hfail⟩ := m.fail_frame fault
  rw [hfail]
  exact ⟨rfl, rfl⟩

/-- Every run to the end of a program halts the machine, natively or not and however it ends. -/
theorem hasHalted_execute (hloaded : m.program ≠ []) (h : (m.execute steps).1 ≠ .unfinished) :
    (m.execute steps).2.HasHalted := by
  have hnonempty : ¬ m.program.isEmpty = true := by simpa using hloaded
  unfold execute executeWith at h ⊢
  rw [if_neg hnonempty] at h ⊢
  obtain ⟨output, log, hnative | ⟨result, hnative⟩⟩ := m.runNative_frame
  · -- The interpreter runs the program, up to an instruction that fails or to the end.
    rw [hnative] at h ⊢
    dsimp only at h ⊢
    obtain ⟨positions, last, -, hstops⟩ := exists_steps_of_runSteps h
    generalize runSteps (m.innerRunner steps) steps _ = ended at hstops ⊢
    cases hstops with
    | complete => exact hasHalted_complete last
    | fault => exact hasHalted_fail _ _
  · -- Native code has run to the end, and only the flush is left.
    rw [hnative]
    exact hasHalted_complete _

/-- A call on a machine that has halted does nothing. -/
theorem executeDebug_of_halted (h : m.status = .halted) (steps : Nat) :
    m.executeDebug steps = (.done .halted, m) := by
  rw [executeDebug, h]

/-- Once the machine has halted, no call executes or pauses, whatever the overlay is asked for
before the calls. -/
theorem debugCall_of_halted (h : m.status = .halted) (steps : Nat)
    (requests : Nat → List Overlay.Request) (k : Nat) :
    ∃ overlay, debugCall steps requests k m = (.done .halted, { m with overlay }) := by
  have hasked : (m.asked (requests 0)).status = .halted := h
  induction k generalizing m requests with
  | zero => exact ⟨_, executeDebug_of_halted hasked steps⟩
  | succ k ih =>
    rw [debugCall, executeDebug_of_halted hasked steps]
    exact ih hasked (fun i => requests (i + 1)) hasked

/-! ### Calls -/

/-- The machine in which a call begins that the overlay has something to do in. -/
def entered (m : Machine) : Machine :=
  { (if m.status = .idle then m.start else m) with
    overlay := { m.overlay with debugging := true } }

/-- What a call does: nothing if the machine has halted, a run to the end if the overlay has
nothing to do, and else a run under the overlay. -/
theorem executeDebug_cases (m : Machine) (steps : Nat) :
    (m.status = .halted ∧ m.executeDebug steps = (.done .halted, m)) ∨
    (m.status = .idle ∧
      m.executeDebug steps = ((m.execute steps).1.ended, (m.execute steps).2)) ∨
    (m.entered.status = .running ∧
      m.executeDebug steps = debugSteps (m.innerRunner steps) steps m.entered) := by
  cases hstatus : m.status with
  | halted =>
    exact .inl ⟨rfl, executeDebug_of_halted hstatus steps⟩
  | running =>
    refine .inr (.inr ⟨?_, ?_⟩)
    · simp [entered, hstatus]
    · rw [executeDebug, hstatus]
      simp [entered, hstatus]
  | idle =>
    by_cases hactive : m.overlay.isActive = true
    · refine .inr (.inr ⟨?_, ?_⟩)
      · simp [entered, hstatus, start]
      · rw [executeDebug, hstatus]
        simp only [hactive, if_true, entered, hstatus]
        rfl
    · exact .inr (.inl ⟨rfl, executeDebug_of_inactive hactive hstatus steps⟩)

/-- A call has come to an instruction at which the overlay pauses, and the stream has refused the
line that announces the pause. -/
def NoticeRefused (steps : Nat) (m : Machine) (fault : Fault) (after : Machine) : Prop :=
  ∃ last checked reason sink,
    Passes (m.innerRunner steps) m.entered last ∧ last.canStep = true ∧
    last.look = (true, checked) ∧ last.output.putLine last.notice = (.error reason, sink) ∧
    fault = .onLine (.outputRefused reason) 0 ∧
    after = { last with overlay := checked, output := sink }

/-- A call whose pause could not be announced leaves the machine running, before the instruction
at which it paused. -/
theorem NoticeRefused.running (h : NoticeRefused steps m fault after)
    (hentered : m.entered.status = .running) :
    after.status = .running ∧ after.canStep = true := by
  obtain ⟨last, checked, reason, sink, hpasses, hcan, -, -, -, rfl⟩ := h
  exact ⟨hpasses.frame.2.trans hentered, hcan⟩

/-- A machine that has halted was not refused the notice of a pause. -/
theorem HasHalted.not_noticeRefused (h : after.HasHalted) :
    ¬ NoticeRefused steps m fault after := by
  rintro ⟨last, checked, reason, sink, -, hcan, -, -, -, rfl⟩
  -- There was an instruction to execute, so the machine had not stopped running.
  have hrunning : last.running = true := (canStep_iff.mp hcan).1
  exact Bool.false_ne_true (h.2.symm.trans hrunning)

/-- A failed call has halted the machine, or it could not announce a pause. -/
theorem hasHalted_or_noticeRefused (hloaded : m.program ≠ [])
    (hcall : m.executeDebug steps = (.failed fault, after)) :
    after.HasHalted ∨ m.entered.status = .running ∧ NoticeRefused steps m fault after := by
  rcases m.executeDebug_cases steps with ⟨-, hrun⟩ | ⟨-, hrun⟩ | ⟨hentered, hrun⟩
  · cases hcall.symm.trans hrun
  · -- The overlay has nothing to do, and the program runs to its end.
    obtain ⟨hfailed, rfl⟩ := Prod.mk.inj (hcall.symm.trans hrun)
    refine .inl (hasHalted_execute hloaded fun hunfinished => ?_)
    rw [hunfinished] at hfailed
    cases hfailed
  · rw [hrun] at hcall
    have hended : (debugSteps (m.innerRunner steps) steps m.entered).1 ≠ .unfinished := by
      simp [hcall]
    obtain ⟨last, hpasses, hends⟩ := exists_endsAt_of_debugSteps hended
    rw [hcall] at hends
    generalize hresult : (Outcome.failed fault, after) = result at hends
    cases hends with
    | paused => cases hresult
    -- The only end of a failing call at which nothing halts the machine.
    | @refused checked sink reason hcan hlook hput =>
      cases hresult
      exact .inr ⟨hentered, last, checked, reason, sink, hpasses, hcan, hlook, hput, rfl, rfl⟩
    | fault =>
      cases hresult
      exact .inl (hasHalted_fail _ _)
    | complete =>
      obtain ⟨-, rfl⟩ := Prod.mk.inj hresult
      exact .inl (hasHalted_complete last)

/-- A call that fails halts the machine, on every stream and whatever the overlay was asked for,
exactly if it did not fail to announce a pause; if it did, the machine is running and the
instruction is still to be executed. Once halted, the machine neither executes nor pauses in any
later call. Every run without the overlay that fails halts the machine in the same way. -/
theorem failed_call_halts_iff (hloaded : m.program ≠ [])
    (hcall : m.executeDebug steps = (.failed fault, after)) :
    (after.HasHalted ↔ ¬ NoticeRefused steps m fault after) ∧
    (NoticeRefused steps m fault after → after.status = .running ∧ after.canStep = true) ∧
    (after.HasHalted → ∀ n requests k, ∃ overlay,
      debugCall n requests k after = (.done .halted, { after with overlay })) ∧
    ∀ cause halted, m.execute steps = (.failed cause, halted) →
      halted.HasHalted ∧ ∀ n requests k, ∃ overlay,
        debugCall n requests k halted = (.done .halted, { halted with overlay }) := by
  have hends := hasHalted_or_noticeRefused hloaded hcall
  refine ⟨⟨HasHalted.not_noticeRefused, fun hnotice => ?_⟩, fun hnotice => ?_, ?_, ?_⟩
  · exact hends.resolve_right fun hrefused => hnotice hrefused.2
  · have hrunning := hends.resolve_left fun hhalted => hhalted.not_noticeRefused hnotice
    exact hnotice.running hrunning.1
  · intro hhalted n requests k
    exact debugCall_of_halted hhalted.1 n requests k
  · intro cause halted hrun
    have hhalted : halted.HasHalted := by
      have := @hasHalted_execute m steps hloaded (by simp [hrun])
      rwa [hrun] at this
    exact ⟨hhalted, fun n requests k => debugCall_of_halted hhalted.1 n requests k⟩

/-- A program with a breakpoint on its first line and a stream that is closed. -/
def silenced : Machine :=
  (({ output := { policy := .closingAfter (some 0) false } } : Machine).load
    "PUSH 1\nPRINT").2.addBreakpoint 1 none

/-- A machine whose notice of a pause is refused could go on. -/
theorem failed_call_halts_iff_silenced :
    silenced.program ≠ [] ∧
    (silenced.executeDebug 2).1 = .failed (.onLine (.outputRefused "closed") 0) ∧
    ¬ (silenced.executeDebug 2).2.HasHalted ∧
    NoticeRefused 2 silenced (.onLine (.outputRefused "closed") 0) (silenced.executeDebug 2).2 ∧
    (silenced.executeDebug 2).2.canStep = true := by
  have hloaded : silenced.program ≠ [] := by decide +kernel
  have hfailed : (silenced.executeDebug 2).1 = .failed (.onLine (.outputRefused "closed") 0) :=
    rfl
  have hcall : silenced.executeDebug 2 =
      (.failed (.onLine (.outputRefused "closed") 0), (silenced.executeDebug 2).2) :=
    Prod.ext hfailed rfl
  have hrunning : ¬ (silenced.executeDebug 2).2.HasHalted := fun hhalted =>
    absurd hhalted.2 (by decide +kernel)
  obtain ⟨hiff, hstill, -, -⟩ := failed_call_halts_iff hloaded hcall
  have hnotice := not_not.mp (mt hiff.mpr hrunning)
  exact ⟨hloaded, hfailed, hrunning, hnotice, (hstill hnotice).2⟩

end Machine

end StackMachine
