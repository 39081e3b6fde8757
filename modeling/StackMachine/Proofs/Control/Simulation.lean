import StackMachine.Proofs.Control.Located

/-!
# Structured runs are runs of the machine

The machine finds the end of a block by scanning and remembers the loops it is in on a stack.
Wherever a structured program has a meaning, the machine that enters its code comes to the same
end: behind the code, behind the loop around it, or before the instruction that fails.

## Main definitions

* `Structured.Reached`: what the machine does where the program has a meaning.

## Main results

* `Structured.Runs.reached`: every structured run is a run of the machine.
* `Structured.Iterates.steps`: how often a loop executes its beginning and its end.
-/

namespace StackMachine.Structured

open Machine (Steps)

variable {runner : Runner}

/-- Running a structured program leaves the place of the machine and its loops alone. -/
theorem Runs.control_eq {inLoop : Bool} {s : Structured} {m after : Machine} {exit : Exit}
    (h : Runs runner inLoop s m exit after) : after.control = m.control := by
  induction h with
  | skip | leave | leaveOutside | ifFailed | elseFailed | loopFailed => rfl
  | @simple _ m _ instruction h pc hrun | @simpleFailed _ m _ instruction h pc _ hrun =>
    have hcontrol := (Instruction.local_execute runner pc h).control_eq m
    rwa [hrun] at hcontrol
  | seq _ _ ih₁ ih₂ => exact ih₂.trans ih₁
  | seqLeft _ ih | seqFailed _ ih => exact ih
  | ifTrue hcondition _ ih | elseTrue hcondition _ ih | elseFalse hcondition _ ih
  | loopLeft hcondition _ ih | loopBodyFailed hcondition _ ih =>
    exact ih.trans (Machine.condition?_control hcondition)
  | ifFalse hcondition | loopFalse hcondition => exact Machine.condition?_control hcondition
  | loopTrue hcondition _ _ ih₁ ih₂ =>
    exact ih₂.trans (ih₁.trans (Machine.condition?_control hcondition))

/-! ### From the structured meaning to the machine -/

/-- Where the machine is when a structured program at a position has ended: behind it, behind the
loop around it, or before the instruction that fails. The positions on the way lie in the
program. -/
def Reached (runner : Runner) (s : Structured) (start : Nat) (loops entry : List Nat)
    (m : Machine) : Exit → Machine → Prop
  | .done, after => ∃ positions,
      Steps runner (m.moved start entry) positions (after.moved (start + s.size) loops) ∧
      ∀ p ∈ positions, start ≤ p ∧ p < start + s.size
  | .left, after => ∃ positions head rest target,
      loops = head :: rest ∧ Program.endAfter? m.program head = some target ∧
      Steps runner (m.moved start entry) positions (after.moved (target + 1) rest) ∧
      ∀ p ∈ positions, start ≤ p ∧ p < start + s.size
  | .failed fault, after => ∃ positions last,
      Steps runner (m.moved start entry) positions last ∧ last.canStep = true ∧
      (Machine.step runner).run last = (.error (.fault fault), after.moved last.pc last.loops)

/-- Positions of a program, and behind them positions of a part of it. -/
theorem range_append {lead inside : List Nat} {low high first stop : Nat}
    (hlead : ∀ p ∈ lead, low ≤ p ∧ p < high) (hinside : ∀ p ∈ inside, first ≤ p ∧ p < stop)
    (hlow : low ≤ first) (hhigh : stop ≤ high) : ∀ p ∈ lead ++ inside, low ≤ p ∧ p < high := by
  intro p hp
  rcases List.mem_append.mp hp with hp | hp
  · exact hlead p hp
  · have := hinside p hp
    omega

/-- The first position of a program and positions of a part of it are positions of the program. -/
theorem range_cons {inside : List Nat} {low high first stop : Nat}
    (hinside : ∀ p ∈ inside, first ≤ p ∧ p < stop) (hlow : low < first) (hle : first ≤ stop)
    (hhigh : stop ≤ high) : ∀ p ∈ [low] ++ inside, low ≤ p ∧ p < high := by
  refine range_append ?_ hinside (Nat.le_of_lt hlow) hhigh
  intro p hp
  rw [List.mem_singleton.mp hp]
  omega

section Forward

variable {s inner : Structured} {start first : Nat} {loops entry entry' positions : List Nat}
  {m middle after : Machine} {exit : Exit}

/-- A program that leads to a part of itself does what the part does, and goes on behind it. -/
theorem Reached.enclose (hsteps : Steps runner (m.moved start entry) positions
      (middle.moved first entry'))
    (hpositions : ∀ p ∈ positions, start ≤ p ∧ p < start + s.size)
    (hprogram : middle.program = m.program)
    (hlow : start ≤ first) (hhigh : first + inner.size ≤ start + s.size)
    (hbehind : exit = .done → ∃ more,
      Steps runner (after.moved (first + inner.size) loops) more
        (after.moved (start + s.size) loops) ∧
      ∀ p ∈ more, start ≤ p ∧ p < start + s.size)
    (h : Reached runner inner first loops entry' middle exit after) :
    Reached runner s start loops entry m exit after := by
  cases exit with
  | done =>
    obtain ⟨inside, hinner, hinside⟩ := h
    obtain ⟨more, hmore, hmorein⟩ := hbehind rfl
    refine ⟨positions ++ inside ++ more, (hsteps.trans hinner).trans hmore, ?_⟩
    exact range_append (range_append hpositions hinside hlow hhigh) hmorein (Nat.le_refl _)
      (Nat.le_refl _)
  | left =>
    obtain ⟨inside, head, rest, target, hloops, htarget, hinner, hinside⟩ := h
    rw [hprogram] at htarget
    exact ⟨positions ++ inside, head, rest, target, hloops, htarget, hsteps.trans hinner,
      range_append hpositions hinside hlow hhigh⟩
  | failed fault =>
    obtain ⟨inside, last, hinner, hcan, hstep⟩ := h
    exact ⟨positions ++ inside, last, hsteps.trans hinner, hcan, hstep⟩

/-- A failure does not depend on the loops around the program. -/
theorem Reached.of_failed {fault : Fault} {loops' : List Nat}
    (hsteps : Steps runner (m.moved start entry) positions (middle.moved first entry'))
    (h : Reached runner inner first loops entry' middle (.failed fault) after) :
    Reached runner s start loops' entry m (.failed fault) after := by
  obtain ⟨inside, last, hinner, hcan, hstep⟩ := h
  exact ⟨positions ++ inside, last, hsteps.trans hinner, hcan, hstep⟩

/-- The instruction at the beginning fails. -/
theorem Reached.failed_here {instruction : Instruction} {fault : Fault}
    (hrunning : m.running = true) (hat : m.program[start]? = some instruction)
    (hstep : (Machine.step runner).run (m.moved start entry) =
      (.error (.fault fault), after.moved start entry)) :
    Reached runner s start loops entry m (.failed fault) after :=
  ⟨[], m.moved start entry, .refl _, Machine.canStep_moved hrunning hat, hstep⟩

/-- One step from a moved machine. -/
theorem steps_one {pc : Nat} {next : Machine} {instruction : Instruction}
    (hrunning : m.running = true) (hat : m.program[pc]? = some instruction)
    (hstep : (Machine.step runner).run (m.moved pc loops) = (.ok (), next)) :
    Steps runner (m.moved pc loops) [pc] next :=
  Steps.single (Machine.canStep_moved hrunning hat) hstep

end Forward

/-- One round of a loop whose body runs to its end leads back to the beginning of the loop. -/
theorem round_steps {opening closing : Mark} {body : Structured} {start : Nat}
    {loops entry : List Nat} {m middle again : Machine}
    (hcode : (loop opening body closing).flatten <+: m.program.drop start)
    (hrunning : m.running = true) (hfresh : loops.head? ≠ some start)
    (hentry : entry = loops ∨ entry = start :: loops)
    (hcondition : m.condition? = some (true, middle))
    (hcontrol : again.control = m.control)
    (hbody : Reached runner body (start + 1) (start :: loops) (start :: loops) middle .done
      again) :
    ∃ inside, Steps runner (m.moved start entry) (start :: (inside ++ [start + 1 + body.size]))
        (again.moved start (start :: loops)) ∧
      ∀ p ∈ inside, start + 1 ≤ p ∧ p < start + 1 + body.size := by
  obtain ⟨inside, hinner, hinside⟩ := hbody
  have hblock := Program.isPrefix_drop_succ hcode
  have hprogram := Machine.program_of_control hcontrol
  have hrunning' : again.running = true := (Machine.running_of_control hcontrol).trans hrunning
  have hopening := Program.getElem?_of_isPrefix_drop hcode
  -- The condition is true, so the loop is on the stack of loops from here on.
  have hwhile : Steps runner (m.moved start entry) [start]
      (middle.moved (start + 1) (start :: loops)) :=
    steps_one hrunning hopening
      (Machine.step_moved_while_true hopening hcondition hfresh hentry)
  have hat : again.program[start + 1 + body.size]? = some (closing.instruction .endBlock) := by
    rw [hprogram]
    exact Program.getElem?_end_of_isPrefix hblock
  have htarget : Program.endAfter? again.program start = some (start + 1 + body.size) := by
    rw [hprogram]
    exact Program.endAfter?_of_isPrefix hblock
  -- The `END` finds the loop there, and goes back to its beginning.
  have hend : Steps runner (again.moved (start + 1 + body.size) (start :: loops))
      [start + 1 + body.size] (again.moved start (start :: loops)) :=
    steps_one hrunning' hat (Machine.step_moved_end_loop hat htarget)
  exact ⟨inside, hwhile.trans (hinner.trans hend), hinside⟩

/-- Whether a program is a loop. -/
def isLoop : Structured → Bool
  | loop _ _ _ => true
  | _ => false

/-- A program is entered with the loops around it; a loop also from its own end, with itself on top
of them. -/
def Enters (s : Structured) (start : Nat) (loops entry : List Nat) : Prop :=
  entry = loops ∨ s.isLoop = true ∧ entry = start :: loops

theorem Enters.eq {s : Structured} {start : Nat} {loops entry : List Nat}
    (h : s.Enters start loops entry) (hloop : s.isLoop = false) : entry = loops := by
  rcases h with rfl | ⟨hs, -⟩
  · rfl
  · rw [hloop] at hs
    cases hs

/-- Every structured run of a program in place is a run of the machine through it. -/
theorem Runs.reached {inLoop : Bool} {s : Structured} {m after : Machine} {exit : Exit}
    (h : Runs runner inLoop s m exit after) {start : Nat} {loops entry : List Nat}
    (hinLoop : inLoop = !loops.isEmpty) (hplace : s.At start loops m)
    (hentry : s.Enters start loops entry) :
    Reached runner s start loops entry m exit after := by
  induction h generalizing start loops entry with
  | skip =>
    obtain rfl := hentry.eq rfl
    exact ⟨[], .refl _, by simp⟩
  | @simple _ m after instruction h pc hrun =>
    obtain rfl := hentry.eq rfl
    have hat := Program.getElem?_of_isPrefix_drop hplace.code
    refine ⟨[start], steps_one hplace.running hat (Machine.step_moved_simple hat h hrun), ?_⟩
    simp [size]
  | @simpleFailed _ m after instruction h pc raised hrun =>
    obtain rfl := hentry.eq rfl
    have hat := Program.getElem?_of_isPrefix_drop hplace.code
    exact Reached.failed_here hplace.running hat (Machine.step_moved_simple_error hat h hrun)
  | @seq _ m middle after exit first second hfirst hsecond ih₁ ih₂ =>
    obtain rfl := hentry.eq rfl
    obtain ⟨positions, hsteps, hpositions⟩ := ih₁ hinLoop hplace.seq_first (.inl rfl)
    have hcontrol := hfirst.control_eq
    have hreached := ih₂ hinLoop (hplace.seq_second.of_control hcontrol) (.inl rfl)
    refine Reached.enclose hsteps ?_ (Machine.program_of_control hcontrol)
      (Nat.le_add_right ..) ?_ ?_
      hreached
    · intro p hp
      have := hpositions p hp
      simp only [size]
      omega
    · simp only [size]
      omega
    · rintro -
      rw [Nat.add_assoc]
      exact ⟨[], .refl _, by simp⟩
  | seqLeft _ ih | seqFailed _ ih =>
    obtain rfl := hentry.eq rfl
    refine Reached.enclose (.refl _) (by simp) rfl (Nat.le_refl _) ?_ (by simp)
      (ih hinLoop hplace.seq_first (.inl rfl))
    simp only [size]
    omega
  | @ifTrue _ m middle after exit opening body closing hcondition hbody ih =>
    obtain rfl := hentry.eq rfl
    have hat := Program.getElem?_of_isPrefix_drop hplace.code
    have hcontrol := Machine.condition?_control hcondition
    have hreached := ih hinLoop (hplace.ifEnd_body.of_control hcontrol) (.inl rfl)
    refine Reached.enclose
      (steps_one hplace.running hat (Machine.step_moved_if_true hat hcondition)) (by simp [size])
      (Machine.program_of_control hcontrol) (Nat.le_succ _) (by simp only [size]; omega) ?_ hreached
    -- Behind the body stands the end of the conditional, which the loop around it does not own.
    rintro -
    have hplace' := hplace.of_control (hbody.control_eq.trans hcontrol)
    have hend := Program.getElem?_end_of_isPrefix (Program.isPrefix_drop_succ hplace'.code)
    refine ⟨[start + 1 + body.size], ?_, by simp [size]; omega⟩
    rw [size, show start + (body.size + 2) = start + 1 + body.size + 1 by omega]
    exact steps_one hplace'.running hend (hplace'.step_end hend (by simp only [size]; omega))
  | @ifFalse _ m after opening body closing hcondition =>
    obtain rfl := hentry.eq rfl
    have hat := Program.getElem?_of_isPrefix_drop hplace.code
    have htarget := Program.elseOrEndAfter?_of_end (Program.isPrefix_drop_succ hplace.code)
    refine ⟨[start], ?_, by simp [size]⟩
    rw [size, show start + (body.size + 2) = start + 1 + body.size + 1 by omega]
    exact steps_one hplace.running hat (Machine.step_moved_if_false hat hcondition htarget)
  | ifFailed hcondition | elseFailed hcondition =>
    obtain rfl := hentry.eq rfl
    have hat := Program.getElem?_of_isPrefix_drop hplace.code
    exact Reached.failed_here hplace.running hat (Machine.step_moved_if_nil hat hcondition)
  | @elseTrue _ m middle after exit opening yes mark no closing hcondition hyes ih =>
    obtain rfl := hentry.eq rfl
    have hat := Program.getElem?_of_isPrefix_drop hplace.code
    have hcontrol := Machine.condition?_control hcondition
    have hreached := ih hinLoop (hplace.ifElse_yes.of_control hcontrol) (.inl rfl)
    refine Reached.enclose
      (steps_one hplace.running hat (Machine.step_moved_if_true hat hcondition)) (by simp [size])
      (Machine.program_of_control hcontrol) (Nat.le_succ _) (by simp only [size]; omega) ?_ hreached
    -- Behind the first branch stands the `ELSE`, which jumps over the second.
    rintro -
    have hplace' := hplace.of_control (hyes.control_eq.trans hcontrol)
    have hmiddle := Program.getElem?_of_isPrefix_drop hplace'.ifElse_middle
    have htarget := Program.endAfter?_of_isPrefix (Program.isPrefix_drop_succ hplace'.ifElse_middle)
    refine ⟨[start + 1 + yes.size], ?_, by simp [size]; omega⟩
    rw [size,
      show start + (yes.size + no.size + 3) = start + 1 + yes.size + 1 + no.size + 1 by omega]
    exact steps_one hplace'.running hmiddle (Machine.step_moved_else hmiddle htarget)
  | @elseFalse _ m middle after exit opening yes mark no closing hcondition hno ih =>
    obtain rfl := hentry.eq rfl
    have hat := Program.getElem?_of_isPrefix_drop hplace.code
    have hcontrol := Machine.condition?_control hcondition
    have htarget := Program.elseOrEndAfter?_of_else (Program.isPrefix_drop_succ hplace.code)
    have hreached := ih hinLoop (hplace.ifElse_no.of_control hcontrol) (.inl rfl)
    refine Reached.enclose
      (steps_one hplace.running hat (Machine.step_moved_if_false hat hcondition htarget))
      (by simp [size]) (Machine.program_of_control hcontrol) (by omega)
      (by simp only [size]; omega) ?_
      hreached
    rintro -
    have hplace' := hplace.of_control (hno.control_eq.trans hcontrol)
    have hend := Program.getElem?_end_of_isPrefix (Program.isPrefix_drop_succ hplace'.ifElse_middle)
    refine ⟨[start + 1 + yes.size + 1 + no.size], ?_, by simp [size]; omega⟩
    rw [size,
      show start + (yes.size + no.size + 3) = start + 1 + yes.size + 1 + no.size + 1 by omega]
    exact steps_one hplace'.running hend (hplace'.step_end hend (by simp only [size]; omega))
  | @loopTrue _ m middle again after exit opening body closing hcondition hbody _ ih₁ ih₂ =>
    -- The rest of the loop is entered from its own end, with the loop on the stack.
    have hcontrol := Machine.condition?_control hcondition
    have hbodyPlace : body.At (start + 1) (start :: loops) m :=
      At.loop_body hplace.code hplace.running
    have hreached := ih₁ rfl (hbodyPlace.of_control hcontrol) (.inl rfl)
    have hcontrol' := hbody.control_eq.trans hcontrol
    obtain ⟨inside, hround, hinside⟩ := round_steps hplace.code hplace.running hplace.head?_ne
      (hentry.imp_right And.right) hcondition hcontrol' hreached
    refine Reached.enclose hround ?_ (Machine.program_of_control hcontrol') (Nat.le_refl _)
      (Nat.le_refl _) (fun _ => ⟨[], .refl _, by simp⟩)
      (ih₂ hinLoop (hplace.of_control hcontrol') (.inr ⟨rfl, rfl⟩))
    have hrange : ∀ p ∈ inside ++ [start + 1 + body.size],
        start + 1 ≤ p ∧ p < start + 1 + body.size + 1 :=
      range_append (fun p hp => by have := hinside p hp; omega)
        (fun p hp => by rw [List.mem_singleton.mp hp]; omega) (Nat.le_refl _) (Nat.le_refl _)
    exact range_cons hrange (Nat.lt_succ_self _) (by omega) (by simp only [size]; omega)
  | @loopLeft _ m middle after opening body closing hcondition _ ih =>
    have hat := Program.getElem?_of_isPrefix_drop hplace.code
    have hcontrol := Machine.condition?_control hcondition
    have hbodyPlace : body.At (start + 1) (start :: loops) m :=
      At.loop_body hplace.code hplace.running
    obtain ⟨inside, head, rest, target, hloops, htarget, hinner, hinside⟩ :=
      ih rfl (hbodyPlace.of_control hcontrol) (.inl rfl)
    -- The break leaves this very loop, whose end stands behind the body.
    cases hloops
    have hown := Program.endAfter?_of_isPrefix (Program.isPrefix_drop_succ hplace.code)
    rw [Machine.program_of_control hcontrol, hown] at htarget
    cases htarget
    have hwhile : Steps runner (m.moved start entry) [start]
        (middle.moved (start + 1) (start :: loops)) :=
      steps_one hplace.running hat (Machine.step_moved_while_true hat hcondition hplace.head?_ne
        (hentry.imp_right And.right))
    refine ⟨start :: inside, ?_, ?_⟩
    · rw [size, show start + (body.size + 2) = start + 1 + body.size + 1 by omega]
      exact hwhile.trans hinner
    · exact range_cons hinside (Nat.lt_succ_self _) (Nat.le_add_right ..)
        (by simp only [size]; omega)
  | @loopBodyFailed _ m middle after fault opening body closing hcondition _ ih =>
    have hat := Program.getElem?_of_isPrefix_drop hplace.code
    have hcontrol := Machine.condition?_control hcondition
    have hbodyPlace : body.At (start + 1) (start :: loops) m :=
      At.loop_body hplace.code hplace.running
    exact Reached.of_failed (steps_one hplace.running hat (Machine.step_moved_while_true hat
      hcondition hplace.head?_ne (hentry.imp_right And.right)))
      (ih rfl (hbodyPlace.of_control hcontrol) (.inl rfl))
  | @loopFalse _ m after opening body closing hcondition =>
    have hat := Program.getElem?_of_isPrefix_drop hplace.code
    have htarget := Program.endAfter?_of_isPrefix (Program.isPrefix_drop_succ hplace.code)
    refine ⟨[start], ?_, by simp [size]⟩
    rw [size, show start + (body.size + 2) = start + 1 + body.size + 1 by omega]
    exact steps_one hplace.running hat (Machine.step_moved_while_false hat hcondition
      hplace.head?_ne (hentry.imp_right And.right) htarget)
  | loopFailed hcondition =>
    have hat := Program.getElem?_of_isPrefix_drop hplace.code
    exact Reached.failed_here hplace.running hat (Machine.step_moved_while_nil hat hcondition)
  | leave =>
    obtain rfl := hentry.eq rfl
    have hat := Program.getElem?_of_isPrefix_drop hplace.code
    cases entry with
    | nil => cases hinLoop
    | cons head rest =>
      obtain ⟨-, target, -, htarget⟩ := hplace.around head rfl
      exact ⟨[start], head, rest, target, rfl, htarget,
        steps_one hplace.running hat (Machine.step_moved_break_cons hat htarget), by simp [size]⟩
  | leaveOutside =>
    obtain rfl := hentry.eq rfl
    have hat := Program.getElem?_of_isPrefix_drop hplace.code
    cases entry with
    | nil =>
      exact ⟨[start], steps_one hplace.running hat (Machine.step_moved_break_nil hat),
        by simp [size]⟩
    | cons => cases hinLoop

/-- A loop that makes so many rounds executes its beginning once more than that, and its end once in
every round. -/
theorem Iterates.steps {opening closing : Mark} {body : Structured} {rounds : Nat}
    {m after : Machine} (h : Iterates runner body rounds m after) {start : Nat}
    {loops entry : List Nat}
    (hcode : (loop opening body closing).flatten <+: m.program.drop start)
    (hrunning : m.running = true) (hfresh : loops.head? ≠ some start)
    (hentry : entry = loops ∨ entry = start :: loops) :
    ∃ positions, Steps runner (m.moved start entry) positions
        (after.moved (start + (loop opening body closing).size) loops) ∧
      positions.count start = rounds + 1 ∧ positions.count (start + 1 + body.size) = rounds := by
  have hne : start ≠ start + 1 + body.size := by omega
  induction h generalizing entry with
  | zero hcondition =>
    have hat := Program.getElem?_of_isPrefix_drop hcode
    have htarget := Program.endAfter?_of_isPrefix (Program.isPrefix_drop_succ hcode)
    refine ⟨[start], ?_, List.count_singleton_self, List.count_eq_zero.mpr (by simp [hne.symm])⟩
    rw [size, show start + (body.size + 2) = start + 1 + body.size + 1 by omega]
    exact steps_one hrunning hat
      (Machine.step_moved_while_false hat hcondition hfresh hentry htarget)
  | @succ rounds m middle again after hcondition hbody _ ih =>
    have hcontrol := Machine.condition?_control hcondition
    have hcontrol' := hbody.control_eq.trans hcontrol
    have hbodyPlace : body.At (start + 1) (start :: loops) m := At.loop_body hcode hrunning
    have hreached := hbody.reached rfl (hbodyPlace.of_control hcontrol) (.inl rfl)
    obtain ⟨inside, hround, hinside⟩ :=
      round_steps hcode hrunning hfresh hentry hcondition hcontrol' hreached
    obtain ⟨positions, hsteps, hstart, hend⟩ := ih
      (by rwa [Machine.program_of_control hcontrol'])
      (by rwa [Machine.running_of_control hcontrol']) (.inr rfl)
    refine ⟨_, hround.trans hsteps, ?_, ?_⟩
    -- The positions of the body lie strictly between the beginning and the end.
    · have hnone : inside.count start = 0 :=
        List.count_eq_zero.mpr fun hp => by have := hinside _ hp; omega
      rw [List.cons_append, List.count_cons_self, List.count_append, List.count_append, hnone,
        hstart, List.count_singleton, beq_false_of_ne hne.symm]
      simp
    · have hnone : inside.count (start + 1 + body.size) = 0 :=
        List.count_eq_zero.mpr fun hp => by have := hinside _ hp; omega
      rw [List.cons_append, List.count_cons_of_ne hne, List.count_append, List.count_append, hnone,
        hend, List.count_singleton_self]
      omega

end StackMachine.Structured
