import StackMachine.Proofs.Control.Simulation

/-!
# Runs of the machine follow the structure of the program

A run of the machine that enters the code of a structured program is, at every moment, inside the
program with exactly its active loops on the stack, or it has left the program the way the
structured meaning says. Nothing is assumed of the run: it may end, fail or go on forever.

## Main definitions

* `Structured.Progress`: what a run of the machine has come to in a program.
* `Structured.Follows`: every run of the machine makes such progress.

## Main results

* `Structured.progress`: every run of the machine follows the structure of the program.
-/

namespace StackMachine.Structured

open Machine (Steps)

variable {runner : Runner}

/-- What a run that entered a program has come to. It is still in the program, with the active loops
on top of those around the program, and if the next instruction fails then so does the program; or
the program has ended behind itself or behind the loop around it, and the run went on from there. -/
inductive Progress (runner : Runner) (s : Structured) (start : Nat) (loops : List Nat)
    (m : Machine) (previous : Option Nat) : List Nat → Machine → Prop
  | within {positions last} (low : start ≤ last.pc) (high : last.pc < start + s.size)
      (canStep : last.canStep = true)
      (stack : last.loops = s.active start (positions.getLast?.or previous) last.pc ++ loops)
      (failing : ∀ fault after, (Machine.step runner).run last = (.error (.fault fault), after) →
        ∃ final, after = final.moved last.pc last.loops ∧
          Runs runner (!loops.isEmpty) s m (.failed fault) final) :
      Progress runner s start loops m previous positions last
  | done {inside more after last} (runs : Runs runner (!loops.isEmpty) s m .done after)
      (range : ∀ p ∈ inside, start ≤ p ∧ p < start + s.size)
      (steps : Steps runner (after.moved (start + s.size) loops) more last) :
      Progress runner s start loops m previous (inside ++ more) last
  | left {inside more after last head rest target}
      (runs : Runs runner (!loops.isEmpty) s m .left after) (around : loops = head :: rest)
      (ends : Program.endAfter? m.program head = some target)
      (range : ∀ p ∈ inside, start ≤ p ∧ p < start + s.size)
      (steps : Steps runner (after.moved (target + 1) rest) more last) :
      Progress runner s start loops m previous (inside ++ more) last

/-- The position executed last, when a run goes on from another. -/
theorem getLast?_append_or (lead positions : List Nat) (previous : Option Nat) :
    (lead ++ positions).getLast?.or previous =
      positions.getLast?.or (lead.getLast?.or previous) := by
  rw [List.getLast?_append, Option.or_assoc]

section Backward

variable {s inner : Structured} {start first pc : Nat} {loops entry lead positions : List Nat}
  {m middle after last : Machine} {previous : Option Nat} {instruction : Instruction}

/-- A run at the first instruction of a program stays there, or makes a step. -/
theorem Progress.head {next : Machine} (hsize : 0 < s.size) (hrunning : m.running = true)
    (hat : m.program[start]? = some instruction)
    (hentry : entry = s.active start previous start ++ loops)
    (hstep : (Machine.step runner).run (m.moved start entry) = (.ok (), next))
    (hsteps : Steps runner (m.moved start entry) positions last)
    (hnext : ∀ rest, rest.length < positions.length → Steps runner next rest last →
      Progress runner s start loops m previous ([start] ++ rest) last) :
    Progress runner s start loops m previous positions last := by
  cases hsteps with
  | refl =>
    refine .within (Nat.le_refl _) (Nat.lt_add_of_pos_right hsize)
      (Machine.canStep_moved hrunning hat) hentry fun fault after hfail => ?_
    rw [hstep] at hfail
    cases hfail
  | step _ hstep' hrest =>
    rw [hstep] at hstep'
    cases hstep'
    exact hnext _ (Nat.lt_succ_self _) hrest

/-- A run at the first instruction of a program stays there if the instruction fails. -/
theorem Progress.head_error {e : Interruption} (hsize : 0 < s.size) (hrunning : m.running = true)
    (hat : m.program[start]? = some instruction)
    (hentry : entry = s.active start previous start ++ loops)
    (hstep : (Machine.step runner).run (m.moved start entry) = (.error e, after.moved start entry))
    (hsteps : Steps runner (m.moved start entry) positions last)
    (hruns : ∀ fault, e = .fault fault →
      Runs runner (!loops.isEmpty) s m (.failed fault) after) :
    Progress runner s start loops m previous positions last := by
  cases hsteps with
  | refl =>
    refine .within (Nat.le_refl _) (Nat.lt_add_of_pos_right hsize)
      (Machine.canStep_moved hrunning hat) hentry fun fault final hfail => ?_
    rw [hstep] at hfail
    cases hfail
    exact ⟨after, rfl, hruns fault rfl⟩
  | step _ hstep' =>
    rw [hstep] at hstep'
    cases hstep'

/-- A run at the last instruction of a program that is done stays there, or is behind it. -/
theorem Progress.trail (hruns : Runs runner (!loops.isEmpty) s m .done after)
    (hlead : ∀ p ∈ lead, start ≤ p ∧ p < start + s.size)
    (hlow : start ≤ pc) (hhigh : pc < start + s.size) (hrunning : after.running = true)
    (hat : after.program[pc]? = some instruction)
    (hactive : ∀ last?, s.active start last? pc = [])
    (hstep : (Machine.step runner).run (after.moved pc loops) =
      (.ok (), after.moved (start + s.size) loops))
    (hsteps : Steps runner (after.moved pc loops) positions last) :
    Progress runner s start loops m previous (lead ++ positions) last := by
  cases hsteps with
  | refl =>
    refine .within hlow hhigh (Machine.canStep_moved hrunning hat) ?_ fun fault final hfail => ?_
    · rw [Machine.moved_pc, hactive]
      rfl
    · rw [hstep] at hfail
      cases hfail
  | @step _ next _ rest _ hstep' hrest =>
    rw [hstep] at hstep'
    cases hstep'
    have hshift : lead ++ (after.moved pc loops).pc :: rest = (lead ++ [pc]) ++ rest := by simp
    rw [hshift]
    refine .done hruns (range_append hlead ?_ hlow hhigh) hrest
    intro p hp
    rw [List.mem_singleton.mp hp]
    exact ⟨Nat.le_refl _, Nat.lt_succ_self _⟩

/-- A run that has come to a part of a program has come as far in the program. -/
theorem Progress.enclose
    (h : Progress runner inner first loops middle (lead.getLast?.or previous) positions last)
    (hlead : ∀ p ∈ lead, start ≤ p ∧ p < start + s.size)
    (hlow : start ≤ first) (hhigh : first + inner.size ≤ start + s.size)
    (hprogram : middle.program = m.program)
    (hactive : ∀ last? pc, first ≤ pc → pc < first + inner.size →
      s.active start last? pc = inner.active first last? pc)
    (hruns : ∀ exit final, exit ≠ .done → Runs runner (!loops.isEmpty) inner middle exit final →
      Runs runner (!loops.isEmpty) s m exit final)
    (hdone : ∀ inside more final, Runs runner (!loops.isEmpty) inner middle .done final →
      (∀ p ∈ inside, first ≤ p ∧ p < first + inner.size) →
      Steps runner (final.moved (first + inner.size) loops) more last →
      Progress runner s start loops m previous (lead ++ (inside ++ more)) last) :
    Progress runner s start loops m previous (lead ++ positions) last := by
  cases h with
  | within low high canStep stack failing =>
    refine .within (Nat.le_trans hlow low) (Nat.lt_of_lt_of_le high hhigh) canStep ?_ ?_
    · rw [getLast?_append_or, hactive _ _ low high]
      exact stack
    · intro fault after hstep
      obtain ⟨final, hafter, hfailed⟩ := failing fault after hstep
      exact ⟨final, hafter, hruns _ _ (by simp) hfailed⟩
  | done runs range steps => exact hdone _ _ _ runs range steps
  | left runs around ends range steps =>
    rw [hprogram] at ends
    rw [← List.append_assoc]
    exact .left (hruns _ _ (by simp) runs) around ends (range_append hlead range hlow hhigh) steps

end Backward

/-- Every run of the machine that enters the program from outside follows its structure. -/
def Follows (runner : Runner) (s : Structured) : Prop :=
  ∀ ⦃start loops m previous positions last⦄, s.At start loops m →
    (∀ p ∈ previous, p < start ∨ start + s.size ≤ p) →
    Steps runner (m.moved start loops) positions last →
    Progress runner s start loops m previous positions last

/-- The position before the second part of a program is outside that part. -/
theorem outside_of_inside {inside : List Nat} {previous : Option Nat} {low high : Nat}
    (hinside : ∀ p ∈ inside, p < low ∨ high ≤ p) (hprevious : ∀ p ∈ previous, p < low ∨ high ≤ p) :
    ∀ p ∈ inside.getLast?.or previous, p < low ∨ high ≤ p := by
  intro p hp
  rcases Option.or_eq_some_iff.mp hp with hlast | ⟨-, hlast⟩
  · exact hinside p (List.mem_of_getLast? hlast)
  · exact hprevious p hlast

/-- A single position in front of a piece of code is outside of it. -/
theorem outside_of_single {first low high : Nat} (previous : Option Nat) (h : first < low) :
    ∀ p ∈ ([first] : List Nat).getLast?.or previous, p < low ∨ high ≤ p := by
  rintro p ⟨⟩
  exact .inl h

theorem follows_skip : Follows runner skip := by
  intro start loops m previous positions last _ _ hsteps
  change Progress runner skip start loops m previous ([] ++ positions) last
  exact .done .skip (by simp) hsteps

/-- A simple instruction is one step. -/
theorem follows_simple {instruction : Instruction} (h : instruction.isSimple = true) :
    Follows runner (simple instruction h) := by
  intro start loops m previous positions last hplace hprevious hsteps
  have hat := Program.getElem?_of_isPrefix_drop hplace.code
  have hentry : loops = (simple instruction h).active start previous start ++ loops := by
    rw [active_start hprevious, List.nil_append]
  have hpost := (Instruction.local_execute runner start h m m.control).2
  cases hrun : (instruction.execute runner start).run m with
  | mk result after =>
    rw [hrun] at hpost
    cases result with
    | error e =>
      refine Progress.head_error Nat.one_pos hplace.running hat hentry
        (Machine.step_moved_simple_error hat h hrun) hsteps ?_
      intro fault hfault
      cases e with
      | unfinished => cases hfault
      | fault raised =>
        cases hfault
        exact .simpleFailed hrun
    | ok flow =>
      obtain rfl := hpost flow rfl
      refine Progress.head Nat.one_pos hplace.running hat hentry
        (Machine.step_moved_simple hat h hrun) hsteps fun rest _ hrest => ?_
      exact .done (.simple hrun) (by simp [size]) hrest

/-- `BREAK` is one step to behind the innermost loop. -/
theorem follows_leave (mark : Mark) : Follows runner (leave mark) := by
  intro start loops m previous positions last hplace hprevious hsteps
  have hat := Program.getElem?_of_isPrefix_drop hplace.code
  have hentry : loops = (leave mark).active start previous start ++ loops := by
    rw [active_start hprevious, List.nil_append]
  -- Whether there is a loop to leave shows on the stack of loops alone.
  cases loops with
  | nil =>
    refine Progress.head Nat.one_pos hplace.running hat hentry
      (Machine.step_moved_break_nil hat) hsteps fun rest _ hrest => ?_
    exact .done .leaveOutside (by simp [size]) hrest
  | cons head outer =>
    obtain ⟨-, target, -, htarget⟩ := hplace.around head rfl
    refine Progress.head Nat.one_pos hplace.running hat hentry
      (Machine.step_moved_break_cons hat htarget) hsteps fun rest _ hrest => ?_
    exact .left .leave rfl htarget (by simp [size]) hrest

/-- The second part is followed where the first has come to its end, unless the loop was left. -/
theorem follows_seq {first second : Structured} (hfirst : Follows runner first)
    (hsecond : Follows runner second) : Follows runner (seq first second) := by
  intro start loops m previous positions last hplace hprevious hsteps
  simp only [size] at hprevious
  have hprogress := hfirst hplace.seq_first (fun p hp => by have := hprevious p hp; omega) hsteps
  change Progress runner _ start loops m previous ([] ++ positions) last
  refine Progress.enclose hprogress (by simp) (Nat.le_refl _) (by simp only [size]; omega) rfl
    ?_ ?_ ?_
  · intro last? pc _ hpc
    rw [active_seq, active_eq_nil last? (.inl hpc), List.nil_append]
  -- If the first part does not come to its end, neither does the whole.
  · rintro (_ | _ | fault) final hexit hruns
    · exact absurd rfl hexit
    · exact .seqLeft hruns
    · exact .seqFailed hruns
  · -- Behind the first program the second one is entered from outside.
    intro inside more middle hruns hinside hmore
    have hcontrol := hruns.control_eq
    have houtside : ∀ p ∈ inside.getLast?.or previous,
        p < start + first.size ∨ start + first.size + second.size ≤ p :=
      outside_of_inside (fun p hp => .inl (hinside p hp).2)
        (fun p hp => by have := hprevious p hp; omega)
    have hprogress' := hsecond (hplace.seq_second.of_control hcontrol) houtside hmore
    have hrange : ∀ p ∈ inside, start ≤ p ∧ p < start + (seq first second).size := by
      intro p hp
      have := hinside p hp
      simp only [size]
      omega
    rw [List.nil_append]
    refine Progress.enclose hprogress' hrange (Nat.le_add_right ..) (by simp only [size]; omega)
      (Machine.program_of_control hcontrol) ?_ (fun _ _ _ hruns' => .seq hruns hruns') ?_
    · intro last? pc hpc _
      rw [active_seq, active_eq_nil last? (.inr hpc), List.append_nil]
    · intro inside' more' final hruns' hinside' hmore'
      rw [← List.append_assoc]
      refine .done (.seq hruns hruns') (range_append hrange hinside' (Nat.le_add_right ..) ?_) ?_
      · simp only [size]
        omega
      · rwa [size, ← Nat.add_assoc]

/-- `IF` is one step into the body or behind it. -/
theorem follows_ifEnd (opening closing : Mark) {body : Structured} (hbody : Follows runner body) :
    Follows runner (ifEnd opening body closing) := by
  intro start loops m previous positions last hplace hprevious hsteps
  have hat := Program.getElem?_of_isPrefix_drop hplace.code
  have hentry : loops = (ifEnd opening body closing).active start previous start ++ loops := by
    rw [active_start hprevious, List.nil_append]
  have hsize : start + (ifEnd opening body closing).size = start + 1 + body.size + 1 := by
    simp only [size]
    omega
  have hpositive : 0 < (ifEnd opening body closing).size := Nat.succ_pos _
  cases hcondition : m.condition? with
  | none =>
    refine Progress.head_error hpositive hplace.running hat hentry
      (Machine.step_moved_if_nil hat hcondition) hsteps ?_
    rintro fault ⟨⟩
    exact .ifFailed hcondition
  | some popped =>
    obtain ⟨_ | _, middle⟩ := popped
    · have htarget := Program.elseOrEndAfter?_of_end (Program.isPrefix_drop_succ hplace.code)
      refine Progress.head hpositive hplace.running hat hentry
        (Machine.step_moved_if_false hat hcondition htarget) hsteps fun rest _ hrest => ?_
      exact .done (.ifFalse hcondition) (by simp [size]) (by rwa [hsize])
    · refine Progress.head hpositive hplace.running hat hentry
        (Machine.step_moved_if_true hat hcondition) hsteps fun rest _ hrest => ?_
      have hcontrol := Machine.condition?_control hcondition
      have hprogress := hbody (hplace.ifEnd_body.of_control hcontrol)
        (outside_of_single previous (Nat.lt_succ_self start)) hrest
      refine Progress.enclose hprogress (by simp [size]) (Nat.le_succ _) (by omega)
        (Machine.program_of_control hcontrol) (fun _ _ _ _ => rfl)
        (fun _ _ _ hruns => .ifTrue hcondition hruns) ?_
      -- The body is done, and what is left of the run begins at the `END`.
      intro inside more final hruns hinside hmore
      have hplace' := hplace.of_control (hruns.control_eq.trans hcontrol)
      have hend := Program.getElem?_end_of_isPrefix (Program.isPrefix_drop_succ hplace'.code)
      rw [← List.append_assoc]
      refine Progress.trail (.ifTrue hcondition hruns)
        (range_cons hinside (by omega) (by omega) (by omega)) (by omega) (by omega) hplace'.running
        hend (fun last? => ?_) ?_ hmore
      · rw [active_ifEnd]
        exact active_eq_nil last? (.inr (Nat.le_refl _))
      · rw [hsize]
        exact hplace'.step_end hend (by omega)

/-- `IF` is one step into one of the branches, and `ELSE` is one from the end of the first to behind
both. -/
theorem follows_ifElse (opening middle closing : Mark) {yes no : Structured}
    (hyes : Follows runner yes) (hno : Follows runner no) :
    Follows runner (ifElse opening yes middle no closing) := by
  intro start loops m previous positions last hplace hprevious hsteps
  have hat := Program.getElem?_of_isPrefix_drop hplace.code
  have hentry :
      loops = (ifElse opening yes middle no closing).active start previous start ++ loops := by
    rw [active_start hprevious, List.nil_append]
  have hsize : start + (ifElse opening yes middle no closing).size =
      start + 1 + yes.size + 1 + no.size + 1 := by
    simp only [size]
    omega
  have hpositive : 0 < (ifElse opening yes middle no closing).size := Nat.succ_pos _
  -- The step of the `IF` decides which branch the rest of the run follows.
  cases hcondition : m.condition? with
  | none =>
    refine Progress.head_error hpositive hplace.running hat hentry
      (Machine.step_moved_if_nil hat hcondition) hsteps ?_
    rintro fault ⟨⟩
    exact .elseFailed hcondition
  | some popped =>
    have hcontrol := Machine.condition?_control hcondition
    obtain ⟨_ | _, popped⟩ := popped
    · have htarget := Program.elseOrEndAfter?_of_else (Program.isPrefix_drop_succ hplace.code)
      refine Progress.head hpositive hplace.running hat hentry
        (Machine.step_moved_if_false hat hcondition htarget) hsteps fun rest _ hrest => ?_
      have hbefore : start < start + 1 + yes.size + 1 := by omega
      have hprogress := hno (hplace.ifElse_no.of_control hcontrol)
        (outside_of_single previous hbefore) hrest
      refine Progress.enclose hprogress (by simp [size]) (by omega) (by omega)
        (Machine.program_of_control hcontrol) ?_ (fun _ _ _ hruns => .elseFalse hcondition hruns) ?_
      -- Between the marks only loops of this branch are being executed.
      · intro last? pc hlow _
        rw [active_ifElse, active_eq_nil (s := yes) last? (.inr (by omega)), List.append_nil]
      -- The branch is done, and what is left of the run begins at the `END`.
      intro inside more final hruns hinside hmore
      have hplace' := hplace.of_control (hruns.control_eq.trans hcontrol)
      have hend :=
        Program.getElem?_end_of_isPrefix (Program.isPrefix_drop_succ hplace'.ifElse_middle)
      rw [← List.append_assoc]
      refine Progress.trail (.elseFalse hcondition hruns)
        (range_cons hinside (by omega) (by omega) (by omega)) (by omega) (by omega) hplace'.running
        hend (fun last? => ?_) ?_ hmore
      · rw [active_ifElse, active_eq_nil last? (.inr (Nat.le_refl _)),
          active_eq_nil (s := yes) last? (.inr (by omega)), List.append_nil]
      · rw [hsize]
        exact hplace'.step_end hend (by omega)
    · refine Progress.head hpositive hplace.running hat hentry
        (Machine.step_moved_if_true hat hcondition) hsteps fun rest _ hrest => ?_
      have hprogress := hyes (hplace.ifElse_yes.of_control hcontrol)
        (outside_of_single previous (Nat.lt_succ_self start)) hrest
      refine Progress.enclose hprogress (by simp [size]) (Nat.le_succ _) (by omega)
        (Machine.program_of_control hcontrol) ?_ (fun _ _ _ hruns => .elseTrue hcondition hruns) ?_
      · intro last? pc _ hhigh
        rw [active_ifElse, active_eq_nil (s := no) last? (.inl (by omega)), List.nil_append]
      -- The branch is done, and what is left of the run begins at the `ELSE`.
      intro inside more final hruns hinside hmore
      have hplace' := hplace.of_control (hruns.control_eq.trans hcontrol)
      have hmiddle := Program.getElem?_of_isPrefix_drop hplace'.ifElse_middle
      have htarget :=
        Program.endAfter?_of_isPrefix (Program.isPrefix_drop_succ hplace'.ifElse_middle)
      rw [← List.append_assoc]
      refine Progress.trail (.elseTrue hcondition hruns)
        (range_cons hinside (by omega) (by omega) (by omega)) (by omega) (by omega) hplace'.running
        hmiddle (fun last? => ?_) ?_ hmore
      · rw [active_ifElse, active_eq_nil (s := no) last? (.inl (Nat.lt_succ_self _)),
          active_eq_nil last? (.inr (Nat.le_refl _)), List.append_nil]
      · rw [hsize]
        exact Machine.step_moved_else hmiddle htarget

/-- A run in the body of a loop is in the loop; behind the body the loop is entered again. -/
theorem Progress.round {opening closing : Mark} {body : Structured} {start : Nat}
    {loops positions : List Nat} {m middle last : Machine} {previous : Option Nat}
    (hplace : (loop opening body closing).At start loops m)
    (hcondition : m.condition? = some (true, middle))
    (hprogress : Progress runner body (start + 1) (start :: loops) middle
      (([start] : List Nat).getLast?.or previous) positions last)
    (hagain : ∀ again later, again.control = m.control → later.length < positions.length →
      Steps runner (again.moved start (start :: loops)) later last →
      Progress runner (loop opening body closing) start loops again (some (start + 1 + body.size))
        later last) :
    Progress runner (loop opening body closing) start loops m previous ([start] ++ positions)
      last := by
  have hcontrol := Machine.condition?_control hcondition
  have hsize : start + (loop opening body closing).size = start + 1 + body.size + 1 := by
    simp only [size]
    omega
  have hrange : ∀ inside : List Nat, (∀ p ∈ inside, start + 1 ≤ p ∧ p < start + 1 + body.size) →
      ∀ p ∈ [start] ++ inside, start ≤ p ∧ p < start + (loop opening body closing).size := by
    intro inside hinside
    exact range_cons hinside (Nat.lt_succ_self _) (by omega) (by omega)
  cases hprogress with
  | within low high canStep stack failing =>
    refine .within (by omega) (by omega) canStep ?_ fun fault after hstep => ?_
    · rw [getLast?_append_or, active_loop_inside _ _ _ _ (by omega) (by omega), List.append_assoc]
      exact stack
    · obtain ⟨final, hafter, hfailed⟩ := failing fault after hstep
      exact ⟨final, hafter, .loopBodyFailed hcondition hfailed⟩
  | @left inside more after _ head outer target runs around ends range steps =>
    -- The break leaves this loop: its end is the one behind the body.
    cases around
    rw [Machine.program_of_control hcontrol,
      Program.endAfter?_of_isPrefix (Program.isPrefix_drop_succ hplace.code)] at ends
    cases ends
    rw [← List.append_assoc]
    exact .done (.loopLeft hcondition runs) (hrange inside range) (by rwa [hsize])
  | @done inside more again _ runs range steps =>
    -- The body is done, so the end of the loop is next; it leads back to the beginning.
    have hcontrol' := runs.control_eq.trans hcontrol
    have hplace' := hplace.of_control hcontrol'
    have hblock := Program.isPrefix_drop_succ hplace'.code
    have hend := Program.getElem?_end_of_isPrefix hblock
    have hback : (Machine.step runner).run
        (again.moved (start + 1 + body.size) (start :: loops)) =
          (.ok (), again.moved start (start :: loops)) :=
      Machine.step_moved_end_loop hend (Program.endAfter?_of_isPrefix hblock)
    cases steps with
    | refl =>
      refine .within (by simp; omega) (by simp; omega)
        (Machine.canStep_moved hplace'.running hend) ?_ fun fault after hstep => ?_
      · rw [Machine.moved_pc, active_loop_inside _ _ _ _ (by omega) (Nat.le_refl _),
          active_eq_nil _ (.inr (Nat.le_refl _))]
        rfl
      · rw [hback] at hstep
        cases hstep
    | @step _ next _ later _ hstep hlater =>
      rw [hback] at hstep
      cases hstep
      have hshift : [start] ++ (inside ++ (again.moved (start + 1 + body.size) (start :: loops)).pc
          :: later) = ([start] ++ inside ++ [start + 1 + body.size]) ++ later := by simp
      have hlast : some (start + 1 + body.size) =
          ([start] ++ inside ++ [start + 1 + body.size]).getLast?.or previous := by
        rw [List.getLast?_concat]
        rfl
      have hnext := hagain again later hcontrol' (by simp; omega) hlater
      rw [hlast] at hnext
      rw [hshift]
      have hlead : ∀ p ∈ [start] ++ inside ++ [start + 1 + body.size],
          start ≤ p ∧ p < start + (loop opening body closing).size := by
        intro p hp
        rcases List.mem_append.mp hp with hp | hp
        · exact hrange inside range p hp
        · rw [List.mem_singleton.mp hp]
          omega
      refine Progress.enclose hnext hlead (Nat.le_refl _) (Nat.le_refl _)
        (Machine.program_of_control hcontrol') (fun _ _ _ _ => rfl)
        (fun _ _ _ hruns => .loopTrue hcondition runs hruns) ?_
      intro inside' more' final hruns hinside' hmore'
      rw [← List.append_assoc]
      refine .done (.loopTrue hcondition runs hruns) (fun p hp => ?_) hmore'
      rcases List.mem_append.mp hp with hp | hp
      · exact hlead p hp
      · exact hinside' p hp

/-- A run that enters a loop, from outside or from its own end. The induction is on the length of
the run: every round takes at least the step at the beginning of the loop. -/
theorem progress_loop (opening closing : Mark) {body : Structured} (hbody : Follows runner body)
    {start : Nat} {loops entry positions : List Nat} {m last : Machine} {previous : Option Nat}
    (hplace : (loop opening body closing).At start loops m)
    (hentry : entry = (loop opening body closing).active start previous start ++ loops)
    (henters : entry = loops ∨ entry = start :: loops)
    (hsteps : Steps runner (m.moved start entry) positions last) :
    Progress runner (loop opening body closing) start loops m previous positions last := by
  induction hlength : positions.length using Nat.strongRecOn
    generalizing m previous entry positions with
  | _ length ih =>
  subst hlength
  have hat := Program.getElem?_of_isPrefix_drop hplace.code
  have hpositive : 0 < (loop opening body closing).size := Nat.succ_pos _
  cases hcondition : m.condition? with
  | none =>
    refine Progress.head_error hpositive hplace.running hat hentry
      (Machine.step_moved_while_nil hat hcondition) hsteps ?_
    rintro fault ⟨⟩
    exact .loopFailed hcondition
  | some popped =>
    -- With a true condition the run goes through the body and comes back with fewer steps left.
    obtain ⟨_ | _, middle⟩ := popped
    · have htarget := Program.endAfter?_of_isPrefix (Program.isPrefix_drop_succ hplace.code)
      refine Progress.head hpositive hplace.running hat hentry
        (Machine.step_moved_while_false hat hcondition hplace.head?_ne henters htarget) hsteps
        fun rest _ hrest => ?_
      refine .done (.loopFalse hcondition) (by simp [size]) ?_
      rwa [size, show start + (body.size + 2) = start + 1 + body.size + 1 by omega]
    · refine Progress.head hpositive hplace.running hat hentry
        (Machine.step_moved_while_true hat hcondition hplace.head?_ne henters) hsteps
        fun rest hshorter hrest => ?_
      have hbodyPlace : body.At (start + 1) (start :: loops) m :=
        At.loop_body hplace.code hplace.running
      refine Progress.round hplace hcondition
        (hbody (hbodyPlace.of_control (Machine.condition?_control hcondition))
          (outside_of_single previous (Nat.lt_succ_self start)) hrest) ?_
      -- The next round is entered from the `END`, with the loop on the stack of loops.
      intro again later hcontrol hlater hsteps'
      refine ih _ (Nat.lt_trans hlater hshorter) (hplace.of_control hcontrol) ?_ (.inr rfl) hsteps'
        rfl
      rw [active_loop_again]
      rfl

/-- Every run of the machine that enters a structured program follows its structure. -/
theorem progress (s : Structured) : Follows runner s := by
  induction s with
  | skip => exact follows_skip
  | simple instruction h => exact follows_simple h
  | seq first second ih₁ ih₂ => exact follows_seq ih₁ ih₂
  | ifEnd opening body closing ih => exact follows_ifEnd opening closing ih
  | ifElse opening yes middle no closing ih₁ ih₂ =>
    exact follows_ifElse opening middle closing ih₁ ih₂
  | loop opening body closing ih =>
    intro start loops m previous positions last hplace hprevious hsteps
    refine progress_loop opening closing ih hplace ?_ (.inl rfl) hsteps
    rw [active_start hprevious, List.nil_append]
  | leave mark => exact follows_leave mark

end StackMachine.Structured
