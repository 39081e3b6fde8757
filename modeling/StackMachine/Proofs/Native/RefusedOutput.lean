import StackMachine.Proofs.Native.Mode
import StackMachine.Proofs.Native.Printing

/-!
# Refused output

A native run whose output is refused is followed by an interpreted run from the first instruction,
on the stream that the native run has left. So what is printed is tried again, and with a stream
that stays closed the fault names the first instruction that prints, not the one that was refused.
Compiled code also writes the sign of a negative number by itself, so the stream may refuse in the
middle of a number. A program that cannot be compiled is not affected.

## Main definitions

* `Machine.observed`: what can be seen of a run from outside.
* `Sink.deliver`: how a run ends that prints given lines on a stream.
* `Sink.deliverNatively`: how it ends in native mode.

## Main results

* `Native.Draft.observed_runSteps`: what can be seen of an interpreted run, on any stream.
* `Native.Compiled.run_delivers`: what can be seen of a native run, on any stream.
* `Native.native_mode_observed`: a program with and without native mode, on any stream.
-/

namespace StackMachine

/-! ### Printing on a stream -/

/-- Once a stream has refused a write, it takes nothing more and refuses for the same reason. -/
def SinkPolicy.StaysClosed (policy : SinkPolicy) : Prop :=
  ∀ accepted offered text refusal, policy.refusesWrite accepted offered text = some refusal →
    ∀ later more, text :: offered <:+ later →
      policy.refusesWrite (accepted ++ String.ofList (text.toList.take refusal.taken)) later more =
        some { reason := refusal.reason }

/-- A stream that is closed by the lines that it has taken stays closed. -/
theorem SinkPolicy.staysClosed_closingAfter (limit : Option Nat) (badFlush : Bool) :
    (closingAfter limit badFlush).StaysClosed := by
  intro accepted offered text refusal hrefuses later more _
  cases limit with
  | none => cases hrefuses
  | some limit =>
    simp only [closingAfter] at hrefuses ⊢
    split at hrefuses
    next hlines =>
      cases hrefuses
      simp [hlines]
    next => cases hrefuses

namespace Sink

variable {sink left : Sink} {lines : List PrintedLine} {texts : List String} {text reason : String}
  {line : PrintedLine} {source : Nat}

/-- Prints lines as the interpreter does, up to the first that is refused, and gives the reason and
the source line of that one. -/
def printAll : List PrintedLine → Sink → Option (String × Nat) × Sink
  | [], sink => (none, sink)
  | line :: lines, sink =>
    match sink.putLine line.text with
    | (.ok (), sink) => printAll lines sink
    | (.error reason, sink) => (some (reason, line.source), sink)

/-- How a run ends that prints lines, and the stream after it: a refused line is a fault, and the
stream is flushed in any case. -/
def deliver (lines : List PrintedLine) (sink : Sink) : Outcome Unit × Sink :=
  match printAll lines sink with
  | (none, sink) =>
    match sink.flush with
    | (.ok (), sink) => (.done (), sink)
    | (.error reason, sink) => (.failed (.onLine (.outputRefused reason) 0), sink)
  | (some (reason, source), sink) =>
    (.failed (.onLine (.outputRefused reason) source), sink.flush.2)

/-- The writes that compiled code makes for lines, up to the first that is refused. -/
def writeAll (lines : List PrintedLine) (sink : Sink) : Except String Unit × Sink :=
  sink.putEach (lines.flatMap PrintedLine.writes)

/-- How such a run ends in native mode: there is nothing left to do after the writes of the compiled
code, unless one of them was refused. Then the lines are printed on the stream that is left. -/
def deliverNatively (lines : List PrintedLine) (sink : Sink) : Outcome Unit × Sink :=
  match sink.writeAll lines with
  | (.ok (), left) => left.deliver []
  | (.error _, left) => left.deliver lines

theorem deliver_cons_ok (h : sink.putLine line.text = (.ok (), left)) :
    deliver (line :: lines) sink = deliver lines left := by
  rw [deliver, printAll, h]
  rfl

/-- The first line that is refused ends the run. -/
theorem deliver_cons_refused (h : sink.putLine line.text = (.error reason, left)) :
    deliver (line :: lines) sink =
      (.failed (.onLine (.outputRefused reason) line.source), left.flush.2) := by
  rw [deliver, printAll, h]

theorem deliver_of_refused (h : printAll lines sink = (some (reason, source), left)) :
    sink.deliver lines = (.failed (.onLine (.outputRefused reason) source), left.flush.2) := by
  rw [deliver, h]

theorem flush_accepted (sink : Sink) : sink.flush.2.accepted = sink.accepted := by
  rw [flush]
  split <;> rfl

/-! ### Nothing is refused -/

/-- The stream has taken a text, and will refuse writes and flushes as before. -/
structure Took (sink : Sink) (text : String) (left : Sink) : Prop where
  accepted : left.accepted = sink.accepted ++ text
  policy : left.policy = sink.policy
  flushes : left.flushes = sink.flushes

/-- A stream that took one text and then another took both. -/
theorem Took.trans {middle : Sink} {more : String} (h : sink.Took text middle)
    (hmore : middle.Took more left) : sink.Took (text ++ more) left where
  accepted := by rw [hmore.accepted, h.accepted, String.append_assoc]
  policy := hmore.policy.trans h.policy
  flushes := hmore.flushes.trans h.flushes

theorem took_put (h : sink.put text = (.ok (), left)) : sink.Took text left := by
  obtain ⟨hpolicy, hflushes⟩ := sink.put_frame text
  rw [h] at hpolicy hflushes
  refine ⟨?_, hpolicy, hflushes⟩
  rw [put] at h
  split at h
  next hempty =>
    cases h
    rw [String.isEmpty_iff.mp hempty, String.append_empty]
  next =>
    split at h
    next => cases h
    next =>
      cases h
      rfl

/-- Texts that are not refused are taken one after the other. -/
theorem took_putEach (h : sink.putEach texts = (.ok (), left)) :
    sink.Took (String.join texts) left := by
  induction texts generalizing sink with
  | nil =>
    cases h
    exact ⟨by simp, rfl, rfl⟩
  | cons text texts ih =>
    rw [putEach] at h
    split at h
    next middle hput =>
      rw [String.join_cons]
      exact (took_put hput).trans (ih h)
    next hrefused => exact absurd h (hrefused left)

/-- The interpreter and compiled code write the same text. -/
theorem took_printAll (h : printAll lines sink = (none, left)) :
    sink.Took (String.join (lines.flatMap PrintedLine.writes)) left := by
  induction lines generalizing sink with
  | nil =>
    cases h
    exact ⟨by simp, rfl, rfl⟩
  | cons line lines ih =>
    rw [printAll] at h
    split at h
    next middle hput =>
      have htook := took_putEach hput
      have htext : String.join [line.text, "\n"] = String.join line.writes := by
        rw [PrintedLine.writes, String.join_append, PrintedLine.text, String.join_cons]
      rw [htext] at htook
      rw [List.flatMap_cons, String.join_append]
      exact htook.trans (ih h)
    next => cases h

/-- If no write is refused either way, the run ends in the same way, on the same text. -/
theorem deliverNatively_of_ok (hprinted : (printAll lines sink).1 = none)
    (hwritten : (sink.writeAll lines).1 = .ok ()) :
    (sink.deliverNatively lines).1 = (sink.deliver lines).1 ∧
      (sink.deliverNatively lines).2.accepted = (sink.deliver lines).2.accepted := by
  rcases hprint : printAll lines sink with ⟨_ | _, interpreted⟩
  · rcases hwrite : sink.writeAll lines with ⟨_ | _, native⟩
    · rw [hwrite] at hwritten
      cases hwritten
    have hleft := took_printAll hprint
    have hnative := took_putEach hwrite
    have hsame : native.SameText interpreted :=
      ⟨hnative.accepted.trans hleft.accepted.symm, hnative.policy.trans hleft.policy.symm,
        hnative.flushes.trans hleft.flushes.symm⟩
    obtain ⟨hflush, hafter⟩ := hsame.flush
    simp only [deliverNatively, hwrite, deliver, printAll, hprint]
    generalize native.flush = first at hflush hafter
    generalize interpreted.flush = second at hflush hafter
    obtain ⟨result, last⟩ := first
    obtain ⟨result', last'⟩ := second
    obtain rfl : result = result' := hflush
    cases result <;> exact ⟨rfl, hafter.accepted⟩
  · rw [hprint] at hprinted
    cases hprinted

/-! ### Something is refused -/

/-- A stream whose last write was refused. -/
def HasRefused (sink : Sink) (reason : String) : Prop :=
  ∃ accepted text offered refusal, sink.policy.refusesWrite accepted offered text = some refusal ∧
    refusal.reason = reason ∧ sink.offered = text :: offered ∧
    sink.accepted = accepted ++ String.ofList (text.toList.take refusal.taken)

/-- The refusal of a text is remembered. -/
theorem hasRefused_of_put (h : sink.put text = (.error reason, left)) :
    left.HasRefused reason := by
  rw [put] at h
  split at h
  next => cases h
  next =>
    split at h
    next refusal hrefuses =>
      cases h
      exact ⟨sink.accepted, text, sink.offered, refusal, hrefuses, rfl, rfl, rfl⟩
    next => cases h

/-- Writing that is refused leaves a stream whose last write was refused. -/
theorem hasRefused_of_putEach (h : sink.putEach texts = (.error reason, left)) :
    left.HasRefused reason := by
  induction texts generalizing sink with
  | nil => cases h
  | cons text texts ih =>
    rw [putEach] at h
    split at h
    next => exact ih h
    next => exact hasRefused_of_put h

/-- A stream that stays closed refuses the next line too. -/
theorem HasRefused.putLine (h : sink.HasRefused reason) (hclosed : sink.policy.StaysClosed)
    (text : String) : ∃ left, sink.putLine text = (.error reason, left) ∧
      left.accepted = sink.accepted := by
  obtain ⟨accepted, last, offered, refusal, hrefuses, rfl, hoffered, haccepted⟩ := h
  have hput : ∀ text : String, text.isEmpty = false →
      ∃ left, sink.put text = (.error refusal.reason, left) ∧ left.accepted = sink.accepted := by
    intro text htext
    have hagain := hclosed _ _ _ _ hrefuses sink.offered text (hoffered ▸ List.suffix_refl _)
    rw [← haccepted] at hagain
    refine ⟨{ sink with offered := text :: sink.offered }, ?_, rfl⟩
    rw [put, htext, hagain]
    simp
  rw [Sink.putLine, putEach]
  by_cases hempty : text.isEmpty = true
  · -- An empty text does not reach the stream, but its line feed does.
    have hnothing : sink.put text = (.ok (), sink) := by rw [put, if_pos hempty]
    rw [hnothing]
    dsimp only
    rw [← put_eq_putEach]
    exact hput "\n" rfl
  · obtain ⟨left, hrefused, hsame⟩ := hput text (Bool.eq_false_iff.mpr hempty)
    rw [hrefused]
    exact ⟨left, rfl, hsame⟩

/-- On a stream that stays closed, printing again what was refused fails at the first line, and
nothing more is accepted. -/
theorem deliverNatively_of_closed (h : sink.writeAll lines = (.error reason, left))
    (hclosed : sink.policy.StaysClosed) :
    ∃ first, lines.head? = some first ∧
      (sink.deliverNatively lines).1 = .failed (.onLine (.outputRefused reason) first.source) ∧
      (sink.deliverNatively lines).2.accepted = left.accepted := by
  have hrefused := hasRefused_of_putEach h
  have hpolicy : left.policy = sink.policy := by
    have hframe := (sink.putEach_frame (lines.flatMap PrintedLine.writes)).1
    rwa [← writeAll, h] at hframe
  rw [deliverNatively, h]
  -- Something was refused, so there is a first line, and it is refused now.
  rcases lines with _ | ⟨first, rest⟩
  · cases h
  · rw [← hpolicy] at hclosed
    obtain ⟨again, hput, haccepted⟩ := hrefused.putLine hclosed first.text
    refine ⟨first, rfl, ?_⟩
    dsimp only
    rw [deliver_cons_refused hput]
    exact ⟨rfl, (flush_accepted again).trans haccepted⟩

end Sink

/-! ### What can be seen of a run -/

namespace Machine

/-- What can be seen of a run from outside: its outcome and the output stream. -/
def observed (run : Outcome Unit × Machine) : Outcome Unit × Sink := (run.1, run.2.output)

/-- A machine with a program just loaded, on a stream, with or without native mode. -/
def loadedWith (m : Machine) (program : Program) (output : Sink) (nativeMode : NativeMode) :
    Machine :=
  { m with program, output, settings := { m.settings with nativeMode } }.reset

/-- The end of a run is a flush. -/
theorem observed_complete (m : Machine) : observed m.complete = m.output.deliver [] := by
  rcases hflush : m.output.flush with ⟨reason | _, sink⟩
  · simp only [observed, complete, finish, hflush, output_report, Sink.deliver, Sink.printAll]
  · simp only [observed, complete, finish, hflush, Sink.deliver, Sink.printAll]

/-- A run that fails flushes its output. -/
theorem output_fail (m : Machine) (fault : Fault) : (m.fail fault).output = m.output.flush.2 := by
  rcases hflush : m.output.flush with ⟨reason | _, sink⟩
  · simp only [fail, finish, output_report, hflush]
  · simp only [fail, finish, output_report, hflush]

end Machine

namespace Native

/-! ### The interpreter -/

namespace Draft

variable {platform : Platform} {slots : List String} {draft last : Draft} {code : List Operation}
  {instruction : Instruction} {m : Machine} {rest : Program} {pc steps : Nat} {runner : Runner}

/-- The instruction prints nothing, or a known value as the compiler has it. -/
theorem Tracks.printing?_cases (h : draft.Tracks m) (instruction : Instruction) :
    (instruction.printed? m.stack = none ∧ draft.printing? instruction = none) ∨
      ∃ value values known, instruction.opcode = .print ∧ m.stack = value :: values ∧
        instruction.printed? m.stack = some value ∧ draft.printing? instruction = some known ∧
        String.join (printedTexts known.word known.printKind) = value.text := by
  have heq := h.printing?_eq instruction
  cases hprinted : instruction.printed? m.stack with
  | none =>
    rw [hprinted] at heq
    exact Or.inl ⟨rfl, heq.symm⟩
  | some value =>
    obtain ⟨known, hknown⟩ := h.exists_printed hprinted
    rw [hprinted, Option.bind_some, hknown] at heq
    rw [Instruction.printed?] at hprinted
    split at hprinted
    next hop =>
      obtain ⟨values, hstack⟩ := List.head?_eq_some_iff.mp hprinted
      exact Or.inr ⟨value, values, known, hop, hstack, rfl, heq.symm,
        Known.join_printedTexts hknown⟩
    next => cases hprinted

/-- What can be seen of an interpreted run of a program that can be compiled, on any stream. -/
theorem observed_runSteps (hnodup : slots.Nodup)
    (h : draft.instructions slots platform.printAddress rest pc = .ok (code, last))
    (htracks : draft.Tracks m) (hrunning : m.running = true) (hrest : m.program.drop m.pc = rest)
    (hsteps : rest.length ≤ steps) :
    Machine.observed (Machine.runSteps runner steps m) =
      m.output.deliver (draft.printed slots platform.printAddress rest pc) := by
  -- The induction is on the instructions that are left, as they are compiled.
  induction rest generalizing draft m pc code steps with
  | nil =>
    have hstop : m.canStep = false := by
      have hle := List.drop_eq_nil_iff.mp hrest
      rw [Machine.canStep, decide_eq_false (Nat.not_lt.mpr hle), Bool.and_false]
    rw [Machine.runSteps.eq_def, hstop]
    exact Machine.observed_complete m
  | cons instruction rest ih =>
    rw [instructions] at h
    obtain ⟨⟨operations, next⟩, hfirst, h⟩ := exists_of_bind_eq_ok h
    obtain ⟨⟨more, last⟩, hmore, h⟩ := exists_of_bind_eq_ok h
    cases h
    rw [List.length_cons] at hsteps
    obtain ⟨steps, rfl⟩ := Nat.exists_eq_add_of_le' hsteps
    have hat : m.program[m.pc]? = some instruction := by
      rw [← List.head?_drop, hrest]
      rfl
    have hcan : m.canStep = true :=
      Machine.canStep_iff.mpr ⟨hrunning, (List.getElem?_eq_some_iff.mp hat).1⟩
    -- What is left when the instruction goes through, whatever it prints.
    have hgoes : (∀ value, instruction.printed? m.stack = some value →
        (m.output.putLine value.text).1 = .ok ()) →
        Machine.observed (Machine.runSteps runner (steps + (rest.length + 1)) m) =
          (m.output.afterPrint (instruction.printed? m.stack)).deliver
            (next.printed slots platform.printAddress rest (pc + 1)) := by
      intro hput
      obtain ⟨after, hexecute, htracks', hafter, -, -⟩ :=
        agrees_instruction hnodup hput hfirst htracks
      have hstep := Machine.step_next hat (hexecute runner m.pc)
      rw [← Nat.add_assoc, Machine.runSteps, if_pos hcan, hstep]
      refine (ih hmore (m := { after with pc := m.pc + 1 })
        ⟨htracks'.stack, htracks'.bound, htracks'.loops⟩ ?_ ?_ ?_).trans ?_
      · rw [hafter]
        exact hrunning
      · rw [hafter, ← List.drop_drop, hrest]
        rfl
      · omega
      · rw [hafter]
    simp only [printed, hfirst]
    rcases htracks.printing?_cases instruction with ⟨hnone, hsilent⟩ |
      ⟨value, values, known, hop, hstack, hprinted, hknown, htext⟩
    · rw [hsilent, hgoes (by simp [hnone]), hnone]
      rfl
    have hline : PrintedLine.text ⟨printedTexts known.word known.printKind, instruction.line⟩ =
        value.text := htext
    rw [hknown]
    rcases hput : m.output.putLine value.text with ⟨reason | _, left⟩
    · -- The stream refuses: the fault names the instruction.
      have hrun : (instruction.execute runner m.pc).run m =
          (.error (.fault (.onLine (.outputRefused reason) 0)),
            { m with stack := values, output := left }) :=
        Instruction.run_execute_print_refused hop hstack hput
      have hfault : (Interruption.fault (.onLine (.outputRefused reason) 0)).withLine
          instruction.line = .fault (.onLine (.outputRefused reason) instruction.line) :=
        congrArg Interruption.fault (Fault.withLine_onLine (.inl rfl))
      rw [← hline] at hput
      rw [← Nat.add_assoc, Machine.runSteps, if_pos hcan, Machine.step_error hat hrun, hfault]
      dsimp only
      rw [Sink.deliver_cons_refused hput, Machine.observed, Machine.output_fail]
    · have hfine : ∀ value, instruction.printed? m.stack = some value →
          (m.output.putLine value.text).1 = .ok () := by
        intro other hother
        cases hprinted.symm.trans hother
        rw [hput]
      have hafter : m.output.afterPrint (instruction.printed? m.stack) = left := by
        rw [hprinted, Sink.afterPrint, hput]
      rw [← hline] at hput
      dsimp only
      rw [hgoes hfine, hafter, Sink.deliver_cons_ok hput]

end Draft

/-! ### Native runs -/

/-- What can be seen of a native run, on any stream. -/
theorem Compiled.run_delivers {platform : Platform} {program : Program} {compiled : Compiled}
    (hcompile : compile platform program = .ok compiled) (hstack : platform.HasStack program)
    (sink : Sink) :
    ∃ result, compiled.run platform sink = match sink.writeAll (printedLines platform program) with
      | (.ok (), left) => (.ok result, left)
      | (.error reason, left) => (.error (.output reason), left) := by
  rw [compile] at hcompile
  obtain ⟨⟨operations, hasResult⟩, hassemble, hcompile⟩ := exists_of_bind_eq_ok hcompile
  obtain ⟨hplaces, code, last, hcode, rfl, rfl⟩ := assembleIn_ok hassemble
  dsimp only at hcompile
  split at hcompile
  next region hregion =>
    cases hcompile
    rw [epilogue_eq, ← List.append_assoc] at hregion ⊢
    obtain ⟨cpu, after, hdelivers, hrun⟩ := exists_run_of_wp hregion
      (wp_prints (fun _ => List.Perm.refl _) hstack hplaces hcode { sink })
    -- The host starts without anything refused.
    have hwrites : after.result = sink.writeAll (printedLines platform program) :=
      hdelivers.fine rfl
    rw [hrun, ← hwrites, PrintContext.result]
    cases after.refused with
    | none => exact ⟨_, rfl⟩
    | some reason => exact ⟨0, rfl⟩
  next => cases hcompile

end Native

/-! ### With and without native mode -/

namespace Machine

open Native (compile printedLines)

variable {m : Machine} {compiled : Native.Compiled} {steps : Nat}

/-- What can be seen of an interpreted run of a program that can be compiled, on any stream. -/
theorem observed_runSteps_start {platform : Native.Platform} {runner : Runner}
    (hcompile : compile platform m.program = .ok compiled) (hstack : m.stack = [])
    (hbindings : m.bindings = []) (hloops : m.loops = []) (hsteps : m.program.length ≤ steps) :
    observed (runSteps runner steps m.start) =
      m.output.deliver (printedLines platform m.program) := by
  rw [compile] at hcompile
  obtain ⟨assembled, hassemble, -⟩ := Native.exists_of_bind_eq_ok hcompile
  obtain ⟨-, code, last, hcode, -⟩ := Native.assembleIn_ok hassemble
  have htracks : Native.Draft.Tracks {} m.start := by
    refine ⟨congrArg _ hstack, ?_, hloops⟩
    intro name
    change Native.Known.ofValue? ((Entries.find? name m.bindings).getD (.int 0)) = _
    rw [hbindings]
    rfl
  exact Native.Draft.observed_runSteps (Native.nodup_slotNames _) hcode htracks rfl rfl hsteps

/-- What can be seen of a run in native mode: a native run, or an interpreted one on the stream that
the native run has left. -/
theorem observed_execute_native (hmode : m.settings.nativeMode.attempts = true)
    (hprogram : m.program ≠ []) (hcompile : compile m.platform m.program = .ok compiled)
    (hroom : m.platform.HasStack m.program) (hstack : m.stack = []) (hbindings : m.bindings = [])
    (hloops : m.loops = []) (hsteps : m.program.length ≤ steps) :
    observed (m.execute steps) =
      m.output.deliverNatively (printedLines m.platform m.program) := by
  obtain ⟨result, hrun⟩ := Native.Compiled.run_delivers hcompile hroom m.output
  obtain ⟨log, hnative⟩ := exists_runNative_eq hmode hcompile
  rw [hrun] at hnative
  rw [Sink.deliverNatively, execute]
  generalize m.output.writeAll (printedLines m.platform m.program) = written at hnative ⊢
  obtain ⟨reason | _, left⟩ := written
  · -- A write is refused: the interpreter starts over on the stream that is left.
    rw [executeWith_of_none hprogram hnative]
    exact observed_runSteps_start (m := { m with output := left, log }) hcompile hstack hbindings
      hloops hsteps
  · -- Nothing is refused: the end of the native run is that of an interpreted one.
    rw [executeWith_of_some hprogram hnative]
    exact observed_complete _

end Machine

namespace Native

open Machine (observed)

/-- The default platform has room for code of less than a page. -/
theorem exists_compile {program : Program}
    (hsmall : (assemble 0 program).toOption.any (fun assembled =>
      decide (0 < (Operation.encodeAll assembled.1).length ∧
        (Operation.encodeAll assembled.1).length < 4096)) = true) :
    ∃ compiled, compile {} program = .ok compiled := by
  rcases hassemble : assemble 0 program with error | ⟨operations, hasResult⟩
  · rw [hassemble] at hsmall
    cases hsmall
  rw [hassemble] at hsmall
  obtain ⟨hpos, hlt⟩ : 0 < (Operation.encodeAll operations).length ∧
    (Operation.encodeAll operations).length < 4096 := of_decide_eq_true hsmall
  have hpage : ({} : Paging).pageSize = 4096 := rfl
  have hmaps : ({} : Paging).maps
      (({} : Paging).roundUp (Operation.encodeAll operations).length) = true := by
    rw [Paging.roundUp, hpage]
    apply decide_eq_true
    omega
  obtain ⟨region, hregion⟩ := CodeBuffer.exists_finalize_emit (List.length_pos_iff.mp hpos)
    (by decide) (by rw [addressSpace, hpage]; omega) hmaps fun _ => rfl
  have hplatform : assemble ({} : Platform).printAddress program = .ok (operations, hasResult) :=
    hassemble
  refine ⟨⟨region, Operation.encodeAll operations, hasResult⟩, ?_⟩
  simp only [compile, hplatform, bind, Except.bind, hregion, pure, Except.pure]

/-- A program with and without native mode, on any stream.

The lines that a compiled program prints do not depend on the stream. Without native mode they are
printed up to the first that is refused, and the fault names the instruction that printed it. With
native mode the result and the text are the same as long as no write is refused. But a write that is
refused to compiled code is no fault: the program is run again from its first instruction, on the
stream that compiled code has left, and the lines that were accepted are printed once more. On a
stream that stays closed nothing more is accepted, and the fault names the first instruction that
prints instead of the one that was refused.

A program that cannot be compiled shows the same with native mode as without it, if it ends there,
whatever programs it runs from files. -/
theorem native_mode_observed {m : Machine} {program : Program} (hprogram : program ≠ []) :
    (∀ compiled, compile m.platform program = .ok compiled → m.platform.HasStack program →
      ∃ lines, lines = printedLines m.platform program ∧
        ∀ (output : Sink) (steps : Nat), program.length ≤ steps →
        ∃ interpreted native : Outcome Unit × Sink,
          observed ((m.loadedWith program output .off).execute steps) = interpreted ∧
          observed ((m.loadedWith program output .on).execute steps) = native ∧
          interpreted = output.deliver lines ∧ native = output.deliverNatively lines ∧
          ((Sink.printAll lines output).1 = none → (output.writeAll lines).1 = .ok () →
            native.1 = interpreted.1 ∧ native.2.accepted = interpreted.2.accepted) ∧
          (∀ reason source, (Sink.printAll lines output).1 = some (reason, source) →
            interpreted.1 = .failed (.onLine (.outputRefused reason) source)) ∧
          ∀ reason left, output.writeAll lines = (.error reason, left) →
            output.policy.StaysClosed → ∃ first, lines.head? = some first ∧
              native.1 = .failed (.onLine (.outputRefused reason) first.source) ∧
              native.2.accepted = left.accepted) ∧
    ∀ error, compile m.platform program = .error error → m.platform.HasRoom →
      ∀ (output : Sink) (steps : Nat),
        (observed ((m.loadedWith program output .off).execute steps)).1 ≠ .unfinished →
        observed ((m.loadedWith program output .on).execute steps) =
          observed ((m.loadedWith program output .off).execute steps) := by
  constructor
  · intro compiled hcompile hstack
    refine ⟨_, rfl, ?_⟩
    intro output steps hsteps
    have hinterpreted : observed ((m.loadedWith program output .off).execute steps) =
        output.deliver (printedLines m.platform program) := by
      rw [Machine.execute_eq_runSteps (m := m.loadedWith program output .off) hprogram rfl]
      exact Machine.observed_runSteps_start hcompile rfl rfl rfl hsteps
    have hnative : observed ((m.loadedWith program output .on).execute steps) =
        output.deliverNatively (printedLines m.platform program) :=
      Machine.observed_execute_native (m := m.loadedWith program output .on) rfl hprogram hcompile
        hstack rfl rfl rfl hsteps
    refine ⟨_, _, hinterpreted, hnative, rfl, rfl, Sink.deliverNatively_of_ok, ?_, ?_⟩
    · intro reason source hrefused
      exact congrArg Prod.fst (Sink.deliver_of_refused (Prod.ext hrefused rfl))
    · intro reason left hrefused hclosed
      exact Sink.deliverNatively_of_closed hrefused hclosed
  · intro error hcompile hroom output steps hfinished
    -- Loading without native mode is loading with it, and taking the mode away.
    obtain ⟨left, hrun⟩ := Machine.execute_interpreting (m := m.loadedWith program output .on)
      hroom hprogram hcompile m.log hfinished
    have hsame := congrArg observed hrun
    exact hsame.symm

/-- Prints two lines, the first one with a sign. -/
def twoLines : Program :=
  [{ opcode := .push, operands := [], literal := some (.int (-1)), line := 1 },
    { opcode := .print, operands := [], line := 2 },
    { opcode := .push, operands := [], literal := some (.int 2), line := 3 },
    { opcode := .print, operands := [], line := 4 }]

/-- Prints a text, which has no native form. -/
def textLine : Program :=
  [{ opcode := .push, operands := [], literal := some (.str "a"), line := 1 },
    { opcode := .print, operands := [], line := 2 }]

/-- On a stream that is closed after one line the interpreter fails at the second `PRINT`, and
native mode at the first. On a stream that is closed from the start a text is refused in the same
way with native mode. -/
theorem native_mode_observed_twoLines :
    (observed ((({} : Machine).loadedWith twoLines
        { policy := .closingAfter (some 1) false } .off).execute 4)).1 =
      .failed (.onLine (.outputRefused "closed") 4) ∧
    (observed ((({} : Machine).loadedWith twoLines
        { policy := .closingAfter (some 1) false } .on).execute 4)).1 =
      .failed (.onLine (.outputRefused "closed") 2) ∧
    (observed ((({} : Machine).loadedWith textLine
        { policy := .closingAfter (some 0) false } .on).execute 2)).1 =
      .failed (.onLine (.outputRefused "closed") 2) := by
  obtain ⟨compiled, hcompile⟩ :=
    exists_compile (show (assemble 0 twoLines).toOption.any _ = _ by decide +kernel)
  have hclosed := SinkPolicy.staysClosed_closingAfter (some 1) false
  obtain ⟨lines, hlines, hall⟩ := (native_mode_observed (m := {}) (List.cons_ne_nil _ _)).1 compiled
    hcompile (Platform.hasRoom_default.hasStack hcompile)
  have hprinted : lines = [⟨["-", "1"], 2⟩, ⟨["2"], 4⟩] := by
    rw [hlines]
    rfl
  subst hprinted
  obtain ⟨interpreted, native, hoff, hon, -, -, -, hinterpreted, hagain⟩ :=
    hall { policy := .closingAfter (some 1) false } 4 (by decide)
  obtain ⟨first, hfirst, hnative, -⟩ := hagain "closed" _ (Prod.ext rfl rfl) hclosed
  cases hfirst
  refine ⟨hoff ▸ hinterpreted "closed" 4 rfl, hon ▸ hnative, ?_⟩
  have htext : (observed ((({} : Machine).loadedWith textLine
      { policy := .closingAfter (some 0) false } .off).execute 2)).1 =
        .failed (.onLine (.outputRefused "closed") 2) := rfl
  have hprogram : textLine ≠ [] := List.cons_ne_nil _ _
  rw [(native_mode_observed (m := {}) hprogram).2 _ rfl Platform.hasRoom_default _ 2 ?_]
  · exact htext
  · rw [htext]
    simp

end Native

end StackMachine
