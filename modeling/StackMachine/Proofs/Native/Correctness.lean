import StackMachine.Proofs.Native.Agreement

/-!
# Whole programs

Running a compiled program from its entry to its return agrees with interpreting it from its first
instruction to its end.

## Main definitions

* `Native.Draft.height`: the most values that a program has on the stack.
* `Native.Draft.Accompanies`: a run of the interpreter and the code of its instructions.
* `Native.Platform.HasStack`: the stack on entry has room for a program.

## Main results

* `Native.Draft.accompanies_instructions`: the code of a program accompanies its run.
* `Native.Compiled.run_eq_interpreted`: what a compiled program writes and returns.
-/

namespace StackMachine.Native

namespace Draft

/-- The most values that are known on the stack before or after one of the instructions. -/
def height (draft : Draft) (slots : List String) (address : Int64) : Program → (pc : Nat) → Nat
  | [], _ => draft.stack.length
  | first :: rest, pc =>
    match draft.instruction slots address first pc with
    | .ok (_, next) => max draft.stack.length (next.height slots address rest (pc + 1))
    | .error _ => draft.stack.length

/-- A run of the interpreter in some states and the code of the instructions executed in them, on a
stack with room for `room` values. -/
structure Accompanies (platform : Platform) (slots : List String) (room : Nat)
    (m final : Machine) (states : List Machine) (draft last : Draft) (code : List Operation) :
    Prop where
  trace : ∀ runner, Machine.Trace runner m states final
  tracks : last.Tracks final
  accepts : final.output.Accepts
  same : final = { m with
    pc := m.pc + states.length
    stack := final.stack
    bindings := final.bindings
    output := final.output }
  carries : ∀ ⦃layout : Layout⦄ ⦃cpu : Processor⦄ ⦃host : PrintContext⦄,
    layout.entry = platform.entry → layout.slotCount = slots.length → room ≤ layout.depth →
    draft.InFrame layout slots cpu → host.sink.SameText m.output → host.refused = none →
    Wp platform.handler code (fun cpu after => last.InFrame layout slots cpu ∧
      after.sink.SameText final.output ∧ after.refused = none ∧
      after.lastPrinted = (((states.filterMap Machine.printing?).getLast?).map
        Value.toInt64).or host.lastPrinted) cpu host

variable {platform : Platform} {slots : List String} {draft next last : Draft}
  {code more : List Operation} {instruction : Instruction} {m after final : Machine}
  {states : List Machine} {address : Int64} {rest : Program} {pc room : Nat}

/-- The stack is never higher than the height of what is to come. -/
theorem length_le_height : draft.stack.length ≤ draft.height slots address rest pc := by
  cases rest with
  | nil => exact Nat.le_refl _
  | cons instruction rest =>
    rw [height]
    split
    · exact Nat.le_max_left _ _
    · exact Nat.le_refl _

/-- What comes after an instruction gets no higher. -/
theorem height_next_le (h : draft.instruction slots address instruction pc = .ok (code, next)) :
    next.height slots address rest (pc + 1) ≤
      draft.height slots address (instruction :: rest) pc := by
  simp only [height, h]
  exact Nat.le_max_right _ _

theorem accompanies_nil (htracks : draft.Tracks m) (haccepts : m.output.Accepts) :
    Accompanies platform slots room m m [] draft draft [] where
  trace _ := .refl m
  tracks := htracks
  accepts := haccepts
  same := rfl
  carries _ _ _ _ _ _ hframe hsink hrefused := Wp.nil ⟨hframe, hsink, hrefused, rfl⟩

/-- The last value printed, with one more run in front. -/
theorem lastPrinted_cons (m : Machine) (states : List Machine) (earlier : Option Int64) :
    ((((m :: states).filterMap Machine.printing?).getLast?).map Value.toInt64).or earlier =
      (((states.filterMap Machine.printing?).getLast?).map Value.toInt64).or
        ((m.printing?.map Value.toInt64).or earlier) := by
  rw [List.filterMap_cons]
  cases m.printing? with
  | none => rfl
  | some value =>
    dsimp only
    rw [List.getLast?_cons]
    cases (states.filterMap Machine.printing?).getLast? <;> rfl

/-- What a known value on the stack stands for. -/
theorem Tracks.exists_known {value : Value} (h : draft.Tracks m) (hvalue : value ∈ m.stack) :
    ∃ known, Known.ofValue? value = some known := by
  have hmem : Known.ofValue? value ∈ draft.stack.map some := by
    rw [← h.stack]
    exact List.mem_map_of_mem hvalue
  obtain ⟨known, -, hknown⟩ := List.mem_map.mp hmem
  exact ⟨known, hknown.symm⟩

/-- The value that an instruction prints is known. -/
theorem Tracks.exists_printed {value : Value} (h : draft.Tracks m)
    (hvalue : instruction.printed? m.stack = some value) :
    ∃ known, Known.ofValue? value = some known := by
  rw [Instruction.printed?] at hvalue
  split at hvalue
  next => exact h.exists_known (List.mem_of_head? hvalue)
  next => cases hvalue

/-- One more instruction in front of a run. -/
theorem accompanies_cons (hat : m.program[m.pc]? = some instruction) (hrunning : m.running = true)
    (haccepts : m.output.Accepts) (htracks : draft.Tracks m)
    (hexecute : ∀ runner pc, (instruction.execute runner pc).run m = (.ok .next, after))
    (hafter : after = { m with
      stack := after.stack
      bindings := after.bindings
      output := m.output.afterPrint (instruction.printed? m.stack) })
    (hcarries : Carries platform slots ((instruction.printed? m.stack).bind Known.ofValue?) code
      draft next) (hroom : next.stack.length ≤ room)
    (h : Accompanies platform slots room { after with pc := m.pc + 1 } final states next last
      more) :
    Accompanies platform slots room m final (m :: states) draft last (code ++ more) where
  trace runner := by
    have hlt := (List.getElem?_eq_some_iff.mp hat).1
    exact .step (Machine.canStep_iff.mpr ⟨hrunning, hlt⟩)
      (Machine.step_next hat (hexecute runner m.pc)) (h.trace runner)
  tracks := h.tracks
  accepts := h.accepts
  same := by
    have hsame := h.same
    rw [hafter] at hsame
    rw [hsame, List.length_cons, Nat.add_assoc, Nat.add_comm 1]
  carries := by
    intro layout cpu host hentry hslots hdepth hframe hsink hrefused
    have hprinting : m.printing? = instruction.printed? m.stack := by
      rw [Machine.printing?, hat]
      rfl
    -- The stream accepts what is printed, so the host has not stopped behind this instruction.
    obtain ⟨hprint, hnone, hlast⟩ := PrintContext.afterPrint_spec hrefused hsink haccepts
      fun value hvalue => htracks.exists_printed hvalue
    refine Wp.append ((hcarries hentry hslots (by omega) hframe).mono ?_)
    rintro middle _ ⟨hmiddle, rfl⟩
    have houtput : after.output = m.output.afterPrint (instruction.printed? m.stack) := by
      rw [hafter]
    rw [← houtput] at hprint
    refine (h.carries hentry hslots hdepth hmiddle hprint hnone).mono ?_
    rintro cpu _ ⟨hcpu, hfinal, hfine, hvalue⟩
    refine ⟨hcpu, hfinal, hfine, ?_⟩
    rw [hvalue, lastPrinted_cons, hlast, hprinting]

/-- The code of the next instructions accompanies their execution. -/
theorem accompanies_next (hnodup : slots.Nodup)
    (h : draft.instructions slots platform.printAddress rest pc = .ok (code, last))
    (hroom : draft.height slots platform.printAddress rest pc ≤ room)
    (htracks : draft.Tracks m) (haccepts : m.output.Accepts) (hrunning : m.running = true)
    (hrest : rest <+: m.program.drop m.pc) :
    ∃ states final, Accompanies platform slots room m final states draft last code ∧
      states.length = rest.length := by
  -- The induction is on the instructions that are left, along with what is known about the machine
  -- that is about to execute them.
  induction rest generalizing draft m pc code with
  | nil =>
    cases h
    exact ⟨[], m, accompanies_nil htracks haccepts, rfl⟩
  | cons instruction rest ih =>
    rw [instructions] at h
    obtain ⟨⟨operations, next⟩, hfirst, h⟩ := exists_of_bind_eq_ok h
    obtain ⟨⟨more, last⟩, hmore, h⟩ := exists_of_bind_eq_ok h
    cases h
    have hheight := Nat.le_trans (height_next_le hfirst) hroom
    obtain ⟨after, hexecute, htracks', hafter, hcarries, -⟩ :=
      agrees_instruction hnodup (fun value _ => haccepts.putLine_fst value.text) hfirst htracks
    obtain ⟨others, hrest⟩ := hrest
    have hat : m.program[m.pc]? = some instruction := by
      rw [← List.head?_drop, ← hrest]
      rfl
    -- The next instruction finds the same program, still running, on an accepting stream.
    have hrunning' : after.running = true := by
      rw [hafter]
      exact hrunning
    have hdrop : rest <+: after.program.drop (m.pc + 1) := by
      rw [hafter, ← List.drop_drop, ← hrest]
      exact ⟨others, rfl⟩
    have haccepts' : after.output.Accepts := by
      rw [hafter]
      exact haccepts.afterPrint _
    have hnext : next.Tracks { after with pc := m.pc + 1 } :=
      ⟨htracks'.stack, htracks'.bound, htracks'.loops⟩
    obtain ⟨states, final, haccompanies, hstates⟩ :=
      ih hmore hheight hnext haccepts' hrunning' hdrop
    exact ⟨m :: states, final, accompanies_cons hat hrunning haccepts htracks hexecute hafter
      hcarries (Nat.le_trans length_le_height hheight) haccompanies, congrArg (· + 1) hstates⟩

/-- The code of all the instructions that are left accompanies their execution. -/
theorem accompanies_instructions (hnodup : slots.Nodup)
    (h : draft.instructions slots platform.printAddress rest pc = .ok (code, last))
    (htracks : draft.Tracks m) (haccepts : m.output.Accepts) (hrunning : m.running = true)
    (hrest : m.program.drop m.pc = rest) :
    ∃ states final, Accompanies platform slots (draft.height slots platform.printAddress rest pc)
      m final states draft last code ∧ states.length = rest.length :=
  accompanies_next hnodup h (Nat.le_refl _) htracks haccepts hrunning (hrest ▸ List.prefix_rfl)

end Draft

/-! ### From entry to return -/

/-- The words that a program needs on the stack: one for each variable, one for each value that it
has there at once, and nine for what the frame keeps. -/
def stackNeed (address : Int64) (program : Program) : Nat :=
  (slotNames program).length + Draft.height {} (slotNames program) address program 0 + 9

/-- The stack on entry lies in the lower half of the address space, with room for a program. -/
structure Platform.HasStack (platform : Platform) (program : Program) : Prop where
  entry_lt : (platform.entry.registers .rsp).toNat < 0x800000000000
  room : 8 * stackNeed platform.printAddress program ≤ (platform.entry.registers .rsp).toNat

/-- The frame of a program. -/
def Layout.forProgram {platform : Platform} {program : Program} (h : platform.HasStack program)
    (hplaces : 8 * (slotNames program).length + 48 ≤ 0x80000000) : Layout where
  entry := platform.entry
  slotCount := (slotNames program).length
  depth := Draft.height {} (slotNames program) platform.printAddress program 0
  places_le := hplaces
  entry_lt := h.entry_lt
  room := by
    have hroom := h.room
    have hsize := frameSize_le (slotNames program).length
    rw [stackNeed] at hroom
    omega

variable {order : Nat → List Nat} {platform : Platform} {program : Program}
  {operations : List Operation} {hasResult : Bool}

/-- The parts of assembled code. -/
theorem assembleIn_ok {address : Int64}
    (h : assembleIn order address program = .ok (operations, hasResult)) :
    8 * (slotNames program).length + 48 ≤ 0x80000000 ∧ ∃ code last,
      Draft.instructions {} (slotNames program) address program 0 = .ok (code, last) ∧
      operations = prologue (slotNames program).length (order (slotNames program).length) ++ code ++
        epilogue (!last.stack.isEmpty) ∧ hasResult = !last.stack.isEmpty := by
  rw [assembleIn] at h
  split at h
  next => cases h
  next =>
    dsimp only at h
    split at h
    next => cases h
    next hplaces =>
      have hfit : ∀ index < (slotNames program).length, slotPlace? index ≠ none := by
        simpa using hplaces
      split at h
      next => cases h
      next =>
        obtain ⟨⟨code, last⟩, hcode, h⟩ := exists_of_bind_eq_ok h
        cases h
        exact ⟨places_fit hfit, code, last, hcode, rfl, rfl⟩

theorem epilogue_eq (hasResult : Bool) :
    epilogue hasResult = (epilogue hasResult).dropLast ++ [.ret] := by
  cases hasResult <;> rfl

/-- On entry nothing is on the stack and every variable is zero. -/
theorem Draft.inFrame_start {layout : Layout} (slots : List String) {cpu : Processor}
    (h : layout.Holds [] (fun _ => 0) cpu) : Draft.InFrame {} layout slots cpu := by
  refine h.slots_congr ?_
  intro index _
  rw [slotWord]
  cases slots[index]? <;> rfl

theorem Draft.tracks_start (m : Machine) (program : Program) :
    Draft.Tracks {} ({ m with program }.reset).start where
  stack := rfl
  bound _ := rfl
  loops := rfl

/-- The operations of a program up to the return. -/
theorem wp_assembled {m final : Machine} {states : List Machine} {last : Draft}
    {code : List Operation} {sink : Sink} (houtput : sink.SameText m.output)
    (h : platform.HasStack program)
    (hplaces : 8 * (slotNames program).length + 48 ≤ 0x80000000)
    (horder : (order (slotNames program).length).Perm (List.range (slotNames program).length))
    (haccompanies : Draft.Accompanies platform (slotNames program)
      (Draft.height {} (slotNames program) platform.printAddress program 0) m final states {} last
      code) :
    Wp platform.handler
      (prologue (slotNames program).length (order (slotNames program).length) ++ code ++
        (epilogue (!last.stack.isEmpty)).dropLast)
      (fun cpu after => cpu.registers .rax = ((last.stack.map Known.word).head?.getD 0).toUInt64 ∧
        after.sink.SameText final.output ∧ after.refused = none ∧
        after.lastPrinted = ((states.filterMap Machine.printing?).getLast?).map Value.toInt64)
      platform.entry { sink } := by
  -- The prologue builds the frame, the code keeps it, and the epilogue takes the result out of it.
  have hprologue : Wp platform.handler
      (prologue (slotNames program).length (order (slotNames program).length))
      (fun next after => (Layout.forProgram h hplaces).Holds [] (fun _ => 0) next ∧
        after = ({ sink } : PrintContext)) platform.entry { sink } :=
    (Layout.forProgram h hplaces).wp_prologue horder
  rw [List.append_assoc]
  refine Wp.append (hprologue.mono ?_)
  rintro entered _ ⟨hentered, rfl⟩
  have hframed := Draft.inFrame_start (slotNames program) hentered
  refine Wp.append ((haccompanies.carries rfl rfl (Nat.le_refl _) hframed houtput rfl).mono ?_)
  rintro executed after ⟨hexecuted, hsink, hrefused, hlast⟩
  have hisEmpty : last.stack.isEmpty = (last.stack.map Known.word).isEmpty := List.isEmpty_map.symm
  rw [hisEmpty]
  refine (Layout.wp_epilogue hexecuted).mono ?_
  rintro left _ ⟨hrax, rfl⟩
  refine ⟨hrax, hsink, hrefused, ?_⟩
  rw [hlast]
  exact Option.or_none

/-- Code that gets through to its return gives what it leaves in `rax` and in the host, or the
reason why the host refused to print. -/
theorem Compiled.exists_run_of_wp {operations : List Operation} {hasResult : Bool}
    {region : Region} {sink : Sink} {post : Processor → PrintContext → Prop}
    (hregion : (({} : CodeBuffer).emit (Operation.encodeAll (operations ++ [.ret]))).finalize
      platform.paging = .ok region)
    (h : Wp platform.handler operations post platform.entry { sink }) :
    ∃ cpu after, post cpu after ∧
      Compiled.run platform ⟨region, Operation.encodeAll (operations ++ [.ret]), hasResult⟩ sink =
        match after.refused with
        | some reason => (.error (.output reason), after.sink)
        | none =>
          (.ok (if hasResult then (cpu.registers .rax).toInt64 else after.lastPrinted.getD 0),
            after.sink) := by
  obtain ⟨cpu, after, hexecute, hlast⟩ := h
  obtain ⟨⟨rest, hbytes⟩, hgives⟩ := CodeBuffer.finalize_emit hregion
  have hcode : region.bytes.drop 0 =
      Operation.encodeAll operations ++ (Operation.ret.encode ++ rest) := by
    rw [List.drop_zero, hbytes, Operation.encodeAll, List.flatMap_append, List.append_assoc]
    rfl
  -- Every operation takes at least a byte, so the length of the code bounds the steps.
  have hsteps : operations.length < (Operation.encodeAll (operations ++ [.ret])).length := by
    have hle := Operation.length_le_encodeAll (operations ++ [.ret])
    rw [List.length_append, List.length_singleton] at hle
    exact hle
  refine ⟨cpu, after, hlast, ?_⟩
  rw [Compiled.run]
  simp only [hgives, Bool.not_true, Bool.false_eq_true, if_false]
  rw [runCode_encodeAll hexecute hcode hsteps]
  rfl

/-- Code that gets through to its return, with a host that refused nothing. -/
theorem Compiled.run_of_wp {operations : List Operation} {hasResult : Bool} {region : Region}
    {sink : Sink} {post : Processor → PrintContext → Prop}
    (hregion : (({} : CodeBuffer).emit (Operation.encodeAll (operations ++ [.ret]))).finalize
      platform.paging = .ok region)
    (h : Wp platform.handler operations post platform.entry { sink })
    (hpost : ∀ cpu after, post cpu after → after.refused = none) :
    ∃ cpu after, post cpu after ∧
      Compiled.run platform ⟨region, Operation.encodeAll (operations ++ [.ret]), hasResult⟩ sink =
        (.ok (if hasResult then (cpu.registers .rax).toInt64 else after.lastPrinted.getD 0),
          after.sink) := by
  obtain ⟨cpu, after, hlast, hrun⟩ := exists_run_of_wp hregion h
  rw [hpost cpu after hlast] at hrun
  exact ⟨cpu, after, hlast, hrun⟩

end StackMachine.Native

namespace StackMachine.Machine

/-- The number that a run gives: the value on top of the stack at its end, else the last value
printed, else zero. -/
def resultOf (states : List Machine) (final : Machine) : Int64 :=
  ((final.stack.head?.or (states.filterMap printing?).getLast?).map Value.toInt64).getD 0

section Execute

variable {m after : Machine} {runner : Runner} {steps : Nat}

/-- A native run that gives an outcome is the whole run. -/
theorem executeWith_of_some {outcome : Outcome Unit} (hprogram : m.program ≠ [])
    (h : m.runNative = (some outcome, after)) : executeWith runner steps m = (outcome, after) := by
  have hempty : m.program.isEmpty = false := List.isEmpty_eq_false_iff.mpr hprogram
  simp only [executeWith, hempty, h]
  rfl

/-- Else the program is interpreted from its first instruction. -/
theorem executeWith_of_none (hprogram : m.program ≠ []) (h : m.runNative = (none, after)) :
    executeWith runner steps m = runSteps runner steps after.start := by
  have hempty : m.program.isEmpty = false := List.isEmpty_eq_false_iff.mpr hprogram
  simp only [executeWith, hempty, h]
  rfl

/-- Without native mode nothing is run natively. -/
theorem runNative_of_off (h : m.settings.nativeMode.attempts = false) :
    m.runNative = (none, m) := by
  simp only [runNative, h]
  rfl

/-- Without native mode a program is interpreted. -/
theorem execute_eq_runSteps (hprogram : m.program ≠ [])
    (hmode : m.settings.nativeMode.attempts = false) (steps : Nat) :
    m.execute steps = runSteps (m.innerRunner steps) steps m.start :=
  executeWith_of_none hprogram (runNative_of_off hmode)

end Execute

/-- A run that went well only fails if the flush does. -/
theorem complete_of_flush {m : Machine} (h : m.output.flush.1 = .ok ()) :
    m.complete.1 = .done () := by
  simp only [complete, finish, h]

end StackMachine.Machine

namespace StackMachine.Native

open Machine (resultOf)

/-- The result of compiled code is the number that the run gives. -/
theorem Draft.Tracks.result_eq {last : Draft} {final : Machine} {states : List Machine}
    (h : last.Tracks final) :
    (if !last.stack.isEmpty then ((last.stack.map Known.word).head?.getD 0).toUInt64.toInt64
      else (((states.filterMap Machine.printing?).getLast?).map Value.toInt64).getD 0) =
      resultOf states final := by
  cases hstack : last.stack with
  | nil =>
    rw [resultOf, h.stack_nil hstack]
    rfl
  | cons known rest =>
    obtain ⟨value, values, hvalues, hknown, -⟩ := h.top hstack
    rw [resultOf, hvalues]
    exact (Known.toInt64_of_ofValue? hknown).symm

/-- On a stream that accepts every write the interpreter executes each instruction of a compiled
program once, and changes nothing but its position, the values and the stream. The code leaves the
same text on the stream and gives the number that the run gives. -/
theorem Compiled.exists_run {order : Nat → List Nat} {platform : Platform} {program : Program}
    {operations : List Operation} {hasResult : Bool} {region : Region} {m : Machine}
    (horder : ∀ count, (order count).Perm (List.range count))
    (hassemble : assembleIn order platform.printAddress program = .ok (operations, hasResult))
    (hregion : (({} : CodeBuffer).emit (Operation.encodeAll operations)).finalize
      platform.paging = .ok region)
    (hstack : platform.HasStack program) (haccepts : m.output.Accepts) :
    ∃ states final left,
      (∀ runner, Machine.Trace runner ({ m with program }.reset).start states final) ∧
      states.length = program.length ∧ final.canStep = false ∧
      final = { ({ m with program }.reset).start with
        pc := program.length
        stack := final.stack
        bindings := final.bindings
        output := final.output } ∧
      Compiled.run platform ⟨region, Operation.encodeAll operations, hasResult⟩ m.output =
        (.ok (resultOf states final), left) ∧ left.SameText final.output := by
  obtain ⟨hplaces, code, last, hcode, rfl, rfl⟩ := assembleIn_ok hassemble
  obtain ⟨states, final, haccompanies, hlength⟩ := Draft.accompanies_instructions
    (nodup_slotNames program) hcode (Draft.tracks_start m program) haccepts rfl rfl
  have hsame := haccompanies.same
  have hpc : ({ m with program }.reset).start.pc + states.length = program.length :=
    (Nat.zero_add _).trans hlength
  rw [hpc] at hsame
  -- One state for each instruction: the run ends behind the last one.
  have hstop : final.canStep = false := by
    rw [hsame, Machine.canStep]
    simp [Machine.start, Machine.reset]
  rw [epilogue_eq, ← List.append_assoc] at hregion ⊢
  obtain ⟨cpu, after, ⟨hrax, hsink, -, hlast⟩, hrun⟩ := Compiled.run_of_wp hregion
    (wp_assembled (.refl _) hstack hplaces (horder _) haccompanies)
    fun cpu after hpost => hpost.2.2.1
  rw [hrax, hlast] at hrun
  refine ⟨states, final, after.sink, haccompanies.trace, hlength, hstop, hsame, hrun.trans ?_,
    hsink⟩
  rw [haccompanies.tracks.result_eq]

/-- A compiled program agrees with the interpreter. Whatever the order in which the variables are
cleared, on a stream that accepts every write the interpreter comes to the end of the program from
the state after loading, and running the code leaves the same text on the stream and gives the
number that the run gives. The only fault that is left to the interpreter is a refused flush at the
very end. -/
theorem Compiled.run_eq_interpreted {order : Nat → List Nat} {platform : Platform}
    {program : Program} {operations : List Operation} {hasResult : Bool} {region : Region}
    {m : Machine} (horder : ∀ count, (order count).Perm (List.range count))
    (hassemble : assembleIn order platform.printAddress program = .ok (operations, hasResult))
    (hregion : (({} : CodeBuffer).emit (Operation.encodeAll operations)).finalize
      platform.paging = .ok region)
    (hstack : platform.HasStack program) (haccepts : m.output.Accepts) :
    ∃ states final,
      (∀ runner, Machine.Trace runner ({ m with program }.reset).start states final) ∧
      (∀ runner steps, program.length ≤ steps →
        Machine.runSteps runner steps ({ m with program }.reset).start = final.complete) ∧
      (program ≠ [] → m.settings.nativeMode.attempts = false → ∀ steps, program.length ≤ steps →
        ({ m with program }.reset).execute steps = final.complete) ∧
      (final.output.flush.1 = .ok () → final.complete.1 = .done ()) ∧
      ∃ left, Compiled.run platform ⟨region, Operation.encodeAll operations, hasResult⟩ m.output =
          (.ok (resultOf states final), left) ∧ left.SameText final.output := by
  obtain ⟨states, final, left, htrace, hlength, hstop, -, hrun, hsame⟩ :=
    Compiled.exists_run horder hassemble hregion hstack haccepts
  have hcomplete : ∀ runner steps, program.length ≤ steps →
      Machine.runSteps runner steps ({ m with program }.reset).start = final.complete := by
    intro runner steps hsteps
    exact Machine.runSteps_of_trace (htrace runner) hstop (hlength ▸ hsteps)
  refine ⟨states, final, htrace, hcomplete, ?_, Machine.complete_of_flush, left, hrun, hsame⟩
  intro hprogram hmode steps hsteps
  refine (Machine.execute_eq_runSteps (m := { m with program }.reset) hprogram hmode
    steps).trans ?_
  exact hcomplete _ steps hsteps

/-- Prints a product that goes through a variable, and leaves a truth value. -/
def product : Program :=
  [{ opcode := .push, operands := [], literal := some (.int 6), line := 1 },
    { opcode := .push, operands := [], literal := some (.int 7), line := 2 },
    { opcode := .binaryOp, operands := ["*"], line := 3 },
    { opcode := .store, operands := ["x"], line := 4 },
    { opcode := .load, operands := ["x"], line := 5 },
    { opcode := .print, operands := [], line := 6 },
    { opcode := .push, operands := [], literal := some (.bool true), line := 7 }]

theorem Compiled.run_eq_interpreted_product :
    ∃ operations hasResult region states final,
      assembleIn (fun count => (List.range count).reverse) 0 product = .ok (operations, hasResult) ∧
      (({} : CodeBuffer).emit (Operation.encodeAll operations)).finalize {} = .ok region ∧
      ({ ({} : Machine) with program := product }.reset).execute 7 = Machine.complete final ∧
      ∃ left, Compiled.run {} ⟨region, Operation.encodeAll operations, hasResult⟩
          ({} : Machine).output = (.ok (resultOf states final), left) ∧
        left.SameText final.output := by
  have horder : ∀ count, (List.range count).reverse.Perm (List.range count) :=
    fun count => List.reverse_perm _
  have hsmall : (assembleIn (fun count => (List.range count).reverse) 0 product).toOption.any
      (fun assembled => decide (0 < (Operation.encodeAll assembled.1).length ∧
        (Operation.encodeAll assembled.1).length < 4096)) = true := by decide +kernel
  obtain ⟨operations, hasResult, hassemble⟩ : ∃ operations hasResult,
      assembleIn (fun count => (List.range count).reverse) 0 product =
        .ok (operations, hasResult) := ⟨_, _, rfl⟩
  rw [hassemble] at hsmall
  obtain ⟨hpos, hlt⟩ : 0 < (Operation.encodeAll operations).length ∧
    (Operation.encodeAll operations).length < 4096 := of_decide_eq_true hsmall
  have hpage : ({} : Paging).pageSize = 4096 := rfl
  have hmaps : ({} : Paging).maps
      (({} : Paging).roundUp (Operation.encodeAll operations).length) = true := by
    rw [Paging.roundUp, hpage]
    apply decide_eq_true
    omega
  obtain ⟨region, hregion⟩ := CodeBuffer.exists_finalize_emit (List.length_pos_iff.mp hpos)
    (by decide) (by rw [addressSpace, hpage]; omega) hmaps fun _ => rfl
  have hplatform : ({} : Platform).HasStack product := ⟨by decide, by decide⟩
  obtain ⟨states, final, -, -, hexecute, -, hrun⟩ := run_eq_interpreted (m := {}) horder
    (show assembleIn _ ({} : Platform).printAddress product = _ from hassemble) hregion hplatform
    fun _ _ _ => rfl
  exact ⟨operations, hasResult, region, states, final, hassemble, hregion,
    hexecute (List.cons_ne_nil _ _) rfl 7 (Nat.le_refl _), hrun⟩

end StackMachine.Native
