import StackMachine.Proofs.Native.Correctness

/-!
# What compiled code prints

What a compiled program prints is known when it is compiled: the values are constants and there are
no branches. On any stream, also on one that refuses some of the writes, the native run makes the
writes of these lines one after the other up to the first that is refused.

## Main definitions

* `PrintedLine.writes`: the writes that compiled code makes for a line.
* `Native.Draft.printed`: the lines that a program prints.
* `Native.Draft.IsSound`: some machine is as the compiler knows it.

## Main results

* `Native.Draft.height_le`: a program puts at most one value on the stack at each instruction.
* `Native.Draft.wp_instructions`: the code of a program gets through, whatever the stream refuses.
* `Native.wp_prints`: from its entry to its return a compiled program prints its lines.
-/

namespace StackMachine

/-- A line that a program prints, with the source line of the instruction that prints it. -/
structure PrintedLine where
  /-- The texts in which compiled code writes it. -/
  texts : List String
  /-- The source line. -/
  source : Nat

/-- The text of a line. -/
def PrintedLine.text (line : PrintedLine) : String := String.join line.texts

/-- The writes that compiled code makes for a line. -/
def PrintedLine.writes (line : PrintedLine) : List String := line.texts ++ ["\n"]

namespace Native

/-! ### The host -/

namespace PrintContext

variable {host after : PrintContext} {lines : List PrintedLine}

/-- The host has made writes, or stopped at the first that was refused. -/
def result (host : PrintContext) : Except String Unit × Sink :=
  match host.refused with
  | none => (.ok (), host.sink)
  | some reason => (.error reason, host.sink)

/-- The host after it was asked to print lines: it stops at the first write that is refused, and
does nothing if one was refused before. -/
structure Delivers (host : PrintContext) (lines : List PrintedLine) (after : PrintContext) :
    Prop where
  fine : host.refused = none →
    after.result = host.sink.putEach (lines.flatMap PrintedLine.writes)
  stopped : host.refused ≠ none → after.result = host.result

theorem delivers_nil (host : PrintContext) : host.Delivers [] host where
  fine h := by
    rw [result, h]
    rfl
  stopped _ := rfl

/-- One line in front of others. -/
theorem Delivers.cons {known : Known} {source : Nat}
    (h : (host.afterPrint (some known)).Delivers lines after) :
    host.Delivers (⟨printedTexts known.word known.printKind, source⟩ :: lines) after := by
  have hprint : host.afterPrint (some known) =
      { host.print known.word known.printKind with calls := host.calls + 1 } := rfl
  rw [hprint] at h
  constructor
  -- Nothing was refused before, and this line is tried.
  · intro hfine
    have htried : ¬ host.refused.isSome = true := by simp [hfine]
    rw [List.flatMap_cons, Sink.putEach_append, PrintedLine.writes]
    rcases hsink : host.sink.putEach (printedTexts known.word known.printKind ++ ["\n"]) with
      ⟨reason | _, sink⟩
    · simp only [print, if_neg htried, hsink] at h
      exact h.stopped (Option.some_ne_none reason)
    · simp only [print, if_neg htried, hsink] at h
      exact h.fine hfine
  -- A line was refused before, and this one is not tried.
  · intro hstopped
    have hsome : host.refused.isSome = true := Option.isSome_iff_ne_none.mpr hstopped
    rw [print, if_pos hsome] at h
    exact h.stopped hstopped

end PrintContext

/-! ### What the compiler knows -/

namespace Draft

/-- What is known about the value that an instruction prints, if it prints one. -/
def printing? (draft : Draft) (instruction : Instruction) : Option Known :=
  if instruction.opcode = .print then draft.stack.head? else none

/-- The lines that instructions print. -/
def printed (draft : Draft) (slots : List String) (address : Int64) :
    Program → (pc : Nat) → List PrintedLine
  | [], _ => []
  | first :: rest, pc =>
    let more := match draft.instruction slots address first pc with
      | .ok (_, next) => next.printed slots address rest (pc + 1)
      | .error _ => []
    match draft.printing? first with
    | some known => ⟨printedTexts known.word known.printKind, first.line⟩ :: more
    | none => more

/-- Some machine is as a draft says. -/
def IsSound (draft : Draft) : Prop := ∃ m : Machine, m.output.Accepts ∧ draft.Tracks m

variable {platform : Platform} {slots : List String} {draft next last : Draft}
  {code : List Operation} {instruction : Instruction} {m : Machine} {rest : Program} {pc : Nat}

/-- What is printed is what is known about the top of the stack. -/
theorem Tracks.printing?_eq (h : draft.Tracks m) (instruction : Instruction) :
    (instruction.printed? m.stack).bind Known.ofValue? = draft.printing? instruction := by
  rw [Instruction.printed?, printing?]
  split
  next =>
    have hmap := congrArg List.head? h.stack
    rw [List.head?_map, List.head?_map] at hmap
    cases hstack : m.stack.head? <;> cases hknown : draft.stack.head? <;> simp_all
  next => rfl

/-- On entry nothing is known but that every variable is zero. -/
theorem isSound_start : IsSound {} :=
  ⟨({ ({} : Machine) with program := [] }.reset).start, fun _ _ _ => rfl, tracks_start {} []⟩

/-- The code of an instruction does what is known about it. -/
theorem IsSound.emit (hsound : draft.IsSound) (hnodup : slots.Nodup)
    (h : draft.instruction slots platform.printAddress instruction pc = .ok (code, next)) :
    next.IsSound ∧ Carries platform slots (draft.printing? instruction) code draft next ∧
      next.stack.length ≤ draft.stack.length + 1 := by
  -- Any machine that is as the draft says will do, so one whose stream accepts everything is taken.
  obtain ⟨m, haccepts, htracks⟩ := hsound
  obtain ⟨after, -, htracks', hafter, hcarries, hlength⟩ :=
    agrees_instruction hnodup (fun value _ => haccepts.putLine_fst value.text) h htracks
  rw [htracks.printing?_eq] at hcarries
  have haccepts' : after.output.Accepts := by
    rw [hafter]
    exact haccepts.afterPrint _
  exact ⟨⟨after, haccepts', htracks'⟩, hcarries, hlength⟩

/-- Each instruction puts at most one value on the stack. -/
theorem height_le (hnodup : slots.Nodup) (hsound : draft.IsSound) :
    draft.height slots platform.printAddress rest pc ≤ draft.stack.length + rest.length := by
  induction rest generalizing draft pc with
  | nil => exact Nat.le_refl _
  | cons instruction rest ih =>
    rw [height, List.length_cons]
    split
    next next hfirst =>
      obtain ⟨hsound', -, hlength⟩ := hsound.emit hnodup hfirst
      have hrest : next.height slots platform.printAddress rest (pc + 1) ≤
          next.stack.length + rest.length := ih hsound'
      omega
    next => omega

/-- The code of a program gets through on any stream: it takes the frame to what is known at the
end, and prints what is known to be printed. -/
theorem wp_instructions (hnodup : slots.Nodup) (hsound : draft.IsSound)
    (h : draft.instructions slots platform.printAddress rest pc = .ok (code, last))
    {layout : Layout} {cpu : Processor} {host : PrintContext}
    (hentry : layout.entry = platform.entry) (hslots : layout.slotCount = slots.length)
    (hroom : draft.height slots platform.printAddress rest pc ≤ layout.depth)
    (hframe : draft.InFrame layout slots cpu) :
    Wp platform.handler code (fun cpu after => last.InFrame layout slots cpu ∧
      host.Delivers (draft.printed slots platform.printAddress rest pc) after) cpu host := by
  -- The host is handed on from one instruction to the next, whatever it has refused.
  induction rest generalizing draft pc code cpu host with
  | nil =>
    cases h
    exact Wp.nil ⟨hframe, host.delivers_nil⟩
  | cons instruction rest ih =>
    rw [instructions] at h
    obtain ⟨⟨operations, next⟩, hfirst, h⟩ := exists_of_bind_eq_ok h
    obtain ⟨⟨more, last⟩, hmore, h⟩ := exists_of_bind_eq_ok h
    cases h
    obtain ⟨hsound', hcarries, -⟩ := hsound.emit hnodup hfirst
    have hheight := Nat.le_trans (height_next_le hfirst) hroom
    refine Wp.append ((hcarries hentry hslots (Nat.le_trans length_le_height hheight)
      hframe).mono ?_)
    rintro middle _ ⟨hmiddle, rfl⟩
    refine (ih hsound' hmore hheight hmiddle).mono ?_
    rintro cpu after ⟨hcpu, hdelivers⟩
    refine ⟨hcpu, ?_⟩
    simp only [printed, hfirst]
    split
    next known hknown =>
      rw [hknown] at hdelivers
      exact hdelivers.cons
    next hnone =>
      rw [hnone] at hdelivers
      exact hdelivers

end Draft

/-- Two words for each instruction, and a few more, are room enough for any program. -/
theorem Platform.hasStack_of_length {platform : Platform} {program : Program}
    (hlow : (platform.entry.registers .rsp).toNat < 0x800000000000)
    (hroom : 16 * (program.length + 8) ≤ (platform.entry.registers .rsp).toNat) :
    platform.HasStack program where
  entry_lt := hlow
  room := by
    have hslots := length_slotNames_le program
    have hheight : Draft.height {} (slotNames program) platform.printAddress program 0 ≤
        ([] : List Known).length + program.length :=
      Draft.height_le (nodup_slotNames program) Draft.isSound_start
    rw [List.length_nil] at hheight
    rw [stackNeed]
    omega

/-- The lines that a compiled program prints. -/
def printedLines (platform : Platform) (program : Program) : List PrintedLine :=
  Draft.printed {} (slotNames program) platform.printAddress program 0

/-- The operations of a program print its lines, whatever the stream refuses. -/
theorem wp_prints {order : Nat → List Nat} {platform : Platform} {program : Program}
    {code : List Operation} {last : Draft}
    (horder : ∀ count, (order count).Perm (List.range count)) (hstack : platform.HasStack program)
    (hplaces : 8 * (slotNames program).length + 48 ≤ 0x80000000)
    (hcode : Draft.instructions {} (slotNames program) platform.printAddress program 0 =
      .ok (code, last)) (host : PrintContext) :
    Wp platform.handler
      (prologue (slotNames program).length (order (slotNames program).length) ++ code ++
        (epilogue (!last.stack.isEmpty)).dropLast)
      (fun _ after => host.Delivers (printedLines platform program) after) platform.entry host := by
  rw [List.append_assoc]
  refine Wp.append (((Layout.forProgram hstack hplaces).wp_prologue (horder _)).mono ?_)
  rintro entered _ ⟨hentered, rfl⟩
  refine Wp.append ((Draft.wp_instructions (nodup_slotNames program) Draft.isSound_start hcode rfl
    rfl (Nat.le_refl _) (Draft.inFrame_start _ hentered)).mono ?_)
  rintro executed after ⟨hexecuted, hdelivers⟩
  -- The epilogue prints nothing.
  have hisEmpty : last.stack.isEmpty = (last.stack.map Known.word).isEmpty := List.isEmpty_map.symm
  rw [hisEmpty]
  refine (Layout.wp_epilogue hexecuted).mono ?_
  rintro left _ ⟨-, rfl⟩
  exact hdelivers

end Native

end StackMachine
