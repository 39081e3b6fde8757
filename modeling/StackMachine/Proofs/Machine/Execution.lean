import StackMachine.Proofs.Machine.Coupling

/-!
# Instructions, walked through once

Instructions keep machines together if the basic changes that they are made of do. Some of these
changes are only made by some instructions: those of blocks, jumps and functions change where the
machine is in its program, others ask for memory or files, and one collects.

## Main definitions

* `Instruction.isSimple`: the instruction has nothing to do with blocks, jumps and functions.
* `Instruction.acquires`: it asks for memory or opens a file.
* `Instruction.reach`: how many values it takes from the stack at most.
* `Coupling.ControlLaws`, `Coupling.CollectionLaws` and `Coupling.PositionLaws`: what some
  instructions, and steps, need beyond the basic changes.
* `Coupling.Suits`: all that an instruction needs.

## Main results

* `Coupling.Suits.coupled_execute`: an instruction keeps machines together.
* `Coupling.PositionLaws.ends_step`: so does a step.
-/

namespace StackMachine

/-! ### Lines of faults -/

namespace Value

variable {left right operand : Value} {operator : String} {line : Nat} {fault : Fault}

/-- A product that is too long is refused on the line. -/
theorem onLine_of_repeatList {items : List Value} {count : Int64}
    (h : repeatList items count line = .error fault) : ∃ cause, fault = .onLine cause line := by
  unfold repeatList at h
  dsimp only at h
  split at h
  · cases h
  · split at h
    · cases h
      exact ⟨_, rfl⟩
    · cases h

/-- Binary operators fail on the line that they are given. -/
theorem onLine_of_binary (h : binary left right operator line = .error fault) :
    ∃ cause, fault = .onLine cause line := by
  -- Every rule has faults of its own, all of them on the line.
  have hdouble : ∀ x y, doubleOp x y operator line = .error fault →
      ∃ cause, fault = .onLine cause line := by
    intro x y h
    unfold doubleOp at h
    split at h <;> (try split at h) <;> cases h <;> exact ⟨_, rfl⟩
  have hinteger : ∀ a b, integerOp a b operator line = .error fault →
      ∃ cause, fault = .onLine cause line := by
    intro a b h
    unfold integerOp at h
    split at h <;> (try split at h) <;> cases h <;> exact ⟨_, rfl⟩
  have htext : ∀ a b, textOp a b operator line = .error fault →
      ∃ cause, fault = .onLine cause line := by
    intro a b h
    unfold textOp at h
    split at h <;> cases h
    exact ⟨_, rfl⟩
  have hpointer : pointerOp left right operator line = .error fault →
      ∃ cause, fault = .onLine cause line := by
    intro h
    unfold pointerOp at h
    split at h <;> cases h
    exact ⟨_, rfl⟩
  unfold binary at h
  split at h
  · exact hdouble _ _ h
  · split at h
    · exact hinteger _ _ h
    · split at h
      · exact htext _ _ h
      · exact hpointer h
      · exact hpointer h
      · split at h <;> cases h
        exact ⟨_, rfl⟩
      · split at h
        · exact onLine_of_repeatList h
        · cases h
          exact ⟨_, rfl⟩
      · split at h <;> cases h
        exact ⟨_, rfl⟩
      · cases h
        exact ⟨_, rfl⟩

/-- So do unary ones. -/
theorem onLine_of_unary (h : unary operand operator line = .error fault) :
    ∃ cause, fault = .onLine cause line := by
  unfold unary at h
  split at h
  · split at h <;> cases h
    exact ⟨_, rfl⟩
  · split at h <;> cases h
    exact ⟨_, rfl⟩

end Value

/-- Reading through a pointer fails on the line that it is given. -/
theorem Instruction.onLine_of_dereference {m : Machine} {pointer : Pointer} {line : Nat}
    {fault : Fault} (h : dereference m pointer line = .error fault) :
    ∃ cause, fault = .onLine cause line := by
  unfold dereference at h
  split at h
  · cases h
    exact ⟨_, rfl⟩
  · split at h
    · cases h
      exact ⟨_, rfl⟩
    · split at h <;> cases h

/-! ### Kinds of instructions -/

/-- A built-in function is found under its name. -/
theorem Builtin.name_of_ofName? {text : String} {builtin : Builtin}
    (h : ofName? text = some builtin) : builtin.name = text := by
  rw [ofName?] at h
  have hfound := List.find?_some h
  exact beq_iff_eq.mp hfound

namespace Instruction

/-- Whether the instruction calls a function that the program defines. -/
def callsDefined (instruction : Instruction) : Bool :=
  instruction.opcode = .call &&
    match instruction.operand? with
    | some operand => (Builtin.ofName? (Text.before (· == '(') operand)).isNone
    | none => false

/-- Whether the instruction has nothing to do with blocks, jumps and functions of the program. -/
def isSimple (instruction : Instruction) : Bool :=
  instruction.opcode ∉
      [.ifBegin, .elseBegin, .endBlock, .whileBegin, .breakLoop, .goto, .func, .ret] &&
    !instruction.callsDefined

/-- Whether the instruction asks for memory or opens a file. -/
def acquires (instruction : Instruction) : Bool :=
  instruction.opcode ∈ [.ptrNew, .gcNew, .memMalloc] ||
    (instruction.opcode = .call &&
      instruction.operand?.any fun operand => Text.before (· == '(') operand ∈ ["new", "open"])

/-- How many values an instruction takes from the stack at most, or looks at. -/
def reach (instruction : Instruction) : Nat :=
  match instruction.opcode with
  | .binaryOp => 2
  | .store | .pop | .call | .ret | .ifBegin | .whileBegin | .print | .unaryOp | .ptrNew
  | .ptrDeref | .throwFault | .gcNew | .gcDelete | .memMalloc | .memFree => 1
  | _ => 0

theorem reach_le_two (instruction : Instruction) : instruction.reach ≤ 2 := by
  rw [reach]
  split <;> decide

variable {instruction : Instruction} {P : Pointer → Prop}

/-- A value that is loaded is a literal or the value of a variable. -/
theorem all_loaded? {bindings : Variables} (hbindings : ∀ entry ∈ bindings, entry.2.All P)
    (hliteral : ∀ value, instruction.literal = some value → value.All P) {value : Value}
    (hloaded : instruction.loaded? bindings = some value) : value.All P := by
  unfold loaded? at hloaded
  cases hread : instruction.literal with
  | some literal =>
    rw [hread] at hloaded
    obtain rfl := Option.some.inj hloaded
    exact hliteral _ hread
  | none =>
    rw [hread] at hloaded
    obtain ⟨text, -, rfl⟩ := Option.map_eq_some_iff.mp hloaded
    refine Value.all_readLiteral?_getD ?_
    cases hfound : Entries.find? text bindings with
    | none => exact .of_isPlain rfl
    | some value => exact hbindings _ (Entries.mem_of_find? hfound)

/-- A value that is pushed is a literal. -/
theorem all_pushed? (hliteral : ∀ value, instruction.literal = some value → value.All P)
    {value : Value} (hpushed : instruction.pushed? = some value) : value.All P := by
  unfold pushed? at hpushed
  cases hread : instruction.literal with
  | some literal =>
    rw [hread] at hpushed
    obtain rfl := Option.some.inj hpushed
    exact hliteral _ hread
  | none =>
    rw [hread] at hpushed
    obtain ⟨text, -, rfl⟩ := Option.map_eq_some_iff.mp hpushed
    exact Value.all_readLiteral?_getD (.of_isPlain rfl)

/-- What an allocation gives is a pointer that is made there. -/
theorem all_allocated (hclosed : Pointer.Closed P) (instruction : Instruction) (target : Target)
    (tag : String) : (instruction.allocated target tag).All P := by
  unfold allocated
  split
  · exact .of_pointer (hclosed.plain target tag true)
  · split
    · refine .of_pointer ?_
      cases hmade : Pointer.reference? target tag with
      | none => exact hclosed.plain target tag false
      | some p => exact hclosed.reference hmade
    · exact .of_pointer (hclosed.plain target tag false)

/-- Only managed objects hold values, and these are plain. -/
theorem isPlain_dereference {m : Machine} {pointer : Pointer} {line : Nat} {value : Value}
    (h : dereference m pointer line = .ok value) : value.isPlain = true := by
  unfold dereference at h
  split at h
  · cases h
  · split at h
    · cases h
    · split at h
      next id _ =>
        cases h
        cases m.objects.get? id with
        | none => rfl
        | some object =>
          simp only [Option.map_some, Option.getD_some, ManagedObject.load]
          split
          · rfl
          · split
            · rfl
            · split <;> rfl
      next =>
        cases h
        rfl

end Instruction

namespace Machine

/-- A collection changes nothing but the collector, the allocator and the diagnostics. -/
theorem collectGarbage_frame (m : Machine) :
    ∃ collector allocator log, m.collectGarbage.2 = { m with collector, allocator, log } := by
  unfold collectGarbage
  split
  · exact ⟨m.collector, m.allocator, m.log, rfl⟩
  · dsimp only
    split
    · exact ⟨_, _, _, rfl⟩
    · exact ⟨_, _, m.log, rfl⟩

end Machine

namespace Coupling

variable {C : Coupling} {α : Type} {before own : Nat} {m n : Machine} {runner other : Runner}
  {instruction : Instruction}

/-! ### Laws for some instructions -/

/-- Changes of where a machine is in its program keep machines together. -/
structure ControlLaws (C : Coupling) : Prop where
  /-- The programs are the same. -/
  program {own : Nat} {m n : Machine} : C.rel own m n → n.program = m.program
  /-- So are the loops. -/
  loops {own : Nat} {m n : Machine} : C.rel own m n → n.loops = m.loops
  /-- So are the functions. -/
  functions {own : Nat} {m n : Machine} : C.rel own m n → n.functions = m.functions
  /-- Entering and leaving loops. -/
  setLoops {own : Nat} {m n : Machine} {loops : List Nat} : C.rel own m n →
    C.rel own { m with loops } { n with loops }
  /-- Defining a function. -/
  define {own : Nat} {m n : Machine} {name : String} {pc : Nat} : C.rel own m n →
    C.rel own
      { m with functions := Entries.insert name pc m.functions, scopes := m.scopes + 1 }
      { n with functions := Entries.insert name pc n.functions, scopes := n.scopes + 1 }
  /-- Calling a function. -/
  enter {own : Nat} {m n : Machine} {name : String} : C.rel own m n →
    C.rel own { m with scopes := m.scopes + 1, overlay := m.overlay.enterCall name }
      { n with scopes := n.scopes + 1, overlay := n.overlay.enterCall name }
  /-- Returning from it. -/
  leave {own : Nat} {m n : Machine} : C.rel own m n →
    C.rel own
      { m with
        scopes := if 1 < m.scopes then m.scopes - 1 else m.scopes
        overlay := m.overlay.exitCall }
      { n with
        scopes := if 1 < n.scopes then n.scopes - 1 else n.scopes
        overlay := n.overlay.exitCall }

/-- Collections keep machines together. -/
def CollectionLaws (C : Coupling) : Prop :=
  ∀ {own : Nat} {m n : Machine}, C.rel own m n →
    n.collectGarbage.1 = m.collectGarbage.1 ∧ C.rel own m.collectGarbage.2 n.collectGarbage.2

/-- All that an instruction needs to keep machines together. -/
structure Suits (C : Coupling) (runner other : Runner) (instruction : Instruction) : Prop where
  /-- The basic changes. -/
  laws : C.Laws runner other instruction.line
  /-- The pointers of its literal. -/
  literal (value : Value) : instruction.literal = some value → C.Passes value
  /-- Blocks, jumps and functions. -/
  control : instruction.isSimple = false → C.ControlLaws
  /-- Memory and files. -/
  acquisition : instruction.acquires = true → C.AcquisitionLaws
  /-- Collections. -/
  collection : instruction.opcode = .gcRun → C.CollectionLaws

namespace Laws

variable {line : Nat} (laws : C.Laws runner other line)

include laws

/-- The result of a computation, or a failure on the line. -/
theorem coupled_ofResult {result : Except Fault Value}
    (hok : ∀ value, result = .ok value → C.Passes value)
    (herror : ∀ fault, result = .error fault → ∃ cause, fault = .onLine cause line) :
    C.Coupled before (Instruction.ofResult result) (Instruction.ofResult result) before
      C.Passes := by
  cases result with
  | ok value => exact coupled_pure (hok value rfl)
  | error fault =>
    obtain ⟨cause, rfl⟩ := herror fault rfl
    exact laws.coupled_fail cause

/-- Storing copies a value, or turns a reference to another target. -/
theorem coupled_storeIn (name : String) {value : Value} (h : C.Passes value) :
    C.Coupled before (Instruction.storeIn name value line) (Instruction.storeIn name value line)
      before fun _ => True := by
  refine coupled_get_bind fun m n hrel => ?_
  obtain ⟨hsame, hbindings⟩ := laws.bindings hrel
  have hstored : ∀ other : Value, C.Passes other → C.Coupled before
      (set { m with bindings := Entries.insert name other m.bindings } : Effect Unit)
      (set { n with bindings := Entries.insert name other n.bindings } : Effect Unit) before
      fun _ => True :=
    fun other hother _ _ _ => .ok trivial (laws.store hrel hother)
  dsimp only
  rw [hsame] at hstored ⊢
  split
  next existing new hfound =>
    split
    -- Of the pointer on the stack only the target is taken over, which may be anything.
    · split
      next rebound hrebound =>
        have hexisting := hbindings _ (Entries.mem_of_find? hfound)
        exact hstored _ (.of_pointer (laws.pointers.rebound hexisting.pointer hrebound))
      next => exact laws.coupled_fail _
    · exact hstored _ h
  next => exact hstored _ h

theorem coupled_jumpBehind (position : Option Nat) (cause : Cause) :
    C.Coupled before (Instruction.jumpBehind position (.onLine cause line))
      (Instruction.jumpBehind position (.onLine cause line)) before fun _ => True :=
  (laws.coupled_orFail fun _ _ => trivial).bind fun _ _ => coupled_pure trivial

/-- A request looks at the heap limit and pushes what it makes of what it got. -/
theorem coupled_request (hacquires : C.AcquisitionLaws) (hline : instruction.line = line)
    {create : Effect (Option α)} {size : Nat} (hcreate : C.Grants create size) {cause : Cause}
    {result : α → Value} (hresult : ∀ a, C.Passes (result a)) :
    C.Coupled before (instruction.request create size cause result)
      (instruction.request create size cause result) 0 (· = .next) := by
  subst hline
  intro m n hrel
  obtain ⟨hbytes, hlimit⟩ := hacquires.heap hrel
  have hfits : n.fitsHeapLimit size = m.fitsHeapLimit size := by
    rw [Machine.fitsHeapLimit, Machine.fitsHeapLimit, hbytes, hlimit]
  rw [Instruction.request, Effect.run_bind, Effect.run_bind, Effect.run_checkHeapLimit,
    Effect.run_checkHeapLimit, hfits, hbytes, hlimit]
  by_cases hm : m.fitsHeapLimit size = true
  · rw [if_pos hm, if_pos hm]
    refine (hcreate hrel hm).bind fun granted _ => ?_
    refine (laws.coupled_orFail fun _ _ => trivial).bind fun a _ => ?_
    exact (laws.coupled_weaken (laws.coupled_push (hresult a)) (Nat.zero_le _)).bind fun _ _ =>
      coupled_pure rfl
  · rw [if_neg hm, if_neg hm]
    exact .error (laws.fault _) (laws.toZero hrel)

end Laws

/-! ### Instructions -/

namespace Suits

variable (h : C.Suits runner other instruction) {pc : Nat}

include h

/-- What an instruction ends with: one that is simple goes on to the next. -/
theorem coupled_next :
    C.Coupled before (pure Flow.next) (pure Flow.next) 0
      fun flow => instruction.isSimple = true → flow = .next :=
  h.laws.coupled_weaken (coupled_pure fun _ => rfl) (Nat.zero_le before)

/-- What an instruction ends with that pushes its result. -/
theorem coupled_push_next {value : Value} (hvalue : C.Passes value) :
    C.Coupled before (do Effect.push value; return Flow.next)
      (do Effect.push value; return Flow.next) 0
      fun flow => instruction.isSimple = true → flow = .next :=
  (h.laws.coupled_push hvalue).bind fun _ _ => h.coupled_next

/-- What an instruction ends with that jumps. -/
theorem coupled_jump (hsimple : instruction.isSimple = false) (position : Option Nat)
    (cause : Cause) :
    C.Coupled before (Instruction.jumpBehind position (instruction.fault cause))
      (Instruction.jumpBehind position (instruction.fault cause)) 0
      fun flow => instruction.isSimple = true → flow = .next := by
  refine h.laws.coupled_weaken (fun m n hrel => ?_) (Nat.zero_le before)
  exact (h.laws.coupled_jumpBehind position cause m n hrel).imp fun _ _ hother => by
    rw [hsimple] at hother
    cases hother

/-- A call hands one argument at most to a built-in function, or puts the position to return to on
the stack. -/
theorem coupled_call (hop : instruction.opcode = .call) :
    C.Coupled 1 (instruction.call runner pc) (instruction.call other pc) 0
      fun flow => instruction.isSimple = true → flow = .next := by
  have hacquires : ∀ operand, instruction.operand? = some operand →
      Text.before (· == '(') operand ∈ ["new", "open"] → C.AcquisitionLaws := by
    intro operand hoperand hname
    refine h.acquisition ?_
    simpa [Instruction.acquires, hop, hoperand] using hname
  have hnamed : C.Coupled 1
      (Effect.orFail instruction.operand? (instruction.fault (.missing "CALL" "function name")))
      (Effect.orFail instruction.operand? (instruction.fault (.missing "CALL" "function name"))) 1
      fun operand => instruction.operand? = some operand :=
    h.laws.coupled_orFail fun _ hoperand => hoperand
  refine hnamed.bind fun operand hoperand => ?_
  dsimp only
  cases hbuiltin : Builtin.ofName? (Text.before (· == '(') operand) with
  | some builtin =>
    have hname := Builtin.name_of_ofName? hbuiltin
    refine h.laws.coupled_pop?.bind fun popped hpopped => ?_
    -- There is no second argument, so files are opened for reading and nothing is written.
    have hsecond : popped.toList[1]? = none := by cases popped <;> rfl
    have hadmits : C.Admits builtin popped.toList := by
      refine ⟨?_, ?_, ?_⟩
      · rintro rfl
        exact hacquires operand hoperand (by rw [← hname]; decide)
      · rintro rfl
        rw [hsecond]
        exact (hacquires operand hoperand (by rw [← hname]; decide)).file
      · intro _ hcontent
        rw [hsecond] at hcontent
        cases hcontent
    refine (h.laws.coupled_call hadmits fun argument hargument =>
      hpopped argument (Option.mem_toList.mp hargument)).bind fun result hresult => ?_
    exact h.coupled_push_next hresult
  | none =>
    have hsimple : instruction.isSimple = false := by
      simp [Instruction.isSimple, Instruction.callsDefined, hop, hoperand, hbuiltin]
    have hcontrol := h.control hsimple
    refine coupled_get_bind fun m n hrel => ?_
    rw [hcontrol.functions hrel]
    refine (h.laws.coupled_orFail fun _ _ => trivial).bind fun entry _ => ?_
    refine (h.laws.coupled_weaken (h.laws.coupled_push (.of_isPlain rfl)) (Nat.zero_le _)).bind
      fun _ _ => ?_
    refine (coupled_modify fun _ _ => hcontrol.enter).bind fun _ _ => coupled_pure fun hother => ?_
    rw [hsimple] at hother
    cases hother

/-- A return looks at the top value, and takes it if it is a position to return to. -/
theorem coupled_returnFrom (hop : instruction.opcode = .ret) :
    C.Coupled 1 Instruction.returnFrom Instruction.returnFrom 0
      fun flow => instruction.isSimple = true → flow = .next := by
  have hsimple : instruction.isSimple = false := by simp [Instruction.isSimple, hop]
  have hcontrol := h.control hsimple
  have hflow : ∀ flow : Flow, instruction.isSimple = true → flow = .next := by simp [hsimple]
  intro m n hrel
  have hhalt : C.Ends 0 (fun flow => instruction.isSimple = true → flow = .next)
      ((pure Flow.halt : Effect Flow).run m) ((pure Flow.halt : Effect Flow).run n) :=
    .ok (hflow _) (h.laws.toZero hrel)
  rw [Instruction.returnFrom, Effect.run_get_bind, Effect.run_get_bind]
  rcases h.laws.pop hrel with ⟨hm, hn⟩ | ⟨value, stack, stack', hm, hn, -, hafter⟩
  · rw [hm, hn]
    exact hhalt
  · rw [hm, hn]
    cases value with
    | int address =>
      have hsame : 0 ≤ address ∧ address.toInt < n.program.length ↔
          0 ≤ address ∧ address.toInt < m.program.length := by rw [hcontrol.program hrel]
      dsimp only
      by_cases hvalid : 0 ≤ address ∧ address.toInt < m.program.length
      · rw [if_pos hvalid, if_pos (hsame.mpr hvalid)]
        exact .ok (hflow _) (hcontrol.leave hafter)
      · rw [if_neg hvalid, if_neg (mt hsame.mp hvalid)]
        exact hhalt
    | _ => exact hhalt

/-- A loop takes its condition. -/
theorem coupled_loop (hop : instruction.opcode = .whileBegin) :
    C.Coupled 1 (instruction.loop pc) (instruction.loop pc) 0
      fun flow => instruction.isSimple = true → flow = .next := by
  have hsimple : instruction.isSimple = false := by simp [Instruction.isSimple, hop]
  have hcontrol := h.control hsimple
  refine (h.laws.coupled_popOr _).bind fun condition _ => ?_
  intro m n hrel
  have hend : Program.endAfter? n.program pc = Program.endAfter? m.program pc := by
    rw [hcontrol.program hrel]
  rw [Effect.run_get_bind, Effect.run_get_bind, hcontrol.loops hrel, hend]
  dsimp only
  split
  · split
    · exact h.coupled_next _ _ (hcontrol.setLoops hrel)
    · exact h.coupled_next _ _ hrel
  · split
    · exact h.coupled_jump hsimple _ _ _ _ (hcontrol.setLoops hrel)
    · exact h.coupled_jump hsimple _ _ _ _ hrel

theorem coupled_leaveLoop (hop : instruction.opcode = .breakLoop) :
    C.Coupled before instruction.leaveLoop instruction.leaveLoop 0
      fun flow => instruction.isSimple = true → flow = .next := by
  have hsimple : instruction.isSimple = false := by simp [Instruction.isSimple, hop]
  have hcontrol := h.control hsimple
  intro m n hrel
  rw [Instruction.leaveLoop, Effect.run_get_bind, Effect.run_get_bind, hcontrol.loops hrel]
  cases m.loops with
  | nil => exact h.coupled_next _ _ hrel
  | cons head loops =>
    have hend : Program.endAfter? n.program head = Program.endAfter? m.program head := by
      rw [hcontrol.program hrel]
    dsimp only
    rw [hend]
    exact h.coupled_jump hsimple _ _ _ _ (hcontrol.setLoops hrel)

/-- The two operands of an operator are there in both machines, or in none. -/
theorem coupled_applyBinary :
    C.Coupled 2 instruction.applyBinary instruction.applyBinary 0
      fun flow => instruction.isSimple = true → flow = .next := by
  have hrest : C.Coupled 2
      (do
        let operator ← Effect.orFail instruction.operand?
          (instruction.fault (.missing "BINARY_OP" "operator"))
        let right ← Effect.popOr (instruction.fault (.underflow "BINARY_OP"))
        let left ← Effect.popOr (instruction.fault (.underflow "BINARY_OP"))
        Effect.push (← Instruction.ofResult (Value.binary left right operator instruction.line))
        return Flow.next : Effect Flow)
      (do
        let operator ← Effect.orFail instruction.operand?
          (instruction.fault (.missing "BINARY_OP" "operator"))
        let right ← Effect.popOr (instruction.fault (.underflow "BINARY_OP"))
        let left ← Effect.popOr (instruction.fault (.underflow "BINARY_OP"))
        Effect.push (← Instruction.ofResult (Value.binary left right operator instruction.line))
        return Flow.next : Effect Flow) 0
      fun flow => instruction.isSimple = true → flow = .next := by
    refine (h.laws.coupled_orFail fun _ _ => trivial).bind fun operator _ => ?_
    refine (h.laws.coupled_popOr _).bind fun right hright => ?_
    refine (h.laws.coupled_popOr _).bind fun left hleft => ?_
    refine (h.laws.coupled_ofResult (fun value => Value.all_binary hleft hright)
      fun fault => Value.onLine_of_binary).bind fun value hvalue => ?_
    exact h.coupled_push_next hvalue
  intro m n hrel
  rw [Instruction.applyBinary, Effect.run_get_bind, Effect.run_get_bind]
  -- The height is checked first, so a single operand is left on the stack by a failure.
  by_cases hshort : m.stack.length < 2
  · rw [if_pos hshort, if_pos ((h.laws.height hrel).mpr hshort)]
    exact h.laws.coupled_fail _ m n hrel
  · rw [if_neg hshort, if_neg (mt (h.laws.height hrel).mp hshort)]
    exact hrest m n hrel

/-- An instruction keeps machines together that have the values which it takes. One that is simple
goes on to the next. -/
theorem coupled_execute (pc : Nat) :
    C.Coupled instruction.reach (instruction.execute runner pc) (instruction.execute other pc) 0
      fun flow => instruction.isSimple = true → flow = .next := by
  cases hopcode : instruction.opcode <;> simp only [Instruction.execute, Instruction.reach, hopcode]
  -- Calls, returns, loops and binary operators have their own lemmas.
  case call => exact h.coupled_call hopcode
  case ret => exact h.coupled_returnFrom hopcode
  case whileBegin => exact h.coupled_loop hopcode
  case breakLoop => exact h.coupled_leaveLoop hopcode
  case binaryOp => exact h.coupled_applyBinary
  -- The stack and the variables.
  case defVar =>
    split
    · exact (coupled_modify fun _ _ hrel => h.laws.store hrel (.of_isPlain rfl)).bind fun _ _ =>
        h.coupled_next
    · exact h.coupled_next
  case load =>
    refine coupled_get_bind fun m n hrel => ?_
    obtain ⟨hsame, hbindings⟩ := h.laws.bindings hrel
    rw [hsame]
    exact (h.laws.coupled_orFail fun _ => Instruction.all_loaded? hbindings h.literal).bind
      fun _ => h.coupled_push_next
  case push =>
    exact (h.laws.coupled_orFail fun _ => Instruction.all_pushed? h.literal).bind
      fun _ => h.coupled_push_next
  case store =>
    refine (h.laws.coupled_popOr _).bind fun value hvalue => ?_
    refine (h.laws.coupled_orFail fun _ _ => trivial).bind fun name _ => ?_
    exact (h.laws.coupled_storeIn name hvalue).bind fun _ _ => h.coupled_next
  case pop => exact (h.laws.coupled_popOr _).bind fun _ _ => h.coupled_next
  case unaryOp =>
    refine (h.laws.coupled_orFail fun _ _ => trivial).bind fun operator _ => ?_
    refine (h.laws.coupled_popOr _).bind fun operand _ => ?_
    exact (h.laws.coupled_ofResult (fun value => Value.all_unary)
      fun fault => Value.onLine_of_unary).bind fun _ => h.coupled_push_next
  case throwFault =>
    refine h.laws.coupled_pop?.bind fun value _ => ?_
    split <;> exact h.laws.coupled_fail _
  -- Blocks and jumps.
  case func =>
    have hcontrol := h.control (by simp [Instruction.isSimple, hopcode])
    split
    · exact (coupled_modify fun _ _ => hcontrol.define).bind fun _ _ => h.coupled_next
    · exact h.coupled_next
  case ifBegin =>
    have hsimple : instruction.isSimple = false := by simp [Instruction.isSimple, hopcode]
    refine (h.laws.coupled_popOr _).bind fun condition _ => ?_
    split
    · exact h.coupled_next
    · refine coupled_get_bind fun m n hrel => ?_
      rw [(h.control hsimple).program hrel]
      exact h.coupled_jump hsimple _ _
  case elseBegin =>
    have hsimple : instruction.isSimple = false := by simp [Instruction.isSimple, hopcode]
    refine coupled_get_bind fun m n hrel => ?_
    rw [(h.control hsimple).program hrel]
    exact h.coupled_jump hsimple _ _
  case goto =>
    have hsimple : instruction.isSimple = false := by simp [Instruction.isSimple, hopcode]
    refine (h.laws.coupled_orFail fun _ _ => trivial).bind fun label _ => ?_
    refine coupled_get_bind fun m n hrel => ?_
    rw [(h.control hsimple).program hrel]
    exact h.coupled_jump hsimple _ _
  case endBlock =>
    have hsimple : instruction.isSimple = false := by simp [Instruction.isSimple, hopcode]
    refine coupled_get_bind fun m n hrel => ?_
    rw [(h.control hsimple).loops hrel, (h.control hsimple).program hrel]
    split
    · split
      · exact h.laws.coupled_weaken (coupled_pure (by simp [hsimple])) (Nat.zero_le _)
      · exact h.coupled_next
    · exact h.coupled_next
  -- The streams.
  case print =>
    refine h.laws.coupled_pop?.bind fun value _ => ?_
    split
    · exact (h.laws.coupled_writeLine _).bind fun _ _ => h.coupled_next
    · exact h.coupled_next
  case input =>
    exact h.laws.coupled_readLine.bind fun _ _ => h.coupled_push_next (.of_isPlain rfl)
  case importModule =>
    split
    · exact (h.laws.coupled_writeLine _).bind fun _ _ => h.coupled_next
    · exact h.coupled_next
  -- Memory.
  case ptrNew =>
    have hacquires := h.acquisition (by simp [Instruction.acquires, hopcode])
    refine h.laws.coupled_pop?.bind fun value _ m n hrel => ?_
    refine (h.laws.coupled_request hacquires rfl (hacquires.object _ _) fun id => ?_) m n hrel
      |>.imp fun _ hflow _ => hflow
    exact Instruction.all_allocated h.laws.pointers instruction _ _
  case gcNew =>
    have hacquires := h.acquisition (by simp [Instruction.acquires, hopcode])
    refine h.laws.coupled_pop?.bind fun value _ m n hrel => ?_
    refine (h.laws.coupled_request hacquires rfl (hacquires.collected _) fun handle => ?_) m n hrel
      |>.imp fun _ hflow _ => hflow
    exact Instruction.all_allocated h.laws.pointers instruction _ _
  case memMalloc =>
    have hacquires := h.acquisition (by simp [Instruction.acquires, hopcode])
    refine (h.laws.coupled_popOr _).bind fun value _ => ?_
    split
    · exact h.laws.coupled_fail _
    · intro m n hrel
      refine (h.laws.coupled_request hacquires rfl (hacquires.block _) fun address => ?_) m n hrel
        |>.imp fun _ hflow _ => hflow
      exact .of_isPlain rfl
  case ptrDeref =>
    refine (h.laws.coupled_popOr _).bind fun value hvalue => ?_
    split
    · refine coupled_get_bind fun m n hrel => ?_
      rw [h.laws.dereference hrel]
      exact (h.laws.coupled_ofResult
        (fun value hvalue => .of_isPlain (Instruction.isPlain_dereference hvalue))
        fun fault => Instruction.onLine_of_dereference).bind fun _ => h.coupled_push_next
    · exact h.coupled_push_next hvalue
  case gcDelete =>
    refine h.laws.coupled_pop?.bind fun value _ => ?_
    split
    · exact (h.laws.coupled_release _).bind fun _ _ => h.coupled_next
    · exact h.coupled_next
  case gcRun =>
    refine coupled_get_bind fun m n hrel => ?_
    obtain ⟨hcount, hafter⟩ := h.collection hopcode hrel
    rw [hcount]
    intro _ _ _
    exact h.coupled_push_next (.of_isPlain rfl) _ _ hafter
  case memFree =>
    refine h.laws.coupled_pop?.bind fun value _ => ?_
    split
    · exact (h.laws.coupled_release _).bind fun _ _ => h.coupled_next
    · exact h.coupled_next
  -- The others do nothing.
  all_goals exact h.coupled_next

end Suits

/-! ### Steps -/

/-- The position and whether there is more to do keep machines together. -/
structure PositionLaws (C : Coupling) : Prop extends ControlLaws C where
  /-- The positions are the same. -/
  position {m n : Machine} : C.rel 0 m n → n.pc = m.pc
  /-- Going on somewhere. -/
  move {m n : Machine} {pc : Nat} : C.rel 0 m n → C.rel 0 { m with pc } { n with pc }
  /-- Coming to an end. -/
  halt {m n : Machine} :
    C.rel 0 m n → C.rel 0 { m with running := false } { n with running := false }
  /-- Naming the line of a fault. -/
  line {e : Interruption} {line : Nat} : C.allowed e → C.allowed (e.withLine line)

/-- A step keeps machines together that have the values which the instruction takes. -/
theorem PositionLaws.ends_step (hlaws : C.PositionLaws) (hrel : C.rel own m n)
    (hweaken : C.rel own m n → C.rel 0 m n)
    (hsuits : ∀ instruction, m.program[m.pc]? = some instruction →
      C.Suits runner other instruction ∧ instruction.reach ≤ own) :
    C.Ends 0 (fun _ => True) ((Machine.step runner).run m) ((Machine.step other).run n) := by
  have hzero := hweaken hrel
  rw [Machine.step, Machine.step, Effect.run_get_bind, Effect.run_get_bind, hlaws.program hrel,
    hlaws.position hzero]
  cases hat : m.program[m.pc]? with
  | none => exact .ok trivial (hlaws.halt hzero)
  | some instruction =>
    obtain ⟨hsuits, hreach⟩ := hsuits instruction hat
    have hends := hsuits.coupled_execute m.pc m n (hsuits.laws.weaken hreach hrel)
    -- The line is added to a fault on both sides.
    have hlocated : C.Ends 0 (fun _ => True)
        (((instruction.execute runner m.pc).withLine instruction.line).run m)
        (((instruction.execute other m.pc).withLine instruction.line).run n) := by
      rw [Effect.run_withLine, Effect.run_withLine]
      generalize (instruction.execute runner m.pc).run m = first at hends
      generalize (instruction.execute other m.pc).run n = second at hends
      cases hends with
      | ok _ hrel => exact .ok trivial hrel
      | error hallowed hrel => exact .error (hlaws.line hallowed) hrel
      | unfinished hlax => exact .unfinished hlax
    refine hlocated.bind fun flow _ => ?_
    cases flow with
    | next => exact coupled_modify fun _ _ => hlaws.move
    | jump target => exact coupled_modify fun _ _ => hlaws.move
    | halt => exact coupled_modify fun _ _ => hlaws.halt

end Coupling

end StackMachine
