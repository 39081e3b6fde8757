import StackMachine.Native.Compiled
import StackMachine.Proofs.Native.Code

/-!
# The frame of compiled code

The frame pointer is the first cell. Below it lie the saved registers and the context pointer, then
a cell for each variable, then the values on the stack. What the operations that the compiler uses
do to the frame is said here once for each of them.

## Main definitions

* `Native.Layout`: a frame that fits below the stack pointer on entry.
* `Native.Layout.Holds`: the frame holds given values on its stack and in its variables.

## Main results

* `Native.Layout.Holds.wp_push`, `Native.Layout.Holds.wp_pop`, `Native.Layout.Holds.wp_load`,
  `Native.Layout.Holds.wp_store`: the operations on the frame.
* `Native.Layout.Holds.wp_call`: a call of the host leaves the frame alone.
* `Native.Layout.wp_prologue`, `Native.Layout.wp_epilogue`: entering and leaving the frame.
-/

namespace StackMachine.Native

/-! ### The place of a variable -/

/-- The cell of a variable. -/
def slotCell (index : Nat) : Int := index + 7

/-- The steps in which a place is computed, in 32 bits and exactly. -/
theorem toInt_slotOffset {index : Nat} (h : 8 * (index + 1) + 48 ≤ 0x80000000) :
    (Int32.ofNat index).toInt = index ∧ (Int32.ofNat index + 1).toInt = index + 1 ∧
      (8 * (Int32.ofNat index + 1)).toInt = 8 * (index + 1) := by
  have hindex : (Int32.ofNat index).toInt = index := Int32.toInt_ofNat_of_lt (by omega)
  have hone : (1 : Int32).toInt = 1 := by decide
  have height : (8 : Int32).toInt = 8 := by decide
  have hnext : (Int32.ofNat index + 1).toInt = index + 1 := by
    rw [Int32.toInt_add, hindex, hone, Int.bmod_def]
    omega
  refine ⟨hindex, hnext, ?_⟩
  rw [Int32.toInt_mul, hnext, height, Int.bmod_def]
  omega

/-- A place that does not overflow is the one below the context. -/
theorem toInt_slotPlace {index : Nat} (h : 8 * (index + 1) + 48 ≤ 0x80000000) :
    (slotPlace index).toInt = -8 * slotCell index := by
  obtain ⟨-, -, hoffset⟩ := toInt_slotOffset h
  have hcontext : contextPlace.toInt = -48 := by decide
  rw [slotPlace, Int32.toInt_sub, hoffset, hcontext, Int.bmod_def, slotCell]
  omega

/-- Such a place is found, as no step overflows. -/
theorem slotPlace?_eq {index : Nat} (h : 8 * (index + 1) + 48 ≤ 0x80000000) :
    slotPlace? index = some (slotPlace index) := by
  obtain ⟨hindex, hnext, hoffset⟩ := toInt_slotOffset h
  have hone : (1 : BitVec 32).toInt = 1 := by decide
  have height : (8 : Int32).toInt = 8 := by decide
  have hcontext : contextPlace.toInt = -48 := by decide
  have hadd : (Int32.ofNat index).toBitVec.saddOverflow 1 = false := by
    simp only [BitVec.saddOverflow, Int32.toInt_toBitVec, hindex, hone, Bool.or_eq_false_iff,
      decide_eq_false_iff_not]
    omega
  have hmul : (8 : Int32).toBitVec.smulOverflow (Int32.ofNat index + 1).toBitVec = false := by
    simp only [BitVec.smulOverflow, Int32.toInt_toBitVec, hnext, height, Bool.or_eq_false_iff,
      decide_eq_false_iff_not]
    omega
  have hsub : contextPlace.toBitVec.ssubOverflow (8 * (Int32.ofNat index + 1)).toBitVec =
      false := by
    simp only [BitVec.ssubOverflow, Int32.toInt_toBitVec, hoffset, hcontext,
      Bool.or_eq_false_iff, decide_eq_false_iff_not]
    omega
  rw [slotPlace?, if_neg (Bool.eq_false_iff.mp hadd), if_neg (Bool.eq_false_iff.mp hmul),
    if_neg (Bool.eq_false_iff.mp hsub)]
  rfl

/-- If no step overflows that computes the places of so many variables, all places fit. -/
theorem places_fit {slotCount : Nat}
    (h : ∀ index < slotCount, slotPlace? index ≠ none) : 8 * slotCount + 48 ≤ 0x80000000 := by
  -- The first variable that is too many.
  have hoverflow : slotPlace? 268435450 = none := by decide +kernel
  by_contra hmany
  exact h 268435450 (by omega) hoverflow

/-! ### Layouts -/

/-- The registers that a frame keeps, from the first cell on. -/
def keptRegisters : List Register := .rbp :: savedRegisters ++ [.rdi]

/-- A frame with a number of variables and room for a number of values, below the stack pointer on
entry. -/
structure Layout where
  /-- The processor on entry. -/
  entry : Processor
  /-- The number of variables. -/
  slotCount : Nat
  /-- The most values that the stack may have. -/
  depth : Nat
  /-- Displacements reach the variables. -/
  places_le : 8 * slotCount + 48 ≤ 0x80000000
  /-- The stack lies in the lower half of the address space. -/
  entry_lt : (entry.registers .rsp).toNat < 0x800000000000
  /-- The stack has room for the frame. -/
  room : 8 * (frameSize slotCount / 8 + depth + 7) ≤ (entry.registers .rsp).toNat

/-- A constant is moved into a register, whatever its size. -/
theorem execute_movImm (cpu : Processor) (r : Register) (value : Int64) :
    cpu.execute (.movImm r value) = .go (cpu.set r value.toUInt64) := by
  rw [Operation.movImm]
  split
  next hfits => rw [Processor.execute, hfits]
  next => rfl

namespace Layout

variable (layout : Layout)

/-- The address of the first cell. -/
def base : Nat := (layout.entry.registers .rsp).toNat - 8

/-- The last cell before the values on the stack. -/
def bottom : Nat := frameSize layout.slotCount / 8 + 5

/-- What the frame keeps in one of the first cells. -/
def kept (index : Nat) : Word := layout.entry.registers (keptRegisters[index]?.getD .rax)

variable {layout}

/-- Every cell of the frame is one, and also the next cell after a full stack. -/
theorem isCell {index : Int} (hlow : -0x20000000 ≤ index)
    (hhigh : index ≤ layout.bottom + layout.depth + 1) : IsCell layout.base index := by
  have hroom := layout.room
  have hlt := layout.entry_lt
  have hbase : layout.base = (layout.entry.registers .rsp).toNat - 8 := rfl
  rw [bottom] at hhigh
  constructor <;> omega

/-- The frame has a word for each variable and at most two more. -/
theorem frameSize_le (slotCount : Nat) :
    8 * (slotCount + 1) ≤ frameSize slotCount ∧ frameSize slotCount ≤ 8 * (slotCount + 2) ∧
      frameSize slotCount % 8 = 0 := by
  rw [frameSize]
  split <;> omega

/-- The variables lie below what the frame keeps and above the stack. -/
theorem slotCell_bounds {index : Nat} (h : index < layout.slotCount) :
    6 < slotCell index ∧ slotCell index ≤ layout.bottom := by
  have hframe := frameSize_le layout.slotCount
  rw [slotCell, bottom]
  omega

/-- Each variable has its own cell. -/
theorem slotCell_ne {index other : Nat} (hne : index ≠ other) :
    slotCell index ≠ slotCell other := by
  rw [slotCell, slotCell]
  omega

/-- The place of a variable is a word of the frame. -/
theorem isCell_slot {index : Nat} (h : index < layout.slotCount) :
    IsCell layout.base (slotCell index) := by
  obtain ⟨hlow, hhigh⟩ := slotCell_bounds h
  exact isCell (by omega) (by omega)

/-- The address of a variable. -/
theorem address_slot {index : Nat} (h : index < layout.slotCount) :
    cell layout.base 0 + (slotPlace index).toInt64.toUInt64 =
      cell layout.base (slotCell index) := by
  have hplaces := layout.places_le
  exact cell_add_disp (isCell (by omega) (by omega)) (isCell_slot h) (toInt_slotPlace (by omega))

theorem six_le_bottom : 6 ≤ layout.bottom := by
  have hframe := frameSize_le layout.slotCount
  rw [bottom]
  omega

/-- The address of the context pointer. -/
theorem address_context :
    cell layout.base 0 + contextPlace.toInt64.toUInt64 = cell layout.base 6 := by
  have hbottom : 6 ≤ layout.bottom := six_le_bottom
  exact cell_add_disp (isCell (by omega) (by omega)) (isCell (by omega) (by omega)) (by decide)

/-! ### What a frame holds -/

variable (layout) in
/-- The frame holds values on its stack, top first, and in its variables. -/
structure Holds (stack : List Int64) (slots : Nat → Int64) (cpu : Processor) : Prop where
  rbp : cpu.registers .rbp = cell layout.base 0
  rsp : cpu.registers .rsp = cell layout.base (layout.bottom + stack.length)
  fits : stack.length ≤ layout.depth
  kept : ∀ index < 7, cpu.memory.read (cell layout.base (index : Nat)) = layout.kept index
  slot : ∀ index < layout.slotCount,
    cpu.memory.read (cell layout.base (slotCell index)) = (slots index).toUInt64
  value : ∀ value rest, value :: rest <:+ stack →
    cpu.memory.read (cell layout.base (layout.bottom + rest.length + 1)) = value.toUInt64

/-- A register that the frame does not depend on. -/
def IsFree (r : Register) : Prop := r ≠ .rsp ∧ r ≠ .rbp

instance : DecidablePred IsFree := fun _ => inferInstanceAs (Decidable (_ ∧ _))

namespace Holds

variable {stack : List Int64} {slots : Nat → Int64} {cpu next : Processor} {value : Int64}
  {r : Register} {index : Nat}

/-- The frame only depends on two registers and on its cells. -/
theorem of_reads (h : layout.Holds stack slots cpu)
    (hrbp : next.registers .rbp = cpu.registers .rbp)
    (hrsp : next.registers .rsp = cpu.registers .rsp)
    (hreads : ∀ index, IsCell layout.base index → index ≤ layout.bottom + stack.length →
      next.memory.read (cell layout.base index) = cpu.memory.read (cell layout.base index)) :
    layout.Holds stack slots next where
  rbp := hrbp.trans h.rbp
  rsp := hrsp.trans h.rsp
  fits := h.fits
  kept index hindex := by
    have hbottom : 6 ≤ layout.bottom := six_le_bottom
    exact (hreads index (isCell (by omega) (by omega)) (by omega)).trans (h.kept index hindex)
  slot index hindex := by
    obtain ⟨-, hhigh⟩ := slotCell_bounds hindex
    exact (hreads _ (isCell_slot hindex) (by omega)).trans (h.slot index hindex)
  value value rest hsuffix := by
    have hlength := hsuffix.length_le
    have hfits := h.fits
    rw [List.length_cons] at hlength
    exact (hreads _ (isCell (by omega) (by omega)) (by omega)).trans (h.value value rest hsuffix)

theorem set (h : layout.Holds stack slots cpu) (hr : IsFree r) (w : Word) :
    layout.Holds stack slots (cpu.set r w) :=
  h.of_reads (if_neg hr.2.symm) (if_neg hr.1.symm) fun _ _ _ => rfl

theorem setFlags (h : layout.Holds stack slots cpu) (flags : Flags) :
    layout.Holds stack slots (cpu.setFlags flags) :=
  h.of_reads rfl rfl fun _ _ _ => rfl

/-- Only the variables that there are matter. -/
theorem slots_congr {slots' : Nat → Int64} (h : layout.Holds stack slots cpu)
    (hslots : ∀ index < layout.slotCount, slots index = slots' index) :
    layout.Holds stack slots' cpu :=
  { h with slot := fun index hindex => by rw [h.slot index hindex, hslots index hindex] }

theorem pushWord (h : layout.Holds stack slots cpu) (hroom : stack.length < layout.depth) :
    layout.Holds (value :: stack) slots (cpu.pushWord value.toUInt64) := by
  have htop : cpu.registers .rsp - 8 = cell layout.base (layout.bottom + stack.length + 1) := by
    rw [h.rsp]
    exact cell_sub_eight (isCell (by omega) (by omega)) (isCell (by omega) (by omega))
  have hcell : IsCell layout.base (layout.bottom + stack.length + 1) :=
    isCell (by omega) (by omega)
  have hmemory : (cpu.pushWord value.toUInt64).memory =
      cpu.memory.write (cell layout.base (layout.bottom + stack.length + 1)) value.toUInt64 := by
    rw [← htop]
    rfl
  -- Every cell that was in use lies above the new one.
  have hreads : ∀ index, IsCell layout.base index → index ≤ layout.bottom + stack.length →
      (cpu.pushWord value.toUInt64).memory.read (cell layout.base index) =
        cpu.memory.read (cell layout.base index) := by
    intro index hindex hle
    rw [hmemory]
    exact Memory.read_write_cell _ _ hcell hindex (by omega)
  have hbefore : layout.Holds stack slots
      { cpu with memory := (cpu.pushWord value.toUInt64).memory } := h.of_reads rfl rfl hreads
  refine ⟨h.rbp, ?_, hroom, hbefore.kept, hbefore.slot, ?_⟩
  · refine htop.trans ?_
    rw [List.length_cons]
    congr 1
  · intro other rest hsuffix
    rcases List.suffix_cons_iff.mp hsuffix with hall | hrest
    · cases hall
      rw [hmemory]
      exact Memory.read_write_self ..
    · exact hbefore.value other rest hrest

/-- A pop takes the value on top. -/
theorem popWord (h : layout.Holds (value :: stack) slots cpu) :
    cpu.popWord.1 = value.toUInt64 ∧ layout.Holds stack slots cpu.popWord.2 := by
  have hfits := h.fits
  rw [List.length_cons] at hfits
  have hrsp : cpu.registers .rsp = cell layout.base (layout.bottom + stack.length + 1) := by
    rw [h.rsp, List.length_cons]
    congr 1
  refine ⟨?_, h.rbp, ?_, Nat.le_of_succ_le hfits, h.kept, h.slot, ?_⟩
  · change cpu.memory.read (cpu.registers .rsp) = value.toUInt64
    rw [hrsp]
    exact h.value value stack (List.suffix_refl _)
  · change cpu.registers .rsp + 8 = _
    rw [hrsp]
    rw [cell_add_eight (isCell (by omega) (by omega)) (isCell (by omega) (by omega)),
      Int.add_sub_cancel]
  · intro other rest hsuffix
    exact h.value other rest (hsuffix.trans (List.suffix_cons ..))

/-- A variable is read from its place. -/
theorem read_slot (h : layout.Holds stack slots cpu) (hindex : index < layout.slotCount) :
    cpu.memory.read (cpu.address .rbp (slotPlace index)) = (slots index).toUInt64 := by
  rw [Processor.address, h.rbp, address_slot hindex]
  exact h.slot index hindex

/-- The context pointer is read from its place. -/
theorem read_context (h : layout.Holds stack slots cpu) :
    cpu.memory.read (cpu.address .rbp contextPlace) = layout.entry.registers .rdi := by
  rw [Processor.address, h.rbp, address_context]
  exact h.kept 6 (by decide)

/-- A store into a variable changes no other cell. -/
theorem write_slot (h : layout.Holds stack slots cpu) (hindex : index < layout.slotCount) :
    layout.Holds stack (fun other => if other = index then value else slots other)
      { cpu with
        memory := cpu.memory.write (cpu.address .rbp (slotPlace index)) value.toUInt64 } := by
  have hcell := isCell_slot hindex
  obtain ⟨hkept, hhigh⟩ := slotCell_bounds hindex
  have hbottom : 6 ≤ layout.bottom := six_le_bottom
  rw [Processor.address, h.rbp, address_slot hindex]
  refine ⟨h.rbp, h.rsp, h.fits, ?_, ?_, ?_⟩
  · intro other hother
    rw [← h.kept other hother]
    exact Memory.read_write_cell _ _ hcell (isCell (by omega) (by omega)) (by omega)
  · intro other hother
    by_cases heq : other = index
    · subst heq
      rw [if_pos rfl]
      exact Memory.read_write_self ..
    · rw [if_neg heq, ← h.slot other hother]
      exact Memory.read_write_cell _ _ hcell (isCell_slot hother)
        (slotCell_ne (Ne.symm heq))
  · -- The stack lies below every variable.
    intro other rest hsuffix
    have hlength := hsuffix.length_le
    have hfits := h.fits
    rw [List.length_cons] at hlength
    rw [← h.value other rest hsuffix]
    exact Memory.read_write_cell _ _ hcell (isCell (by omega) (by omega)) (by omega)

/-- A call leaves the frame alone, if the stack pointer is not above its stack at the call and as
before afterwards. -/
theorem afterCall {after : Processor} (next : Processor) (residue : Processor.Residue)
    (h : layout.Holds stack slots cpu) (hbelow : (next.registers .rsp).toNat ≤
      (cpu.registers .rsp).toNat) (hmemory : next.memory = cpu.memory)
    (hafter : after.memory = (next.afterCall residue).memory)
    (hrbp : after.registers .rbp = cpu.registers .rbp)
    (hrsp : after.registers .rsp = cpu.registers .rsp) : layout.Holds stack slots after := by
  have hfits := h.fits
  have hcell : IsCell layout.base (layout.bottom + stack.length) := isCell (by omega) (by omega)
  have htop := toNat_cell hcell
  rw [← h.rsp] at htop
  -- The host may change what lies below the stack pointer, and the frame lies above it.
  refine h.of_reads hrbp hrsp ?_
  intro index hindex hle
  rw [hafter, ← hmemory]
  exact Processor.read_afterCall next residue hindex (by omega)

/-! ### Operations on the frame -/

section Operations

variable {σ : Type} {handler : CallHandler σ} {host : σ} {operations : List Operation}
  {post : Processor → σ → Prop}

theorem wp_pop (h : layout.Holds (value :: stack) slots cpu) (hr : IsFree r)
    (hrest : ∀ next, layout.Holds stack slots next → next.registers r = value.toUInt64 →
      (∀ other, IsFree other → other ≠ r → next.registers other = cpu.registers other) →
      Wp handler operations post next host) :
    Wp handler (.pop r :: operations) post cpu host := by
  obtain ⟨hvalue, hbelow⟩ := h.popWord
  refine Wp.go rfl (hrest _ (hbelow.set hr _) ?_ ?_)
  · exact (if_pos rfl).trans hvalue
  · intro other hfree hne
    exact (if_neg hne).trans (if_neg hfree.1)

/-- Putting a word on top of the stack. -/
theorem wp_push (h : layout.Holds stack slots cpu) (hroom : stack.length < layout.depth)
    (hvalue : cpu.registers r = value.toUInt64)
    (hrest : ∀ next, layout.Holds (value :: stack) slots next →
      Wp handler operations post next host) :
    Wp handler (.push r :: operations) post cpu host := by
  refine Wp.go rfl (hrest _ ?_)
  rw [hvalue]
  exact h.pushWord hroom

theorem wp_load (h : layout.Holds stack slots cpu) (hindex : index < layout.slotCount)
    (hr : IsFree r)
    (hrest : ∀ next, layout.Holds stack slots next → next.registers r = (slots index).toUInt64 →
      Wp handler operations post next host) :
    Wp handler (.load r .rbp (slotPlace index) :: operations) post cpu host :=
  Wp.go rfl (hrest _ (h.set hr _) ((if_pos rfl).trans (h.read_slot hindex)))

/-- Storing to a variable. -/
theorem wp_store (h : layout.Holds stack slots cpu) (hindex : index < layout.slotCount)
    (hvalue : cpu.registers r = value.toUInt64)
    (hrest : ∀ next,
      layout.Holds stack (fun other => if other = index then value else slots other) next →
      next.registers = cpu.registers → Wp handler operations post next host) :
    Wp handler (.store .rbp (slotPlace index) r :: operations) post cpu host := by
  refine Wp.go rfl (hrest _ ?_ rfl)
  rw [hvalue]
  exact h.write_slot hindex

theorem wp_movImm (h : layout.Holds stack slots cpu) (hr : IsFree r)
    (hrest : ∀ next, layout.Holds stack slots next → next.registers r = value.toUInt64 →
      (∀ other, other ≠ r → next.registers other = cpu.registers other) →
      Wp handler operations post next host) :
    Wp handler (.movImm r value :: operations) post cpu host := by
  refine Wp.go (execute_movImm ..) (hrest _ (h.set hr _) (if_pos rfl) ?_)
  intro other hne
  exact if_neg hne

end Operations

/-- The call that prints, with the stack pointer moved around it or not. -/
theorem wp_call {platform : Platform} {host : PrintContext} {kind : Int64} (odd : Prop)
    [Decidable odd] (h : layout.Holds stack slots cpu)
    (hrdi : cpu.registers .rdi = platform.entry.registers .rdi)
    (hrsi : cpu.registers .rsi = value.toUInt64) (hrdx : cpu.registers .rdx = kind.toUInt64)
    (hrax : cpu.registers .rax = platform.printAddress.toUInt64) :
    Wp platform.handler
      ((if odd then [.subImm .rsp 8] else []) ++
        ([.call .rax] ++ if odd then [.addImm .rsp 8] else []))
      (fun next after => layout.Holds stack slots next ∧
        after = { host.print value kind with calls := host.calls + 1 }) cpu host := by
  -- The handler looks only at its arguments and at the address.
  have hhandler : ∀ next : Processor, next.registers .rdi = cpu.registers .rdi →
      next.registers .rsi = cpu.registers .rsi → next.registers .rdx = cpu.registers .rdx →
      platform.handler next (cpu.registers .rax) host =
        some ({ host.print value kind with calls := host.calls + 1 },
          platform.residues host.calls) := by
    intro next hrdi' hrsi' hrdx'
    rw [Platform.handler, if_pos ⟨hrax, hrdi'.trans hrdi⟩, hrsi', hrdx', hrsi, hrdx]
    rfl
  by_cases hodd : odd
  case neg =>
    rw [if_neg hodd, if_neg hodd]
    refine Wp.call rfl (hhandler cpu rfl rfl rfl) (Wp.nil ⟨?_, rfl⟩)
    exact afterCall cpu _ h (Nat.le_refl _) rfl rfl rfl rfl
  case pos =>
    rw [if_pos hodd, if_pos hodd]
    refine Wp.go rfl (Wp.call rfl (hhandler _ rfl rfl rfl) (Wp.go rfl (Wp.nil ⟨?_, rfl⟩)))
    have hfits := h.fits
    have hcell : IsCell layout.base (layout.bottom + stack.length) := isCell (by omega) (by omega)
    have hnext : IsCell layout.base (layout.bottom + stack.length + 1) :=
      isCell (by omega) (by omega)
    have height : Int64.toUInt64 (Int32.toInt64 8) = 8 := by decide
    rw [height]
    -- The word that aligns the stack is below it, where the host may write.
    refine afterCall ((cpu.set .rsp (cpu.registers .rsp - 8)).setFlags _) _ h ?_ rfl rfl rfl ?_
    · change (cpu.registers .rsp - 8).toNat ≤ _
      have htop := toNat_cell hcell
      have hbelow := toNat_cell hnext
      rw [h.rsp, cell_sub_eight hcell hnext]
      omega
    · exact UInt64.sub_add_cancel ..

end Holds

/-! ### Entering and leaving the frame -/

variable (layout) in
/-- The first cells keep their registers, and the stack pointer is at the last of them. -/
structure Keeps (count : Nat) (cpu : Processor) : Prop where
  rsp : cpu.registers .rsp = cell layout.base (count - 1)
  kept : ∀ index < count, cpu.memory.read (cell layout.base (index : Nat)) = layout.kept index

namespace Keeps

variable {cpu : Processor} {count : Nat}

/-- At the entry nothing was saved yet. -/
theorem entry : layout.Keeps 0 layout.entry where
  rsp := by
    have hroom := layout.room
    have hbase : layout.base = (layout.entry.registers .rsp).toNat - 8 := rfl
    rw [cell_eq_iff (isCell (by omega) (by omega))]
    omega
  kept index hindex := absurd hindex (Nat.not_lt_zero _)

/-- Saving one more register. -/
theorem pushWord (h : layout.Keeps count cpu) (hcount : count < 7) :
    layout.Keeps (count + 1) (cpu.pushWord (layout.kept count)) := by
  have hbottom : 6 ≤ layout.bottom := six_le_bottom
  have htop : cpu.registers .rsp - 8 = cell layout.base count := by
    rw [h.rsp, cell_sub_eight (isCell (by omega) (by omega)) (isCell (by omega) (by omega)),
      Int.sub_add_cancel]
  have hmemory : (cpu.pushWord (layout.kept count)).memory =
      cpu.memory.write (cell layout.base count) (layout.kept count) := by
    rw [← htop]
    rfl
  refine ⟨?_, ?_⟩
  · rw [Int.natCast_add, Int.natCast_one, Int.add_sub_cancel]
    exact htop
  · intro index hindex
    rw [hmemory]
    by_cases heq : index = count
    · rw [heq]
      exact Memory.read_write_self ..
    · rw [← h.kept index (by omega)]
      exact Memory.read_write_cell _ _ (isCell (by omega) (by omega))
        (isCell (by omega) (by omega)) (by omega)

/-- Pushing registers in the order in which they are kept. -/
theorem wp_pushAll {σ : Type} {handler : CallHandler σ} {host : σ} {operations : List Operation}
    {post : Processor → σ → Prop} {registers rest : List Register}
    (hregisters : keptRegisters.drop count = registers ++ rest)
    (hfree : ∀ r ∈ registers, IsFree r) (h : layout.Keeps count cpu)
    (hentry : ∀ r, IsFree r → cpu.registers r = layout.entry.registers r)
    (hrest : ∀ next, layout.Keeps (count + registers.length) next →
      (∀ r, IsFree r → next.registers r = layout.entry.registers r) →
      next.registers .rbp = cpu.registers .rbp → Wp handler operations post next host) :
    Wp handler (registers.map .push ++ operations) post cpu host := by
  induction registers generalizing count cpu with
  | nil => exact hrest cpu h hentry rfl
  | cons r registers ih =>
    have hlt : count < 7 := by
      have hlength := congrArg List.length hregisters
      rw [List.length_drop, List.cons_append, List.length_cons] at hlength
      have hseven : keptRegisters.length = 7 := rfl
      omega
    -- No register but the stack pointer was changed since the entry.
    have hkept : cpu.registers r = layout.kept count := by
      rw [hentry r (hfree r List.mem_cons_self), Layout.kept, ← List.head?_drop, hregisters]
      rfl
    have hpush := h.pushWord hlt
    rw [← hkept] at hpush
    refine Wp.go rfl (ih ?_ (fun r hr => hfree r (List.mem_cons_of_mem _ hr)) hpush ?_ ?_)
    · rw [← List.drop_drop, hregisters]
      rfl
    · intro other hother
      exact (if_neg hother.1).trans (hentry other hother)
    · rw [List.length_cons, Nat.add_comm registers.length, ← Nat.add_assoc] at hrest
      exact hrest

end Keeps

/-- The stack pointer below the frame. -/
theorem cell_sub_frameSize :
    cell layout.base 5 - (Int32.ofNat (frameSize layout.slotCount)).toInt64.toUInt64 =
      cell layout.base layout.bottom := by
  have hframe := frameSize_le layout.slotCount
  have hplaces := layout.places_le
  have hbottom : layout.bottom = frameSize layout.slotCount / 8 + 5 := rfl
  have hsize : (Int32.ofNat (frameSize layout.slotCount)).toInt64.toUInt64.toNat =
      frameSize layout.slotCount := by
    have hmax : Int32.maxValue.toInt = 0x7FFFFFFF := by decide
    rw [Int32.toInt64_ofNat' (by omega), Int64.toUInt64_ofNat', UInt64.toNat_ofNat']
    omega
  have hfive : ((cell layout.base 5).toNat : Int) = layout.base - 8 * 5 :=
    toNat_cell (isCell (by omega) (by omega))
  have hcell : IsCell layout.base layout.bottom := isCell (by omega) (by omega)
  have hlow := hcell.low
  have hsmall := (cell layout.base 5).toNat_lt
  rw [cell_eq_iff hcell, UInt64.toNat_sub, hsize]
  omega

section Ends

variable {σ : Type} {handler : CallHandler σ} {host : σ}

/-- Entering the frame: nothing is known about its variables yet. -/
theorem wp_enter {operations : List Operation} {post : Processor → σ → Prop}
    (hrest : ∀ next slots, layout.Holds [] slots next → Wp handler operations post next host) :
    Wp handler ([.push .rbp, .mov .rbp .rsp] ++ savedRegisters.map .push ++
      [.subImm .rsp (Int32.ofNat (frameSize layout.slotCount)), .store .rbp contextPlace .rdi] ++
      operations) post layout.entry host := by
  have hbottom : 6 ≤ layout.bottom := six_le_bottom
  -- The frame pointer is pushed and set to its own place, then the other registers are pushed.
  have hpush : layout.Keeps 1 (layout.entry.pushWord (layout.entry.registers .rbp)) :=
    Keeps.entry.pushWord (by decide)
  have hdrop : keptRegisters.drop 1 = savedRegisters ++ [.rdi] := rfl
  rw [List.append_assoc, List.append_assoc]
  refine Wp.go rfl (Wp.go rfl ?_)
  refine Keeps.wp_pushAll hdrop (by decide) ⟨hpush.rsp, hpush.kept⟩ ?_ ?_
  · intro r hr
    exact (if_neg hr.2).trans (if_neg hr.1)
  intro saved hsaved hentry hrbp
  have hbase : saved.registers .rbp = cell layout.base 0 := hrbp.trans hpush.rsp
  -- Whatever the variables hold now, the frame holds it.
  refine Wp.go rfl (Wp.go rfl (hrest _ (fun index => UInt64.toInt64 (Memory.read _
    (cell layout.base (slotCell index)))) ⟨hbase, ?_, Nat.zero_le _, ?_, fun _ _ => rfl, ?_⟩))
  · change saved.registers .rsp - _ = _
    rw [hsaved.rsp]
    exact cell_sub_frameSize
  · intro index hindex
    change (saved.memory.write (saved.registers .rbp + _) (saved.registers .rdi)).read _ = _
    rw [hbase, address_context]
    by_cases hlast : index = 6
    · subst hlast
      exact (Memory.read_write_self ..).trans (hentry .rdi (by decide))
    · have hsix : index < 6 := by omega
      rw [← hsaved.kept index hsix]
      exact Memory.read_write_cell _ _ (isCell (by omega) (by omega))
        (isCell (by omega) (by omega)) (by omega)
  · intro value rest hsuffix
    exact absurd hsuffix.length_le (Nat.not_succ_le_zero _)

/-- Clearing variables, in any order. -/
theorem wp_clear {stack : List Int64} {slots : Nat → Int64} {cpu : Processor} {order : List Nat}
    (h : layout.Holds stack slots cpu) (hrax : cpu.registers .rax = 0)
    (horder : ∀ index ∈ order, index < layout.slotCount) :
    Wp handler (order.map fun index => .store .rbp (slotPlace index) .rax)
      (fun next after => layout.Holds stack (fun index => if index ∈ order then 0 else slots index)
        next ∧ after = host) cpu host := by
  induction order generalizing slots cpu with
  | nil => exact Wp.nil ⟨by simpa using h, rfl⟩
  | cons index order ih =>
    have hindex := horder index List.mem_cons_self
    have hvalue : cpu.registers .rax = (0 : Int64).toUInt64 := hrax
    refine h.wp_store hindex hvalue ?_
    intro next hnext hsame
    have hrax' : next.registers .rax = 0 := by rw [hsame, hrax]
    refine (ih hnext hrax' fun other hother => horder other (List.mem_cons_of_mem _ hother)).mono ?_
    rintro last after ⟨hlast, rfl⟩
    -- The store that was made first is not undone by the others.
    refine ⟨hlast.slots_congr ?_, rfl⟩
    intro other _
    by_cases heq : other = index <;> simp [heq]

variable (layout) in
/-- The prologue enters the frame with every variable zero. -/
theorem wp_prologue {order : List Nat} (horder : order.Perm (List.range layout.slotCount)) :
    Wp handler (prologue layout.slotCount order)
      (fun next after => layout.Holds [] (fun _ => 0) next ∧ after = host) layout.entry host := by
  have hmem : ∀ index, index ∈ order ↔ index < layout.slotCount := by
    intro index
    rw [horder.mem_iff, List.mem_range]
  refine wp_enter ?_
  intro next slots hnext
  split
  next hnone =>
    refine Wp.nil ⟨hnext.slots_congr ?_, rfl⟩
    intro index hindex
    omega
  next =>
    refine Wp.go rfl ((wp_clear ((hnext.set (by decide) _).setFlags _) ?_ ?_).mono ?_)
    · exact UInt64.xor_self
    · intro index hindex
      exact (hmem index).mp hindex
    · rintro last after ⟨hlast, rfl⟩
      refine ⟨hlast.slots_congr ?_, rfl⟩
      intro index hindex
      exact if_pos ((hmem index).mpr hindex)

/-- The epilogue leaves the frame with the value on top of the stack, if there is one. -/
theorem wp_epilogue {stack : List Int64} {slots : Nat → Int64} {cpu : Processor}
    (h : layout.Holds stack slots cpu) :
    Wp handler (epilogue (!stack.isEmpty)).dropLast
      (fun last after => last.registers .rax = (stack.head?.getD 0).toUInt64 ∧ after = host)
      cpu host := by
  cases stack with
  | nil =>
    refine ⟨_, _, rfl, ?_, rfl⟩
    exact UInt64.xor_self
  | cons value stack =>
    refine ⟨_, _, rfl, ?_, rfl⟩
    exact h.popWord.1

end Ends

end Layout

end StackMachine.Native
