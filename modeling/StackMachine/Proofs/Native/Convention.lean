import StackMachine.Proofs.Native.Discipline
import StackMachine.Proofs.Native.Printing

/-!
# The calling convention

Compiled code respects the convention of its caller and of the functions that it calls, at every
operation that it executes: the stack is aligned at calls, nothing is stored outside the frame, no
division fails, and the return finds every preserved register as it was on entry.

## Main definitions

* `Native.homes`: the places of what the frame keeps and of the variables.
* `Native.Respects`: what the convention asks of an operation.

## Main results

* `Native.Operation.Moves.respects`: an operation that follows the stack discipline respects the
  convention.
* `Native.respects_convention`: compiled code respects the convention.
-/

namespace StackMachine.Native

open Layout (IsFree)

/-! ### What the convention asks -/

/-- Two words in memory do not overlap. -/
def Apart (a b : Word) : Prop := a.toNat + 8 ≤ b.toNat ∨ b.toNat + 8 ≤ a.toNat

/-- Where the frame keeps a register: one word after the other below the return address, the
context pointer last. -/
def keptAddress (entry : Processor) (index : Nat) : Word :=
  entry.registers .rsp - UInt64.ofNat (8 * (index + 1))

/-- Where the frame has a variable. -/
def slotAddress (entry : Processor) (index : Nat) : Word :=
  entry.registers .rsp - 8 + (slotPlace index).toInt64.toUInt64

/-- The places of what the frame keeps and of the variables. -/
def homes (entry : Processor) (slotCount : Nat) : List Word :=
  (List.range keptRegisters.length).map (keptAddress entry) ++
    (List.range slotCount).map (slotAddress entry)

/-- What an operation may store: a register of the caller at its own place, a variable at its own
place, and anything on the stack below these places. -/
inductive MayStore (entry : Processor) (slotCount : Nat) : Operation → Word → Word → Prop
  | kept {operation : Operation} {index : Nat} {r : Register} : keptRegisters[index]? = some r →
      MayStore entry slotCount operation (keptAddress entry index) (entry.registers r)
  | slot {index : Nat} {r : Register} {value : Word} : index < slotCount →
      MayStore entry slotCount (.store .rbp (slotPlace index) r) (slotAddress entry index) value
  | operand {r : Register} {address value : Word} :
      (∀ home ∈ homes entry slotCount, address.toNat + 8 ≤ home.toNat) →
      MayStore entry slotCount (.push r) address value

/-- What the convention asks of an operation that is executed in a state of the processor. -/
structure Respects (entry : Processor) (slotCount : Nat) (operation : Operation)
    (cpu : Processor) : Prop where
  /-- The stack is aligned at every call. -/
  aligned : ∀ target, operation = .call target → (cpu.registers .rsp).toNat % 16 = 0
  /-- Every division has a quotient of 64 bits. -/
  divides : ∀ divisor, operation = .idiv divisor → cpu.divide? (cpu.registers divisor) ≠ none
  /-- Every word is stored where it belongs. -/
  stores : ∀ address value, cpu.stores? operation = some (address, value) →
    MayStore entry slotCount operation address value
  /-- No word is stored below the stack pointer. -/
  above : ∀ address value next, cpu.stores? operation = some (address, value) →
    cpu.execute operation = .go next → (next.registers .rsp).toNat ≤ address.toNat
  /-- No word is stored above the frame. -/
  below : ∀ address value, cpu.stores? operation = some (address, value) →
    address.toNat + 8 ≤ (entry.registers .rsp).toNat
  /-- The return finds every preserved register as it was on entry. -/
  restored : operation = .ret → ∀ r, Processor.isPreserved r = true →
    cpu.registers r = entry.registers r

/-- An operation that neither stores nor calls nor returns. -/
theorem Respects.of_stores?_eq_none {entry cpu next : Processor} {slotCount : Nat}
    {operation : Operation} (hstores : cpu.stores? operation = none)
    (hgo : cpu.execute operation = .go next) : Respects entry slotCount operation cpu where
  aligned := by
    rintro target rfl
    cases hgo
  divides := by
    rintro divisor rfl hnone
    rw [Processor.execute, hnone] at hgo
    cases hgo
  stores _ _ h := absurd (hstores.symm.trans h) nofun
  above _ _ _ h := absurd (hstores.symm.trans h) nofun
  below _ _ h := absurd (hstores.symm.trans h) nofun
  restored := by
    rintro rfl
    cases hgo

/-- An operation that stores a word in the frame. -/
theorem Respects.of_store {entry cpu next : Processor} {slotCount : Nat} {operation : Operation}
    {address value : Word} (hstores : cpu.stores? operation = some (address, value))
    (hgo : cpu.execute operation = .go next)
    (hmay : MayStore entry slotCount operation address value)
    (habove : (next.registers .rsp).toNat ≤ address.toNat)
    (hbelow : address.toNat + 8 ≤ (entry.registers .rsp).toNat) :
    Respects entry slotCount operation cpu where
  aligned := by
    rintro target rfl
    cases hgo
  divides := by
    rintro divisor rfl
    cases hstores
  stores := by
    intro _ _ h
    cases hstores.symm.trans h
    exact hmay
  above := by
    intro _ _ _ h hnext
    cases hstores.symm.trans h
    cases hgo.symm.trans hnext
    exact habove
  below := by
    intro _ _ h
    cases hstores.symm.trans h
    exact hbelow
  restored := by
    rintro rfl
    cases hgo

/-! ### The places of the frame -/

namespace Layout

variable {layout : Layout} {index words : Nat} {cpu next : Processor}

theorem rsp_entry : layout.entry.registers .rsp = cell layout.base (-1) := Keeps.entry.rsp

/-- The registers that are kept are saved at the top of the frame. -/
theorem keptAddress_eq (h : index < 7) :
    keptAddress layout.entry index = cell layout.base index := by
  have hroom := layout.room
  have hlt := layout.entry_lt
  have hbottom : 6 ≤ layout.bottom := six_le_bottom
  have hbase : layout.base = (layout.entry.registers .rsp).toNat - 8 := rfl
  -- The addresses are below the limit of the memory, so the subtraction does not wrap around.
  rw [cell_eq_iff (isCell (by omega) (by omega)), keptAddress, UInt64.toNat_sub,
    UInt64.toNat_ofNat']
  omega

/-- The places of the variables are below them. -/
theorem slotAddress_eq (h : index < layout.slotCount) :
    slotAddress layout.entry index = cell layout.base (slotCell index) := by
  have hbase : layout.entry.registers .rsp - 8 = cell layout.base 0 := by
    rw [rsp_entry, cell_sub_eight (isCell (by omega) (by omega)) (isCell (by omega) (by omega))]
    rfl
  rw [slotAddress, hbase, address_slot h]

/-- Every place is a cell above the stack. -/
theorem exists_cell_of_mem_homes {home : Word}
    (h : home ∈ homes layout.entry layout.slotCount) :
    ∃ index : Int, index ≤ layout.bottom ∧ IsCell layout.base index ∧
      home = cell layout.base index := by
  have hbottom : 6 ≤ layout.bottom := six_le_bottom
  rw [homes, List.mem_append, List.mem_map, List.mem_map] at h
  rcases h with ⟨index, hindex, rfl⟩ | ⟨index, hindex, rfl⟩
  · have hlt : index < 7 := List.mem_range.mp hindex
    exact ⟨index, by omega, isCell (by omega) (by omega), keptAddress_eq hlt⟩
  · have hlt : index < layout.slotCount := List.mem_range.mp hindex
    exact ⟨slotCell index, (slotCell_bounds hlt).2, isCell_slot hlt, slotAddress_eq hlt⟩

/-- Different cells do not overlap. -/
theorem apart_cell {index other : Int} (h : IsCell layout.base index)
    (hother : IsCell layout.base other) (hne : index ≠ other) :
    Apart (cell layout.base index) (cell layout.base other) := by
  have hcell := toNat_cell h
  have hcell' := toNat_cell hother
  rw [Apart]
  omega

/-- No two places overlap. -/
theorem pairwise_homes : (homes layout.entry layout.slotCount).Pairwise Apart := by
  have hbottom : 6 ≤ layout.bottom := six_le_bottom
  rw [homes, List.pairwise_append, List.pairwise_map, List.pairwise_map]
  refine ⟨?_, ?_, ?_⟩
  · refine List.nodup_range.imp_of_mem ?_
    intro index other hindex hother hne
    have hlt : index < 7 := List.mem_range.mp hindex
    have hlt' : other < 7 := List.mem_range.mp hother
    rw [keptAddress_eq hlt, keptAddress_eq hlt']
    exact apart_cell (isCell (by omega) (by omega)) (isCell (by omega) (by omega)) (by omega)
  · refine List.nodup_range.imp_of_mem ?_
    intro index other hindex hother hne
    have hlt := List.mem_range.mp hindex
    have hlt' := List.mem_range.mp hother
    rw [slotAddress_eq hlt, slotAddress_eq hlt']
    exact apart_cell (isCell_slot hlt) (isCell_slot hlt') (slotCell_ne hne)
  · -- The variables lie beyond what the frame keeps.
    intro kept hkept slot hslot
    obtain ⟨index, hindex, rfl⟩ := List.mem_map.mp hkept
    obtain ⟨other, hother, rfl⟩ := List.mem_map.mp hslot
    have hlt : index < 7 := List.mem_range.mp hindex
    have hlt' := List.mem_range.mp hother
    obtain ⟨hbound, -⟩ := slotCell_bounds hlt'
    rw [keptAddress_eq hlt, slotAddress_eq hlt']
    exact apart_cell (isCell (by omega) (by omega)) (isCell_slot hlt') (by omega)

/-! ### Between the prologue and the epilogue -/

variable (layout) in
/-- The frame pointer is at the first cell, and a number of words is on the stack. -/
structure At (words : Nat) (cpu : Processor) : Prop where
  rbp : cpu.registers .rbp = cell layout.base 0
  rsp : cpu.registers .rsp = cell layout.base (layout.bottom + words)
  fits : words ≤ layout.depth

theorem At.of_registers (h : layout.At words cpu)
    (hrbp : next.registers .rbp = cpu.registers .rbp)
    (hrsp : next.registers .rsp = cpu.registers .rsp) : layout.At words next :=
  ⟨hrbp.trans h.rbp, hrsp.trans h.rsp, h.fits⟩

/-- One word more on the stack. -/
theorem At.lower (h : layout.At words cpu) (hroom : words < layout.depth)
    (hrbp : next.registers .rbp = cpu.registers .rbp)
    (hrsp : next.registers .rsp = cpu.registers .rsp - 8) : layout.At (words + 1) next where
  rbp := hrbp.trans h.rbp
  rsp := by
    rw [hrsp, h.rsp, cell_sub_eight (isCell (by omega) (by omega)) (isCell (by omega) (by omega))]
    congr 1
  fits := hroom

/-- One word less on the stack. -/
theorem At.raise (h : layout.At (words + 1) cpu)
    (hrbp : next.registers .rbp = cpu.registers .rbp)
    (hrsp : next.registers .rsp = cpu.registers .rsp + 8) : layout.At words next where
  rbp := hrbp.trans h.rbp
  rsp := by
    have hfits := h.fits
    rw [hrsp, h.rsp, cell_add_eight (isCell (by omega) (by omega)) (isCell (by omega) (by omega))]
    congr 1
    omega
  fits := Nat.le_of_succ_le h.fits

/-- The frame has an even number of words, so the parity of the stack decides its alignment. -/
theorem At.aligned (h : layout.At words cpu) (hentry : (layout.entry.registers .rsp).toNat % 16 = 8)
    (heven : words % 2 = 0) : (cpu.registers .rsp).toNat % 16 = 0 := by
  have hfits := h.fits
  have hbase : layout.base = (layout.entry.registers .rsp).toNat - 8 := rfl
  have hbottom : layout.bottom = frameSize layout.slotCount / 8 + 5 := rfl
  -- Five saved registers and the frame pointer are on the stack above the frame proper.
  have hpadded : (40 + frameSize layout.slotCount) % 16 = 0 := by
    rw [frameSize]
    split <;> omega
  have hcell : IsCell layout.base (layout.bottom + words) := isCell (by omega) (by omega)
  have htop := toNat_cell hcell
  have hlow := hcell.low
  rw [h.rsp]
  omega

end Layout

/-- A word that goes to a place of the frame, while the stack pointer is below the places. -/
theorem Layout.respects_place {layout : Layout} {operation : Operation} {cpu next : Processor}
    {index : Int} {value : Word} {words : Nat} (hwords : words ≤ layout.depth)
    (hcell : IsCell layout.base index) (hindex : index ≤ layout.bottom + words)
    (hfirst : 0 ≤ index)
    (hstores : cpu.stores? operation = some (cell layout.base index, value))
    (hgo : cpu.execute operation = .go next)
    (hrsp : next.registers .rsp = cell layout.base (layout.bottom + words))
    (hmay : MayStore layout.entry layout.slotCount operation (cell layout.base index) value) :
    Respects layout.entry layout.slotCount operation cpu := by
  have hbottom : IsCell layout.base (layout.bottom + words) := isCell (by omega) (by omega)
  have hreturn : IsCell layout.base (-1) := isCell (by omega) (by omega)
  have htop := toNat_cell hbottom
  have hplace := toNat_cell hcell
  have hentry := toNat_cell hreturn
  refine .of_store hstores hgo hmay ?_ ?_
  · rw [hrsp]
    omega
  · rw [rsp_entry]
    omega

/-- An operation that follows the stack discipline respects the convention. -/
theorem Operation.Moves.respects {layout : Layout} {operation : Operation} {words after : Nat}
    {cpu next : Processor} (h : operation.Moves layout.slotCount layout.depth words after)
    (hat : layout.At words cpu) (hgo : cpu.execute operation = .go next) :
    Respects layout.entry layout.slotCount operation cpu ∧ layout.At after next := by
  have hfits := hat.fits
  cases h with
  | quiet hquiet =>
    obtain ⟨hrbp, hrsp⟩ := hquiet.registers_eq hgo
    exact ⟨.of_stores?_eq_none (hquiet.stores?_eq_none cpu) hgo, hat.of_registers hrbp hrsp⟩
  | @push r _ hroom =>
    cases hgo
    have hnext : layout.At (words + 1) (cpu.pushWord (cpu.registers r)) := hat.lower hroom rfl rfl
    have hcell : IsCell layout.base (layout.bottom + (words + 1 : Nat)) :=
      Layout.isCell (by omega) (by omega)
    have htop : cpu.registers .rsp - 8 = cell layout.base (layout.bottom + (words + 1 : Nat)) :=
      hnext.rsp
    have hstores : cpu.stores? (.push r) =
        some (cell layout.base (layout.bottom + (words + 1 : Nat)), cpu.registers r) := by
      rw [← htop]
      rfl
    refine ⟨layout.respects_place hroom hcell (Int.le_refl _) (by omega) hstores rfl hnext.rsp ?_,
      hnext⟩
    · -- Every place lies above the stack.
      refine .operand fun home hhome => ?_
      obtain ⟨index, hindex, hplace, rfl⟩ := Layout.exists_cell_of_mem_homes hhome
      have htoNat := toNat_cell hcell
      have htoNat' := toNat_cell hplace
      omega
  | pop hr =>
    cases hgo
    refine ⟨.of_stores?_eq_none rfl rfl, hat.raise ?_ ?_⟩
    · exact if_neg hr.2.symm
    · exact if_neg hr.1.symm
  | @store r index _ hindex =>
    cases hgo
    obtain ⟨hfirst, hlast⟩ := Layout.slotCell_bounds hindex
    -- Variables are addressed from the frame pointer, wherever the stack pointer is.
    have hplace : cpu.address .rbp (slotPlace index) = cell layout.base (slotCell index) := by
      rw [Processor.address, hat.rbp, Layout.address_slot hindex]
    have hstores : cpu.stores? (.store .rbp (slotPlace index) r) =
        some (cell layout.base (slotCell index), cpu.registers r) := by
      rw [← hplace]
      rfl
    refine ⟨layout.respects_place hfits (Layout.isCell_slot hindex) (by omega) (by omega) hstores
      rfl hat.rsp ?_, hat.of_registers rfl rfl⟩
    rw [← Layout.slotAddress_eq hindex]
    exact .slot hindex
  | lower hroom =>
    cases hgo
    exact ⟨.of_stores?_eq_none rfl rfl, hat.lower hroom rfl rfl⟩
  | raise =>
    cases hgo
    exact ⟨.of_stores?_eq_none rfl rfl, hat.raise rfl rfl⟩
  | call => cases hgo

/-- A call that follows the stack discipline respects the convention. -/
theorem Operation.Moves.respects_call {layout : Layout} {operation : Operation}
    {words after : Nat} {cpu next : Processor} {target : Word}
    (h : operation.Moves layout.slotCount layout.depth words after) (hat : layout.At words cpu)
    (hentry : (layout.entry.registers .rsp).toNat % 16 = 8)
    (hcall : cpu.execute operation = .call next target) (residue : Processor.Residue) :
    Respects layout.entry layout.slotCount operation cpu ∧
      layout.At after (next.afterCall residue) := by
  obtain ⟨r, rfl, rfl⟩ := Operation.eq_call_of_execute hcall
  cases h with
  | quiet hquiet => cases hquiet
  | call heven =>
    refine ⟨⟨?_, nofun, nofun, nofun, nofun, nofun⟩, hat.of_registers rfl rfl⟩
    intro _ _
    exact hat.aligned hentry heven

/-- Code that gets through and follows the stack discipline respects the convention. -/
theorem Balanced.guarded {σ : Type} {handler : CallHandler σ} {layout : Layout}
    {operations : List Operation} {words last : Nat} {cpu : Processor} {host : σ}
    {post : Processor → σ → Prop}
    (h : Balanced layout.slotCount layout.depth operations words last)
    (hwp : Wp handler operations post cpu host) (hat : layout.At words cpu)
    (hentry : (layout.entry.registers .rsp).toNat % 16 = 8) :
    Guarded handler (Respects layout.entry layout.slotCount) post operations cpu host := by
  -- The invariant is that the rest of the code starts with the words that are on the stack.
  refine Guarded.of_wp (fun rest cpu => ∃ words,
    Balanced layout.slotCount layout.depth rest words last ∧ layout.At words cpu) ?_ ?_ hwp
    ⟨words, h, hat⟩
  · rintro operation rest cpu next ⟨words, hrest, hat⟩ hgo
    cases hrest with
    | cons hmoves hrest =>
      obtain ⟨hrespects, hnext⟩ := hmoves.respects hat hgo
      exact ⟨hrespects, _, hrest, hnext⟩
  · rintro operation rest cpu next target residue ⟨words, hrest, hat⟩ hcall
    cases hrest with
    | cons hmoves hrest =>
      obtain ⟨hrespects, hnext⟩ := hmoves.respects_call hat hentry hcall residue
      exact ⟨hrespects, _, hrest, hnext⟩

/-! ### The prologue and the epilogue -/

namespace Layout

variable {layout : Layout} {σ : Type} {handler : CallHandler σ} {host : σ} {cpu : Processor}
  {post : Processor → σ → Prop} {operations : List Operation}

theorem Holds.at_length {stack : List Int64} {slots : Nat → Int64}
    (h : layout.Holds stack slots cpu) : layout.At stack.length cpu := ⟨h.rbp, h.rsp, h.fits⟩

/-- A push that keeps the next register. -/
theorem Keeps.respects_push {count : Nat} {r : Register} (h : layout.Keeps count cpu)
    (hr : keptRegisters[count]? = some r) (hvalue : cpu.registers r = layout.entry.registers r) :
    Respects layout.entry layout.slotCount (.push r) cpu := by
  have hcount : count < 7 := (List.getElem?_eq_some_iff.mp hr).1
  have hbottom : 6 ≤ layout.bottom := six_le_bottom
  have hcell : IsCell layout.base count := isCell (by omega) (by omega)
  have htop : cpu.registers .rsp - 8 = cell layout.base count := by
    rw [h.rsp, cell_sub_eight (isCell (by omega) (by omega)) (isCell (by omega) (by omega)),
      Int.sub_add_cancel]
  have hplace := toNat_cell hcell
  have hreturn : IsCell layout.base (-1) := isCell (by omega) (by omega)
  have hentry := toNat_cell hreturn
  have hstores : cpu.stores? (.push r) =
      some (keptAddress layout.entry count, layout.entry.registers r) := by
    rw [keptAddress_eq hcount, ← htop, ← hvalue]
    rfl
  refine .of_store hstores rfl (.kept hr) ?_ ?_
  · change (cpu.registers .rsp - 8).toNat ≤ _
    rw [htop, keptAddress_eq hcount]
  · rw [keptAddress_eq hcount, rsp_entry]
    omega

/-- Pushing registers in the order in which they are kept respects the convention. -/
theorem Keeps.guarded_pushAll {registers rest : List Register} {count : Nat}
    (hregisters : keptRegisters.drop count = registers ++ rest)
    (hfree : ∀ r ∈ registers, IsFree r) (h : layout.Keeps count cpu)
    (hentry : ∀ r, IsFree r → cpu.registers r = layout.entry.registers r)
    (hrest : ∀ next, layout.Keeps (count + registers.length) next →
      (∀ r, IsFree r → next.registers r = layout.entry.registers r) →
      next.registers .rbp = cpu.registers .rbp →
      Guarded handler (Respects layout.entry layout.slotCount) post operations next host) :
    Guarded handler (Respects layout.entry layout.slotCount) post
      (registers.map .push ++ operations) cpu host := by
  -- The registers that are still to be pushed have the values that they had on entry.
  induction registers generalizing count cpu with
  | nil => exact hrest cpu h hentry rfl
  | cons r registers ih =>
    have hr : keptRegisters[count]? = some r := by
      rw [← List.head?_drop, hregisters]
      rfl
    have hlt : count < 7 := (List.getElem?_eq_some_iff.mp hr).1
    have hvalue := hentry r (hfree r List.mem_cons_self)
    have hpush := h.pushWord hlt
    rw [Layout.kept, hr, Option.getD_some, ← hvalue] at hpush
    refine .go (h.respects_push hr hvalue) rfl (ih ?_ ?_ hpush ?_ ?_)
    · rw [← List.drop_drop, hregisters]
      rfl
    · exact fun r hr => hfree r (List.mem_cons_of_mem _ hr)
    · intro other hother
      exact (if_neg hother.1).trans (hentry other hother)
    · rw [List.length_cons, Nat.add_comm registers.length, ← Nat.add_assoc] at hrest
      exact hrest

/-- The code that clears the variables respects the convention. -/
theorem guarded_clear {order : List Nat} (horder : ∀ index ∈ order, index < layout.slotCount)
    (h : layout.At 0 cpu) :
    Guarded handler (Respects layout.entry layout.slotCount) (fun _ _ => True)
      (order.map fun index => .store .rbp (slotPlace index) .rax) cpu host := by
  induction order generalizing cpu with
  | nil => exact .nil trivial
  | cons index order ih =>
    obtain ⟨hindex, hrest⟩ := List.forall_mem_cons.mp horder
    obtain ⟨hrespects, hnext⟩ := (Operation.Moves.store hindex).respects h rfl
    exact .go hrespects rfl (ih hrest hnext)

/-- Entering the frame respects the convention. -/
theorem guarded_enter
    (hrest : ∀ next, layout.At 0 next →
      Guarded handler (Respects layout.entry layout.slotCount) post operations next host) :
    Guarded handler (Respects layout.entry layout.slotCount) post
      ([.push .rbp, .mov .rbp .rsp] ++ savedRegisters.map .push ++
        [.subImm .rsp (Int32.ofNat (frameSize layout.slotCount)),
          .store .rbp contextPlace .rdi] ++ operations) layout.entry host := by
  have hbottom : 6 ≤ layout.bottom := six_le_bottom
  have hpush : layout.Keeps 1 (layout.entry.pushWord (layout.entry.registers .rbp)) :=
    Keeps.entry.pushWord (by decide)
  have hdrop : keptRegisters.drop 1 = savedRegisters ++ [.rdi] := rfl
  rw [List.append_assoc, List.append_assoc]
  refine .go (Keeps.entry.respects_push rfl rfl) rfl (.go (.of_stores?_eq_none rfl rfl) rfl ?_)
  refine Keeps.guarded_pushAll hdrop (by decide) ⟨hpush.rsp, hpush.kept⟩ ?_ ?_
  · intro r hr
    exact (if_neg hr.2).trans (if_neg hr.1)
  intro saved hsaved hentry hrbp
  refine .go (.of_stores?_eq_none rfl rfl) rfl ?_
  generalize hlowered : Processor.setFlags _ _ = lowered
  -- The frame pointer is where the stack pointer was after the first push.
  have hat : layout.At 0 lowered := by
    subst hlowered
    refine ⟨hrbp.trans hpush.rsp, ?_, Nat.zero_le _⟩
    change saved.registers .rsp - _ = _
    rw [hsaved.rsp]
    exact cell_sub_frameSize
  have hrdi : lowered.registers .rdi = layout.entry.registers .rdi := by
    subst hlowered
    exact hentry .rdi (by decide)
  have hstores : lowered.stores? (.store .rbp contextPlace .rdi) =
      some (cell layout.base 6, layout.entry.registers .rdi) := by
    rw [Processor.stores?, Processor.address, hat.rbp, address_context, hrdi]
  have hcontext : keptAddress layout.entry 6 = cell layout.base 6 := keptAddress_eq (by decide)
  refine .go (respects_place (Nat.zero_le _) (isCell (by omega) (by omega)) (by omega)
    (by omega) hstores rfl hat.rsp ?_) rfl (hrest _ (hat.of_registers rfl rfl))
  rw [← hcontext]
  exact .kept rfl

variable (layout) in
/-- The prologue respects the convention. -/
theorem guarded_prologue {order : List Nat} (horder : order.Perm (List.range layout.slotCount)) :
    Guarded handler (Respects layout.entry layout.slotCount)
      (fun next after => layout.Holds [] (fun _ => 0) next ∧ after = host)
      (prologue layout.slotCount order) layout.entry host := by
  have hguarded : Guarded handler (Respects layout.entry layout.slotCount) (fun _ _ => True)
      (prologue layout.slotCount order) layout.entry host := by
    refine guarded_enter fun next hat => ?_
    split
    next => exact .nil trivial
    next =>
      refine .go (.of_stores?_eq_none rfl rfl) rfl (guarded_clear ?_ (hat.of_registers rfl rfl))
      intro index hindex
      exact List.mem_range.mp (horder.mem_iff.mp hindex)
  exact hguarded.and_wp (layout.wp_prologue horder)

variable (layout) in
/-- Popping the kept registers, the last one first, restores them. -/
theorem wp_popAll {count : Nat} (hcount : count ≤ 6)
    (hrsp : cpu.registers .rsp = cell layout.base (count - 1))
    (hkept : ∀ index < count, cpu.memory.read (cell layout.base (index : Nat)) = layout.kept index)
    (hrestored : ∀ index r, count ≤ index → index < 6 → keptRegisters[index]? = some r →
      cpu.registers r = layout.entry.registers r) :
    Wp handler ((keptRegisters.take count).reverse.map .pop)
      (fun last _ => last.registers .rsp = layout.entry.registers .rsp ∧
        ∀ index r, index < 6 → keptRegisters[index]? = some r →
          last.registers r = layout.entry.registers r) cpu host := by
  -- The registers from `count` on have been restored, and those before it are still on the stack.
  induction count generalizing cpu with
  | zero =>
    refine Wp.nil ⟨?_, fun index r => hrestored index r (Nat.zero_le _)⟩
    rw [hrsp, rsp_entry]
    rfl
  | succ count ih =>
    have hbottom : 6 ≤ layout.bottom := six_le_bottom
    have hseven : keptRegisters.length = 7 := rfl
    have hlt : count < keptRegisters.length := by omega
    obtain ⟨r, hr⟩ : ∃ r, keptRegisters[count]? = some r := ⟨_, List.getElem?_eq_getElem hlt⟩
    have hne : r ≠ .rsp := by
      rintro rfl
      exact absurd (List.mem_of_getElem? hr) (by decide)
    -- The word on top of the stack is the register that was kept last.
    have hvalue : cpu.popWord.1 = layout.entry.registers r := by
      change cpu.memory.read (cpu.registers .rsp) = _
      rw [hrsp, Int.natCast_add, Int.natCast_one, Int.add_sub_cancel, hkept count (by omega),
        Layout.kept, hr]
      rfl
    rw [List.take_add_one, hr, Option.toList_some, List.reverse_append, List.reverse_singleton,
      List.singleton_append, List.map_cons]
    refine Wp.go rfl (ih (by omega) ?_ (fun index hindex => hkept index (by omega)) ?_)
    · refine (if_neg hne.symm).trans ?_
      change cpu.registers .rsp + 8 = _
      rw [hrsp, cell_add_eight (isCell (by omega) (by omega)) (isCell (by omega) (by omega))]
      congr 1
      omega
    · intro index other hle hlt hother
      by_cases heq : other = r
      · rw [heq]
        exact (if_pos rfl).trans hvalue
      · have hindex : index ≠ count := by
          rintro rfl
          exact heq (Option.some.inj (hother.symm.trans hr))
        have hsp : other ≠ .rsp := by
          rintro rfl
          exact absurd (List.mem_of_getElem? hother) (by decide)
        exact ((if_neg heq).trans (if_neg hsp)).trans
          (hrestored index other (by omega) hlt hother)

/-- A register that a call preserves is the stack pointer or kept by the frame. -/
theorem kept_of_isPreserved {r : Register} (h : Processor.isPreserved r = true) :
    r = .rsp ∨ ∃ index < 6, keptRegisters[index]? = some r := by
  cases r <;> revert h <;> decide

/-- The saved registers lie above the place that the epilogue pops from. -/
theorem cell_sub_saved : cell layout.base 0 - Int64.toUInt64 (Int32.toInt64 40) =
    cell layout.base 5 := by
  have hbottom : 6 ≤ layout.bottom := six_le_bottom
  have hzero : IsCell layout.base 0 := isCell (by omega) (by omega)
  have hfive : IsCell layout.base 5 := isCell (by omega) (by omega)
  have hcell := toNat_cell hzero
  have hlow := hfive.low
  have hlt := (cell layout.base 0).toNat_lt
  have hforty : (Int64.toUInt64 (Int32.toInt64 40)).toNat = 40 := by decide
  rw [cell_eq_iff hfive, UInt64.toNat_sub, hforty]
  omega

/-- The epilogue restores every preserved register, whatever is left on the stack. -/
theorem wp_epilogue_restores {stack : List Int64} {slots : Nat → Int64}
    (h : layout.Holds stack slots cpu) (hasResult : Bool) :
    Wp handler (epilogue hasResult).dropLast
      (fun last _ => ∀ r, Processor.isPreserved r = true →
        last.registers r = layout.entry.registers r) cpu host := by
  obtain ⟨first, hepilogue, hfirst⟩ : ∃ first : Operation,
      (epilogue hasResult).dropLast =
        first :: .mov .rsp .rbp :: .subImm .rsp 40 :: (keptRegisters.take 6).reverse.map .pop ∧
      (first = .pop .rax ∨ first = .arith .xor .rax .rax) := by
    cases hasResult
    · exact ⟨_, rfl, Or.inr rfl⟩
    · exact ⟨_, rfl, Or.inl rfl⟩
  -- Taking the result or clearing it leaves the frame pointer and the memory alone.
  obtain ⟨next, hgo, hrbp, hmemory⟩ : ∃ next, cpu.execute first = .go next ∧
      next.registers .rbp = cell layout.base 0 ∧ next.memory = cpu.memory := by
    rcases hfirst with rfl | rfl
    · exact ⟨_, rfl, h.rbp, rfl⟩
    · exact ⟨_, rfl, h.rbp, rfl⟩
  rw [hepilogue]
  refine Wp.go hgo (Wp.go rfl (Wp.go rfl ((layout.wp_popAll (Nat.le_refl 6) ?_ ?_ ?_).mono ?_)))
  · change next.registers .rbp - _ = _
    rw [hrbp]
    exact cell_sub_saved
  · intro index hindex
    change next.memory.read _ = _
    rw [hmemory]
    exact h.kept index (by omega)
  · intro index r hle hlt
    omega
  · rintro last _ ⟨hrsp, hkept⟩ r hr
    rcases kept_of_isPreserved hr with rfl | ⟨index, hindex, hregister⟩
    · exact hrsp
    · exact hkept index r hindex hregister

/-- The epilogue respects the convention, and so does the return after it. -/
theorem guarded_epilogue {stack : List Int64} {slots : Nat → Int64}
    (h : layout.Holds stack slots cpu) (hasResult : Bool) :
    Guarded handler (Respects layout.entry layout.slotCount)
      (fun last _ => Respects layout.entry layout.slotCount .ret last)
      (epilogue hasResult).dropLast cpu host := by
  have hplain : ∀ operation ∈ (epilogue hasResult).dropLast, operation.leavesMemory = true := by
    cases hasResult <;> decide
  have hrestores : Wp handler (epilogue hasResult).dropLast
      (fun last _ => Respects layout.entry layout.slotCount .ret last) cpu host := by
    refine (wp_epilogue_restores h hasResult).mono fun last _ hlast => ?_
    exact ⟨nofun, nofun, nofun, nofun, nofun, fun _ => hlast⟩
  -- Nothing in the epilogue stores or calls, so only the return has something to respect.
  refine .of_wp (fun rest _ => ∀ operation ∈ rest, operation.leavesMemory = true) ?_ ?_
    hrestores hplain
  · intro operation rest cpu next hall hgo
    obtain ⟨hfirst, hrest⟩ := List.forall_mem_cons.mp hall
    exact ⟨.of_stores?_eq_none (Operation.stores?_of_leavesMemory hfirst cpu) hgo, hrest⟩
  · intro operation rest cpu next target residue hall hcall
    obtain ⟨r, rfl, -⟩ := Operation.eq_call_of_execute hcall
    exact absurd (hall _ List.mem_cons_self) Bool.false_ne_true

end Layout

/-! ### Whole programs -/

/-- The code of a program follows the stack discipline. -/
theorem Draft.balanced_instructions {platform : Platform} {slots : List String}
    {draft last : Draft} {code : List Operation} {rest : Program} {pc limit : Nat}
    (h : draft.instructions slots platform.printAddress rest pc = .ok (code, last))
    (hroom : draft.height slots platform.printAddress rest pc ≤ limit) :
    Balanced slots.length limit code draft.stack.length last.stack.length := by
  induction rest generalizing draft pc code with
  | nil =>
    cases h
    exact .nil
  | cons instruction rest ih =>
    rw [instructions] at h
    obtain ⟨⟨operations, next⟩, hfirst, h⟩ := exists_of_bind_eq_ok h
    obtain ⟨⟨more, last⟩, hmore, h⟩ := exists_of_bind_eq_ok h
    cases h
    have hheight := Nat.le_trans (height_next_le hfirst) hroom
    exact (balanced_instruction hfirst (Nat.le_trans length_le_height hroom)
      (Nat.le_trans length_le_height hheight)).append (ih hmore hheight)

/-- The operations of a program respect the convention. -/
theorem guarded_assembled {order : Nat → List Nat} {platform : Platform} {program : Program}
    {code : List Operation} {last : Draft}
    (horder : ∀ count, (order count).Perm (List.range count)) (hstack : platform.HasStack program)
    (hplaces : 8 * (slotNames program).length + 48 ≤ 0x80000000)
    (hcode : Draft.instructions {} (slotNames program) platform.printAddress program 0 =
      .ok (code, last))
    (haligned : (platform.entry.registers .rsp).toNat % 16 = 8) (host : PrintContext) :
    Guarded platform.handler (Respects platform.entry (slotNames program).length)
      (fun last _ => Respects platform.entry (slotNames program).length .ret last)
      (prologue (slotNames program).length (order (slotNames program).length) ++ code ++
        (epilogue (!last.stack.isEmpty)).dropLast) platform.entry host := by
  have hnodup := nodup_slotNames program
  rw [List.append_assoc]
  refine ((Layout.forProgram hstack hplaces).guarded_prologue (horder _)).append ?_
  rintro entered _ ⟨hentered, rfl⟩
  have hframed := Draft.inFrame_start (slotNames program) hentered
  have hbalanced : Balanced (Layout.forProgram hstack hplaces).slotCount
      (Layout.forProgram hstack hplaces).depth code 0 last.stack.length :=
    Draft.balanced_instructions hcode (Nat.le_refl _)
  refine (hbalanced.guarded
    (Draft.wp_instructions hnodup Draft.isSound_start hcode rfl rfl (Nat.le_refl _) hframed)
    hentered.at_length haligned).append ?_
  rintro executed after ⟨hexecuted, -⟩
  exact Layout.guarded_epilogue hexecuted _

/-- The code of an epilogue ends with a return. -/
theorem encodeAll_epilogue (body : List Operation) (hasResult : Bool) (rest : List UInt8) :
    Operation.encodeAll (body ++ epilogue hasResult) ++ rest =
      Operation.encodeAll (body ++ (epilogue hasResult).dropLast) ++
        (Operation.ret.encode ++ rest) := by
  conv_lhs => rw [epilogue_eq]
  simp [Operation.encodeAll]

/-- Compiled code respects the calling convention. Let it be entered on an aligned stack, in any
state of the processor and of the host, with whatever bytes behind it, and let every call leave
anything in the registers that it need not preserve and in the memory below the stack pointer. Then
no two places of what the frame keeps and of the variables overlap, the convention is respected by
every operation on the way, and the way comes to the return. -/
theorem respects_convention {order : Nat → List Nat} {platform : Platform} {program : Program}
    {operations : List Operation} {hasResult : Bool}
    (horder : ∀ count, (order count).Perm (List.range count))
    (hassemble : assembleIn order platform.printAddress program = .ok (operations, hasResult))
    (hstack : platform.HasStack program)
    (haligned : (platform.entry.registers .rsp).toNat % 16 = 8) (host : PrintContext)
    (rest : List UInt8) :
    (homes platform.entry (slotNames program).length).Pairwise Apart ∧
    (∀ m, Moment.Reaches (Operation.encodeAll operations ++ rest) platform.handler
        ⟨0, platform.entry, host⟩ m → ∃ operation behind,
      Operation.decode? ((Operation.encodeAll operations ++ rest).drop m.position) =
        some (operation, behind) ∧
      Respects platform.entry (slotNames program).length operation m.cpu) ∧
    ∃ m, Moment.Reaches (Operation.encodeAll operations ++ rest) platform.handler
        ⟨0, platform.entry, host⟩ m ∧
      Operation.decode? ((Operation.encodeAll operations ++ rest).drop m.position) =
        some (.ret, rest) := by
  obtain ⟨hplaces, code, last, hcode, rfl, rfl⟩ := assembleIn_ok hassemble
  have hguarded := guarded_assembled horder hstack hplaces hcode haligned host
  have hbytes := List.drop_zero.trans (encodeAll_epilogue (prologue (slotNames program).length
    (order (slotNames program).length) ++ code) (!last.stack.isEmpty) rest)
  refine ⟨(Layout.forProgram hstack hplaces).pairwise_homes, ?_, ?_⟩
  · intro m hm
    exact hguarded.reaches hbytes hm
  · obtain ⟨m, hreaches, hret, -⟩ := hguarded.exists_return hbytes
    exact ⟨m, hreaches, hret⟩

theorem respects_convention_product :
    ∃ operations hasResult,
      assembleIn (fun count => (List.range count).reverse) 0 product = .ok (operations, hasResult) ∧
      (homes ({} : Platform).entry (slotNames product).length).Pairwise Apart ∧
      (∀ m, Moment.Reaches (Operation.encodeAll operations ++ []) ({} : Platform).handler
          ⟨0, ({} : Platform).entry, { sink := ({} : Machine).output }⟩ m → ∃ operation behind,
        Operation.decode? ((Operation.encodeAll operations ++ []).drop m.position) =
          some (operation, behind) ∧
        Respects ({} : Platform).entry (slotNames product).length operation m.cpu) ∧
      ∃ m, Moment.Reaches (Operation.encodeAll operations ++ []) ({} : Platform).handler
          ⟨0, ({} : Platform).entry, { sink := ({} : Machine).output }⟩ m ∧
        Operation.decode? ((Operation.encodeAll operations ++ []).drop m.position) =
          some (.ret, []) := by
  obtain ⟨operations, hasResult, hassemble⟩ : ∃ operations hasResult,
      assembleIn (fun count => (List.range count).reverse) 0 product =
        .ok (operations, hasResult) := ⟨_, _, rfl⟩
  have hplatform : ({} : Platform).HasStack product :=
    Platform.hasStack_of_length (by decide) (by decide)
  exact ⟨operations, hasResult, hassemble, respects_convention (fun count => List.reverse_perm _)
    (show assembleIn _ ({} : Platform).printAddress product = _ from hassemble) hplatform
    (by decide) { sink := ({} : Machine).output } []⟩

end StackMachine.Native
