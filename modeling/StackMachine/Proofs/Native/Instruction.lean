import StackMachine.Proofs.Collection.Entries
import StackMachine.Proofs.Native.Emission

/-!
# The code of instructions

Between two instructions the frame holds the words of the values that the compiler knows. The code
of an instruction takes the frame from what is known before the instruction to what is known after
it, and has the host print what the instruction prints.

## Main definitions

* `Native.Draft.InFrame`: the frame holds what is known.
* `Native.Draft.Carries`: code that takes the frame from one draft to the next.

## Main results

* `Native.Draft.carries_pushVariable`, `Native.Draft.carries_storeVariable`,
  `Native.Draft.carries_print` and so on: the code of each kind of instruction.
-/

namespace StackMachine.Native

open Layout (IsFree)

/-- Collecting names adds no name twice, and at most one for each that is found. -/
theorem collect_names (found : List String) {names : List String} (h : names.Nodup) :
    (found.foldl (fun names name => if name ∈ names then names else names ++ [name])
        names).Nodup ∧
      (found.foldl (fun names name => if name ∈ names then names else names ++ [name])
        names).length ≤ names.length + found.length := by
  induction found generalizing names with
  | nil => exact ⟨h, Nat.le_refl _⟩
  | cons name found ih =>
    rw [List.foldl_cons, List.length_cons]
    by_cases hmem : name ∈ names
    · rw [if_pos hmem]
      obtain ⟨hnodup, hlength⟩ := ih h
      exact ⟨hnodup, by omega⟩
    · have hadded : (names ++ [name]).Nodup := by
        rw [List.nodup_append]
        refine ⟨h, List.nodup_singleton name, ?_⟩
        rintro other hother _ hname rfl
        exact hmem (List.mem_singleton.mp hname ▸ hother)
      rw [if_neg hmem]
      obtain ⟨hnodup, hlength⟩ := ih hadded
      rw [List.length_append, List.length_singleton] at hlength
      exact ⟨hnodup, by omega⟩

/-- Each variable has one slot. -/
theorem nodup_slotNames (program : Program) : (slotNames program).Nodup :=
  (collect_names _ List.nodup_nil).1

/-- There are at most as many slots as instructions. -/
theorem length_slotNames_le (program : Program) : (slotNames program).length ≤ program.length := by
  have hfound := List.length_filterMap_le slotName? program
  have hlength := (collect_names (program.filterMap slotName?) List.nodup_nil).2
  rw [List.length_nil, Nat.zero_add] at hlength
  exact Nat.le_trans hlength hfound

/-- Collecting names finds them all, and keeps those that were there. -/
theorem mem_collect_names {found names : List String} {name : String}
    (h : name ∈ names ∨ name ∈ found) :
    name ∈ found.foldl (fun names name => if name ∈ names then names else names ++ [name])
      names := by
  induction found generalizing names with
  | nil => exact h.resolve_right List.not_mem_nil
  | cons first found ih =>
    rw [List.foldl_cons]
    apply ih
    rw [List.mem_cons, ← or_assoc] at h
    refine h.imp_left fun h => ?_
    split
    next hmem => exact h.elim id fun heq => heq ▸ hmem
    next => exact List.mem_append.mpr (h.imp_right List.mem_singleton.mpr)

/-- Each variable that an instruction needs a slot for has one. -/
theorem mem_slotNames {program : Program} {instruction : Instruction} {name : String}
    (hmem : instruction ∈ program) (h : slotName? instruction = some name) :
    name ∈ slotNames program :=
  mem_collect_names (Or.inr (List.mem_filterMap.mpr ⟨instruction, hmem, h⟩))

/-- A variable that has a place has a slot. -/
theorem exists_slot_of_placeOf {slots : List String} {name : String} {place : Int32}
    (h : placeOf slots name = .ok place) :
    ∃ index < slots.length, slots[index]? = some name ∧ place = slotPlace index := by
  rw [placeOf] at h
  split at h
  next index hindex =>
    obtain ⟨hlt, hname, -⟩ := List.idxOf?_eq_some_iff.mp hindex
    exact ⟨index, hlt, List.getElem?_eq_some_iff.mpr ⟨hlt, hname⟩, (Except.ok.inj h).symm⟩
  next => cases h

/-- A variable that has a slot has a place. -/
theorem exists_placeOf_of_mem {slots : List String} {name : String} (h : name ∈ slots) :
    ∃ place, placeOf slots name = .ok place := by
  rw [placeOf]
  cases hindex : slots.idxOf? name with
  | none => exact absurd h (List.idxOf?_eq_none_iff.mp hindex)
  | some index => exact ⟨_, rfl⟩

/-- The host after an instruction that prints a value, or none. -/
def PrintContext.afterPrint (host : PrintContext) : Option Known → PrintContext
  | none => host
  | some known => { host.print known.word known.printKind with calls := host.calls + 1 }

namespace Draft

/-- The word that compiled code keeps for a variable. -/
def variableWord (draft : Draft) (name : String) : Int64 :=
  ((Entries.find? name draft.bindings).getD .zero).word

/-- The word that compiled code keeps in a slot. -/
def slotWord (draft : Draft) (slots : List String) (index : Nat) : Int64 :=
  (slots[index]?.map draft.variableWord).getD 0

/-- The frame holds what is known. -/
def InFrame (draft : Draft) (layout : Layout) (slots : List String) (cpu : Processor) : Prop :=
  layout.Holds (draft.stack.map Known.word) (draft.slotWord slots) cpu

/-- A variable is what was stored in it last. -/
theorem slotWord_insert {draft next : Draft} {slots : List String} {name : String} {known : Known}
    {index : Nat} (hnodup : slots.Nodup) (hname : slots[index]? = some name)
    (hnext : next.bindings = Entries.insert name known draft.bindings) {other : Nat}
    (hother : other < slots.length) :
    (if other = index then known.word else draft.slotWord slots other) =
      next.slotWord slots other := by
  have hsome := List.getElem?_eq_getElem hother
  rw [slotWord, slotWord, hsome, Option.map_some, Option.map_some, Option.getD_some,
    Option.getD_some, variableWord, variableWord, hnext, Entries.find?_insert]
  by_cases heq : other = index
  · subst heq
    rw [if_pos rfl, if_pos (Option.some.inj (hname.symm.trans hsome))]
    rfl
  · -- Another slot belongs to another variable, since no name has two slots.
    rw [if_neg heq, if_neg]
    rintro rfl
    exact heq ((List.getElem?_inj hother hnodup).mp (hsome.trans hname.symm))

/-- Code that takes the frame from one draft to the next and has the host print a value, or none. -/
def Carries (platform : Platform) (slots : List String) (printed : Option Known)
    (code : List Operation) (draft next : Draft) : Prop :=
  ∀ ⦃layout : Layout⦄ ⦃cpu : Processor⦄ ⦃host : PrintContext⦄, layout.entry = platform.entry →
    layout.slotCount = slots.length → next.stack.length ≤ layout.depth →
    draft.InFrame layout slots cpu →
    Wp platform.handler code (fun last after => next.InFrame layout slots last ∧
      after = host.afterPrint printed) cpu host

section Carries

variable {platform : Platform} {slots : List String} {draft next : Draft} {code : List Operation}
  {name : String} {pc : Nat}

theorem carries_nil : Carries platform slots none [] draft draft :=
  fun _ _ _ _ _ _ hframe => Wp.nil ⟨hframe, rfl⟩

/-- The compiler takes only registers that are free to change. -/
theorem isFree_register (draft : Draft) : IsFree draft.register.1 := draft.ring.isFree_allocate

/-- The code of a literal pushes it, and the compiler knows it. -/
theorem carries_pushLiteral {value : Value} (h : draft.pushLiteral value = .ok (code, next)) :
    Carries platform slots none code draft next ∧ ∃ known, Known.ofValue? value = some known ∧
      next = { draft with ring := next.ring, stack := known :: draft.stack } := by
  rw [pushLiteral] at h
  split at h
  next => cases h
  next known hknown =>
    cases h
    refine ⟨?_, known, hknown, rfl⟩
    intro layout cpu host _ _ hroom hframe
    rw [List.length_cons] at hroom
    refine hframe.wp_movImm draft.isFree_register fun first hfirst hvalue _ => ?_
    refine hfirst.wp_push (by rwa [List.length_map]) hvalue fun last hlast => ?_
    exact Wp.nil ⟨hlast, rfl⟩

/-- The code of a variable pushes what its slot holds, and the compiler knows what it knew about the
slot. -/
theorem carries_pushVariable (h : draft.pushVariable slots name = .ok (code, next)) :
    Carries platform slots none code draft next ∧
      next = { draft with
        ring := next.ring
        stack := (Entries.find? name draft.bindings).getD .zero :: draft.stack } := by
  rw [pushVariable] at h
  obtain ⟨place, hplace, h⟩ := exists_of_bind_eq_ok h
  obtain ⟨index, hindex, hname, rfl⟩ := exists_slot_of_placeOf hplace
  cases h
  refine ⟨?_, rfl⟩
  intro layout cpu host _ hslots hroom hframe
  rw [List.length_cons] at hroom
  have hword : draft.slotWord slots index = draft.variableWord name := by
    rw [slotWord, hname]
    rfl
  refine hframe.wp_load (by omega) draft.isFree_register fun first hfirst hvalue => ?_
  rw [hword] at hvalue
  refine hfirst.wp_push (by rwa [List.length_map]) hvalue fun last hlast => ?_
  exact Wp.nil ⟨hlast, rfl⟩

/-- The code of a store moves the top of the stack into the slot, with what is known about it. -/
theorem carries_storeVariable (hnodup : slots.Nodup)
    (h : draft.storeVariable slots name pc = .ok (code, next)) :
    Carries platform slots none code draft next ∧ ∃ known rest, draft.stack = known :: rest ∧
      next = { draft with
        ring := next.ring
        stack := rest
        bindings := Entries.insert name known draft.bindings } := by
  rw [storeVariable] at h
  obtain ⟨place, hplace, h⟩ := exists_of_bind_eq_ok h
  obtain ⟨index, hindex, hname, rfl⟩ := exists_slot_of_placeOf hplace
  cases hstack : draft.stack with
  | nil =>
    simp only [popValue, hstack] at h
    cases h
  | cons known rest =>
    simp only [popValue, hstack] at h
    cases h
    refine ⟨?_, known, rest, rfl, rfl⟩
    intro layout cpu host _ hslots _ hframe
    rw [InFrame, hstack] at hframe
    refine hframe.wp_pop draft.isFree_register fun first hfirst hvalue _ => ?_
    refine hfirst.wp_store (by omega) hvalue fun last hlast _ => ?_
    refine Wp.nil ⟨hlast.slots_congr ?_, rfl⟩
    intro other hother
    exact slotWord_insert hnodup hname rfl (by omega)

/-- The code of a declaration clears the slot. -/
theorem carries_declare (hnodup : slots.Nodup) (h : draft.declare slots name = .ok (code, next)) :
    Carries platform slots none code draft next ∧
      next = { draft with
        ring := next.ring
        bindings := Entries.insert name .zero draft.bindings } := by
  rw [declare] at h
  obtain ⟨place, hplace, h⟩ := exists_of_bind_eq_ok h
  obtain ⟨index, hindex, hname, rfl⟩ := exists_slot_of_placeOf hplace
  cases h
  refine ⟨?_, rfl⟩
  intro layout cpu host _ hslots _ hframe
  refine Wp.go rfl ?_
  have hzero : Known.zero.word.toUInt64 = 0 := rfl
  refine ((hframe.set draft.isFree_register _).setFlags _).wp_store (by omega)
    ((if_pos rfl).trans (UInt64.xor_self.trans hzero.symm)) fun last hlast _ => ?_
  refine Wp.nil ⟨hlast.slots_congr ?_, rfl⟩
  intro other hother
  exact slotWord_insert hnodup hname rfl (by omega)

/-- Taking a value moves the top of the stack into a register. -/
theorem carries_popValue {r : Register} {known : Known}
    (h : draft.popValue pc = .ok (r, known, code, next)) :
    Carries platform slots none code draft next ∧ draft.stack = known :: next.stack ∧
      next = { draft with ring := next.ring, stack := next.stack } := by
  rw [popValue] at h
  split at h
  next => cases h
  next known rest hstack =>
    cases h
    refine ⟨?_, hstack, rfl⟩
    intro layout cpu host _ _ _ hframe
    rw [InFrame, hstack] at hframe
    exact hframe.wp_pop draft.isFree_register fun last hlast _ _ => Wp.nil ⟨hlast, rfl⟩

/-- Code that computes replaces what is known about its operands. -/
theorem carries_of_computes (operands : List Known) {rest : List Known} {known : Known}
    (h : Computes code (operands.map Known.word) known.word)
    (hstack : draft.stack = operands ++ rest)
    (hnext : next = { draft with ring := next.ring, stack := known :: rest }) :
    Carries platform slots none code draft next := by
  intro layout cpu host _ _ _ hframe
  rw [InFrame, hstack, List.map_append] at hframe
  refine (h hframe).mono ?_
  rintro last _ ⟨hlast, rfl⟩
  refine ⟨?_, rfl⟩
  rw [hnext]
  exact hlast

/-- The operations that hand a value in a register to the function that prints. -/
theorem wp_print {layout : Layout} {stack : List Int64} {words : Nat → Int64} {cpu : Processor}
    {host : PrintContext} {r : Register} {value kind : Int64} (odd : Prop)
    [Decidable odd] (h : layout.Holds stack words cpu) (hentry : layout.entry = platform.entry)
    (hvalue : cpu.registers r = value.toUInt64) :
    Wp platform.handler
      ([.mov .rsi r, .load .rdi .rbp contextPlace, .movImm .rdx kind,
        .movImm64 .rax platform.printAddress] ++
        ((if odd then [.subImm .rsp 8] else []) ++
          ([.call .rax] ++ if odd then [.addImm .rsp 8] else [])))
      (fun last after => layout.Holds stack words last ∧
        after = { host.print value kind with calls := host.calls + 1 }) cpu host := by
  refine Wp.go rfl (Wp.go rfl ?_)
  have hsecond := (h.set (show IsFree .rsi by decide) (cpu.registers r)).set
    (show IsFree .rdi by decide) ((cpu.set .rsi (cpu.registers r)).memory.read
      ((cpu.set .rsi (cpu.registers r)).address .rbp contextPlace))
  refine hsecond.wp_movImm (show IsFree .rdx by decide) fun third hthird hkind hsame => ?_
  refine Wp.go rfl ?_
  refine (hthird.set (by decide) _).wp_call odd ?_ ?_ hkind rfl
  -- The context pointer comes from the frame, so it is the one on entry.
  · refine (hsame .rdi (by decide)).trans ?_
    rw [← hentry]
    exact (h.set (by decide) _).read_context
  · exact (hsame .rsi (by decide)).trans hvalue

/-- The code of `PRINT` asks the host to print the top of the stack. -/
theorem carries_print (h : draft.print platform.printAddress pc = .ok (code, next)) :
    Carries platform slots draft.stack.head? code draft next ∧
      next = { draft with ring := next.ring, stack := draft.stack.tail } := by
  rw [print] at h
  cases hstack : draft.stack with
  | nil =>
    rw [hstack] at h
    cases h
    refine ⟨carries_nil, ?_⟩
    rw [List.tail_nil, ← hstack]
  | cons known rest =>
    simp only [hstack, popValue] at h
    cases h
    refine ⟨?_, rfl⟩
    intro layout cpu host hentry _ _ hframe
    rw [InFrame, hstack] at hframe
    rw [List.append_assoc, List.append_assoc, List.append_assoc]
    refine hframe.wp_pop draft.isFree_register fun first hfirst hvalue _ => ?_
    exact wp_print (rest.length % 2 = 1) hfirst hentry hvalue

end Carries

end Draft

end StackMachine.Native
