import StackMachine.Native.Region
import StackMachine.Proofs.Native.Memory
import StackMachine.Proofs.Native.Pages

/-!
# Running a sequence of operations

Code without jumps does what its operations do one after the other: the bytes are read back as the
operations that they encode, up to the return.

## Main definitions

* `Native.executeAll`: what a sequence of operations does.
* `Native.Wp`: a sequence of operations gets through, and a condition holds after it.

## Main results

* `Native.runCode_encodeAll`: running the bytes of a sequence of operations that ends with a return.
* `Native.CodeBuffer.finalize_emit`: executable memory begins with the code that was put into it.
-/

namespace StackMachine.Native

section Execution

variable {σ : Type} {handler : CallHandler σ} {cpu next last : Processor} {host after : σ}
  {operation : Operation} {operations : List Operation}

/-- Executes operations one after the other. A jump, a return and a trap have no result here. -/
def executeAll (handler : CallHandler σ) :
    List Operation → Processor → σ → Option (Processor × σ)
  | [], cpu, host => some (cpu, host)
  | operation :: rest, cpu, host =>
    match cpu.execute operation with
    | .go cpu => executeAll handler rest cpu host
    | .call cpu target =>
      match handler cpu target host with
      | some (host, residue) => executeAll handler rest (cpu.afterCall residue) host
      | none => none
    | .jump _ _ | .done _ | .trap => none

/-- An operation that goes on leads to the next one. -/
theorem executeAll_cons_go (h : cpu.execute operation = .go next) :
    executeAll handler (operation :: operations) cpu host =
      executeAll handler operations next host := by
  rw [executeAll, h]

/-- A call is answered by the handler and leads to the next operation. -/
theorem executeAll_cons_call {target : Word} {residue : Processor.Residue}
    (h : cpu.execute operation = .call next target)
    (hhandler : handler next target host = some (after, residue)) :
    executeAll handler (operation :: operations) cpu host =
      executeAll handler operations (next.afterCall residue) after := by
  rw [executeAll, h]
  simp only [hhandler]

/-- The operations of two pieces of code are executed one after the other. -/
theorem executeAll_append {more : List Operation}
    (h : executeAll handler operations cpu host = some (next, after)) :
    executeAll handler (operations ++ more) cpu host = executeAll handler more next after := by
  induction operations generalizing cpu host with
  | nil =>
    cases h
    rfl
  | cons operation operations ih =>
    rw [List.cons_append, executeAll]
    rw [executeAll] at h
    split at h
    next => exact ih h
    next =>
      split at h
      next => exact ih h
      next => cases h
    all_goals cases h

/-- The operations get through, and the condition holds after them. -/
def Wp (handler : CallHandler σ) (operations : List Operation) (post : Processor → σ → Prop)
    (cpu : Processor) (host : σ) : Prop :=
  ∃ last after, executeAll handler operations cpu host = some (last, after) ∧ post last after

namespace Wp

variable {post weaker : Processor → σ → Prop}

theorem nil (h : post cpu host) : Wp handler [] post cpu host := ⟨cpu, host, rfl, h⟩

theorem go (h : cpu.execute operation = .go next) (hrest : Wp handler operations post next host) :
    Wp handler (operation :: operations) post cpu host := by
  obtain ⟨last, after, hexecute, hpost⟩ := hrest
  exact ⟨last, after, (executeAll_cons_go h).trans hexecute, hpost⟩

/-- An operation that calls the host. -/
theorem call {target : Word} {residue : Processor.Residue}
    (h : cpu.execute operation = .call next target)
    (hhandler : handler next target host = some (after, residue))
    (hrest : Wp handler operations post (next.afterCall residue) after) :
    Wp handler (operation :: operations) post cpu host := by
  obtain ⟨last, final, hexecute, hpost⟩ := hrest
  exact ⟨last, final, (executeAll_cons_call h hhandler).trans hexecute, hpost⟩

/-- The condition after the first operations is the one before the others. -/
theorem append {more : List Operation}
    (h : Wp handler operations (Wp handler more post) cpu host) :
    Wp handler (operations ++ more) post cpu host := by
  obtain ⟨next, after, hexecute, last, final, hmore, hpost⟩ := h
  exact ⟨last, final, (executeAll_append hexecute).trans hmore, hpost⟩

/-- A condition may be weakened. -/
theorem mono (h : Wp handler operations post cpu host)
    (hpost : ∀ cpu host, post cpu host → weaker cpu host) :
    Wp handler operations weaker cpu host := by
  obtain ⟨last, after, hexecute, hlast⟩ := h
  exact ⟨last, after, hexecute, hpost last after hlast⟩

end Wp

/-- The bytes behind an operation are what is left of the code. -/
theorem drop_behind {code bytes rest : List UInt8} {position : Nat}
    (h : code.drop position = bytes ++ rest) : code.drop (code.length - rest.length) = rest := by
  have hsuffix : rest <:+ code := by
    refine List.IsSuffix.trans ?_ (List.drop_suffix position code)
    rw [h]
    exact List.suffix_append bytes rest
  exact (List.suffix_iff_eq_drop.mp hsuffix).symm

/-- Code that encodes operations and a return does what the operations do and returns. -/
theorem runCode_encodeAll {code rest : List UInt8} {position steps : Nat}
    (h : executeAll handler operations cpu host = some (last, after))
    (hcode : code.drop position =
      Operation.encodeAll operations ++ (Operation.ret.encode ++ rest))
    (hsteps : operations.length < steps) :
    runCode code handler steps position cpu host = .returned last.popWord.2 after := by
  -- The induction follows the operations; each decodes from where the previous one ended.
  induction operations generalizing cpu host position steps with
  | nil =>
    obtain ⟨steps, rfl⟩ := Nat.exists_eq_add_one_of_ne_zero (Nat.ne_of_gt hsteps)
    cases h
    rw [runCode, hcode, Operation.encodeAll, List.flatMap_nil, List.nil_append,
      Operation.decode?_encode]
    rfl
  | cons operation operations ih =>
    have hpos := Nat.zero_lt_of_lt hsteps
    obtain ⟨steps, rfl⟩ := Nat.exists_eq_add_one_of_ne_zero (Nat.ne_of_gt hpos)
    rw [Operation.encodeAll, List.flatMap_cons, List.append_assoc] at hcode
    have hnext := drop_behind hcode
    have hless : operations.length < steps := Nat.lt_of_succ_lt_succ hsteps
    rw [runCode, hcode, Operation.decode?_encode]
    dsimp only
    rw [executeAll] at h
    cases hexecute : cpu.execute operation with
    | go next =>
      rw [hexecute] at h
      exact ih h hnext hless
    | call next target =>
      rw [hexecute] at h
      dsimp only at h ⊢
      cases hcall : handler next target host with
      | none =>
        rw [hcall] at h
        cases h
      | some answer =>
        rw [hcall] at h
        exact ih h hnext hless
    -- Operations that get through neither jump nor return.
    | jump | done | trap =>
      rw [hexecute] at h
      cases h

end Execution

/-! ### Code in executable memory -/

/-- Every operation has at least one byte. -/
theorem Operation.length_encode_pos (operation : Operation) : 0 < operation.encode.length := by
  cases operation <;> simp [encode, groupImm] <;> split <;> simp

/-- Every operation takes at least one byte. -/
theorem Operation.length_le_encodeAll (operations : List Operation) :
    operations.length ≤ (encodeAll operations).length := by
  induction operations with
  | nil => exact Nat.le_refl _
  | cons operation operations ih =>
    have hpos := operation.length_encode_pos
    rw [encodeAll, List.flatMap_cons, List.length_append, List.length_cons]
    change operations.length + 1 ≤ operation.encode.length + (encodeAll operations).length
    omega

/-- Executable memory begins with the code that was put into it. -/
theorem CodeBuffer.finalize_emit {paging : Paging} {code : List UInt8} {region : Region}
    (h : (({} : CodeBuffer).emit code).finalize paging = .ok region) :
    (∃ rest, region.bytes = code ++ rest) ∧ region.givesFunction 8 = true := by
  obtain ⟨-, mapped, written, -, hwrite, hprotect⟩ := CodeBuffer.finalize_steps.mp h
  obtain ⟨-, -, -, rfl⟩ := Region.write_eq_ok_iff.mp hwrite
  obtain ⟨-, rfl⟩ := Region.protect_eq_ok_iff.mp hprotect
  -- There are no references to patch, so the code is written as it is.
  exact ⟨⟨_, rfl⟩, rfl⟩

/-- A host that grants its requests gives executable memory for code of any reasonable size. -/
theorem CodeBuffer.exists_finalize_emit {paging : Paging} {code : List UInt8}
    (hcode : code ≠ []) (hpage : 0 < paging.pageSize)
    (hspace : code.length + paging.pageSize ≤ addressSpace)
    (hmaps : paging.maps (paging.roundUp code.length) = true)
    (hprotects : ∀ size, paging.protects size = true) :
    ∃ region, (({} : CodeBuffer).emit code).finalize paging = .ok region := by
  have hpos : 0 < code.length := List.length_pos_iff.mpr hcode
  have hfits : code.length + paging.pageSize - 1 < addressSpace := by omega
  exact ⟨_, (finalize_eq_ok_iff hpage).mpr ⟨rfl, hpos, hfits, hmaps, hprotects _, rfl⟩⟩

end StackMachine.Native
