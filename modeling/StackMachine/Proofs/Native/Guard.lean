import Mathlib.Logic.Relation
import StackMachine.Proofs.Native.Code

/-!
# Every operation of a run

What a run leaves behind does not show what it did on the way. Here a run of machine code is seen as
the moments it passes through, one before each operation, so that a condition can be asked of every
operation that is executed, in the state in which it is executed.

## Main definitions

* `Native.Moment`: where a run of machine code is.
* `Native.Moment.Reaches`: the moments that a run passes through.
* `Native.Guarded`: operations that get through, each in a state that satisfies a guard.

## Main results

* `Native.Moment.Leads.runCode_eq`: the moments are those of `runCode`.
* `Native.Guarded.reaches`: what is guarded operation by operation holds at every moment of a run
  of the code.
-/

namespace StackMachine.Native

/-- Where a run of machine code is: before the operation at a position. -/
structure Moment (σ : Type) where
  /-- The position of the next operation. -/
  position : Nat
  /-- The processor. -/
  cpu : Processor
  /-- The host. -/
  host : σ

namespace Moment

variable {σ : Type} {code : List UInt8} {handler : CallHandler σ}

/-- The operation that is next in the code is executed, and the run goes on. -/
inductive Leads (code : List UInt8) (handler : CallHandler σ) : Moment σ → Moment σ → Prop
  | go {m : Moment σ} {operation : Operation} {rest : List UInt8} {next : Processor} :
      Operation.decode? (code.drop m.position) = some (operation, rest) →
      m.cpu.execute operation = .go next →
      Leads code handler m ⟨code.length - rest.length, next, m.host⟩
  | jump {m : Moment σ} {operation : Operation} {rest : List UInt8} {next : Processor}
      {distance : Int32} {target : Nat} :
      Operation.decode? (code.drop m.position) = some (operation, rest) →
      m.cpu.execute operation = .jump next distance →
      offsetBy? (code.length - rest.length) distance = some target →
      Leads code handler m ⟨target, next, m.host⟩
  | call {m : Moment σ} {operation : Operation} {rest : List UInt8} {next : Processor}
      {target : Word} {after : σ} {residue : Processor.Residue} :
      Operation.decode? (code.drop m.position) = some (operation, rest) →
      m.cpu.execute operation = .call next target →
      handler next target m.host = some (after, residue) →
      Leads code handler m ⟨code.length - rest.length, next.afterCall residue, after⟩

/-- The moments that a run passes through. -/
def Reaches (code : List UInt8) (handler : CallHandler σ) : Moment σ → Moment σ → Prop :=
  Relation.ReflTransGen (Leads code handler)

/-- A run from a moment is a run from the moment that it leads to. -/
theorem Leads.runCode_eq {m next : Moment σ} (h : Leads code handler m next) (steps : Nat) :
    runCode code handler (steps + 1) m.position m.cpu m.host =
      runCode code handler steps next.position next.cpu next.host := by
  cases h with
  | go hop hexecute => simp only [runCode, hop, hexecute]
  | jump hop hexecute htarget => simp only [runCode, hop, hexecute, htarget]
  | call hop hexecute hanswer => simp only [runCode, hop, hexecute, hanswer]

variable {m next : Moment σ} {operation : Operation} {rest : List UInt8} {cpu : Processor}

/-- Where the operation goes on there is one next moment. -/
theorem Leads.eq_of_go (h : Leads code handler m next)
    (hop : Operation.decode? (code.drop m.position) = some (operation, rest))
    (hexecute : m.cpu.execute operation = .go cpu) :
    next = ⟨code.length - rest.length, cpu, m.host⟩ := by
  cases h <;> simp_all

/-- Where it calls the host, the answer determines the next moment. -/
theorem Leads.eq_of_call {target : Word} {after : σ} {residue : Processor.Residue}
    (h : Leads code handler m next)
    (hop : Operation.decode? (code.drop m.position) = some (operation, rest))
    (hexecute : m.cpu.execute operation = .call cpu target)
    (hanswer : handler cpu target m.host = some (after, residue)) :
    next = ⟨code.length - rest.length, cpu.afterCall residue, after⟩ := by
  cases h <;> simp_all

/-- A return is the last operation of a run. -/
theorem Leads.not_ret (h : Leads code handler m next) :
    Operation.decode? (code.drop m.position) ≠ some (.ret, rest) := by
  intro hop
  cases h <;> simp_all [Processor.execute]

end Moment

section Guarded

variable {σ : Type} {handler : CallHandler σ} {guard : Operation → Processor → Prop}
  {cpu : Processor} {host : σ} {operation : Operation}
  {operations more : List Operation} {post other : Processor → σ → Prop}

/-- The operations get through, each is executed in a state that satisfies the guard, and the
condition holds after them. -/
inductive Guarded (handler : CallHandler σ) (guard : Operation → Processor → Prop)
    (post : Processor → σ → Prop) : List Operation → Processor → σ → Prop
  | nil {cpu : Processor} {host : σ} : post cpu host → Guarded handler guard post [] cpu host
  | go {operation : Operation} {rest : List Operation} {cpu next : Processor} {host : σ} :
      guard operation cpu → cpu.execute operation = .go next →
      Guarded handler guard post rest next host →
      Guarded handler guard post (operation :: rest) cpu host
  | call {operation : Operation} {rest : List Operation} {cpu next : Processor} {host after : σ}
      {target : Word} {residue : Processor.Residue} :
      guard operation cpu → cpu.execute operation = .call next target →
      handler next target host = some (after, residue) →
      Guarded handler guard post rest (next.afterCall residue) after →
      Guarded handler guard post (operation :: rest) cpu host

namespace Guarded

/-- Guarded operations after guarded operations. -/
theorem append (h : Guarded handler guard post operations cpu host)
    (hmore : ∀ cpu host, post cpu host → Guarded handler guard other more cpu host) :
    Guarded handler guard other (operations ++ more) cpu host := by
  induction h with
  | nil hpost => exact hmore _ _ hpost
  | go hguard hexecute _ ih => exact .go hguard hexecute ih
  | call hguard hexecute hanswer _ ih => exact .call hguard hexecute hanswer ih

/-- What is guarded, and what holds after it. -/
theorem and_wp (h : Guarded handler guard post operations cpu host)
    (hwp : Wp handler operations other cpu host) :
    Guarded handler guard other operations cpu host := by
  -- What the operations do is a function of the state, so both speak of the same run.
  obtain ⟨last, final, hexecute, hother⟩ := hwp
  induction h with
  | nil =>
    cases hexecute
    exact .nil hother
  | go hguard hgo _ ih => exact .go hguard hgo (ih ((executeAll_cons_go hgo).symm.trans hexecute))
  | call hguard hcall hanswer _ ih =>
    exact .call hguard hcall hanswer (ih ((executeAll_cons_call hcall hanswer).symm.trans hexecute))

/-- Operations that get through are guarded if an invariant of what is left to execute implies the
guard at each of them. -/
theorem of_wp (invariant : List Operation → Processor → Prop)
    (hgo : ∀ operation rest cpu next, invariant (operation :: rest) cpu →
      cpu.execute operation = .go next → guard operation cpu ∧ invariant rest next)
    (hcall : ∀ operation rest cpu next target residue, invariant (operation :: rest) cpu →
      cpu.execute operation = .call next target →
      guard operation cpu ∧ invariant rest (next.afterCall residue))
    (h : Wp handler operations post cpu host) (hinvariant : invariant operations cpu) :
    Guarded handler guard post operations cpu host := by
  obtain ⟨last, final, h, hpost⟩ := h
  -- The induction is on what is left to execute, which the invariant speaks of.
  induction operations generalizing cpu host with
  | nil =>
    cases h
    exact .nil hpost
  | cons operation operations ih =>
    rw [executeAll] at h
    cases hexecute : cpu.execute operation with
    | go next =>
      rw [hexecute] at h
      obtain ⟨hguard, hnext⟩ := hgo _ _ _ _ hinvariant hexecute
      exact .go hguard hexecute (ih hnext h)
    | call next target =>
      rw [hexecute] at h
      dsimp only at h
      cases hanswer : handler next target host with
      -- A call without answer does not get through.
      | none =>
        rw [hanswer] at h
        cases h
      | some answer =>
        rw [hanswer] at h
        obtain ⟨hguard, hnext⟩ := hcall _ _ _ _ _ answer.2 hinvariant hexecute
        exact .call hguard hexecute hanswer (ih hnext h)
    -- Operations that get through neither jump nor return.
    | jump | done | trap =>
      rw [hexecute] at h
      cases h

section Code

variable {code rest : List UInt8} {position : Nat}

/-- The first of the operations that code encodes, and the code behind it. -/
theorem decode?_head
    (h : code.drop position =
      Operation.encodeAll (operation :: operations) ++ (Operation.ret.encode ++ rest)) :
    ∃ behind, Operation.decode? (code.drop position) = some (operation, behind) ∧
      code.drop (code.length - behind.length) =
        Operation.encodeAll operations ++ (Operation.ret.encode ++ rest) := by
  rw [Operation.encodeAll, List.flatMap_cons, List.append_assoc] at h
  refine ⟨_, ?_, drop_behind h⟩
  rw [h, Operation.decode?_encode]
  rfl

theorem decode?_ret
    (h : code.drop position = Operation.encodeAll [] ++ (Operation.ret.encode ++ rest)) :
    Operation.decode? (code.drop position) = some (.ret, rest) := by
  rw [h, Operation.encodeAll, List.flatMap_nil, List.nil_append, Operation.decode?_encode]

/-- Code that encodes guarded operations and a return: the operation at every moment of a run
satisfies the guard. -/
theorem reaches (h : Guarded handler guard (fun cpu _ => guard .ret cpu) operations cpu host)
    (hcode : code.drop position =
      Operation.encodeAll operations ++ (Operation.ret.encode ++ rest))
    {m : Moment σ} (hm : Moment.Reaches code handler ⟨position, cpu, host⟩ m) :
    ∃ operation rest, Operation.decode? (code.drop m.position) = some (operation, rest) ∧
      guard operation m.cpu := by
  -- The induction follows the operations: a moment is the first one, or comes after the next one.
  induction h generalizing position with
  | nil hguard =>
    have hret := decode?_ret hcode
    rcases hm.cases_head with rfl | ⟨next, hleads, -⟩
    · exact ⟨.ret, rest, hret, hguard⟩
    · exact absurd hret hleads.not_ret
  | go hguard hexecute _ ih =>
    obtain ⟨behind, hop, hnext⟩ := decode?_head hcode
    rcases hm.cases_head with rfl | ⟨next, hleads, hreaches⟩
    · exact ⟨_, behind, hop, hguard⟩
    · rw [hleads.eq_of_go hop hexecute] at hreaches
      exact ih hnext hreaches
  | call hguard hexecute hanswer _ ih =>
    obtain ⟨behind, hop, hnext⟩ := decode?_head hcode
    rcases hm.cases_head with rfl | ⟨next, hleads, hreaches⟩
    · exact ⟨_, behind, hop, hguard⟩
    · rw [hleads.eq_of_call hop hexecute hanswer] at hreaches
      exact ih hnext hreaches

/-- Code that encodes guarded operations and a return comes to the return. -/
theorem exists_return (h : Guarded handler guard post operations cpu host)
    (hcode : code.drop position =
      Operation.encodeAll operations ++ (Operation.ret.encode ++ rest)) :
    ∃ m : Moment σ, Moment.Reaches code handler ⟨position, cpu, host⟩ m ∧
      Operation.decode? (code.drop m.position) = some (.ret, rest) ∧ post m.cpu m.host := by
  -- The moments that lead to the return are collected from the first operation on.
  induction h generalizing position with
  | nil hpost => exact ⟨⟨position, _, _⟩, .refl, decode?_ret hcode, hpost⟩
  | go _ hexecute _ ih =>
    obtain ⟨behind, hop, hnext⟩ := decode?_head hcode
    obtain ⟨m, hreaches, hret, hpost⟩ := ih hnext
    exact ⟨m, .head (.go hop hexecute) hreaches, hret, hpost⟩
  | call _ hexecute hanswer _ ih =>
    obtain ⟨behind, hop, hnext⟩ := decode?_head hcode
    obtain ⟨m, hreaches, hret, hpost⟩ := ih hnext
    exact ⟨m, .head (.call hop hexecute hanswer) hreaches, hret, hpost⟩

end Code

end Guarded

end Guarded

end StackMachine.Native
