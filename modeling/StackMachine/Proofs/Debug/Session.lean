import StackMachine.Proofs.Debug.View
import StackMachine.Proofs.Session.Basic

/-!
# Calls to run to the next pause

A program is debugged by asking the overlay for something and then running to the next pause, again
and again until the program has ended. The overlay looks exactly once at every instruction that is
executed, and what it decides there follows from the run without the overlay. So the calls pause
along that run and end as it ends.

## Main definitions

* `Machine.debugCall`: the calls, one after the other.
* `Machine.PausesAt`: the calls pause at given machines, in this order.
* `Machine.visited`: the machines in which a run without the overlay executes an instruction.
* `Overlay.pausesAmong`: those among them at which the calls pause.
* `announced`: the output of a run with one line for each pause.

## Main results

* `Machine.pausesThenEnds_of_step`: what one instruction adds to the calls.
* `Machine.pausesThenEnds_debugSteps`: the calls pause at these machines and then end as the run
  does.
-/

namespace StackMachine

/-! ### Calls -/

/-- How a run to the next pause ends if the program ends before any pause. -/
def Outcome.ended : Outcome Unit → Outcome DebugEvent
  | .done () => .done .halted
  | .failed fault => .failed fault
  | .unfinished => .unfinished

namespace Machine

/-- The machine after its overlay was asked for something. -/
def asked (m : Machine) (requests : List Overlay.Request) : Machine :=
  { m with overlay := requests.foldl Overlay.serve m.overlay }

/-- The result of the call with number `k`, counted from zero. Before each call the overlay is
asked for something. -/
def debugCall (steps : Nat) (requests : Nat → List Overlay.Request) :
    (k : Nat) → Machine → Outcome DebugEvent × Machine
  | 0, m => (m.asked (requests 0)).executeDebug steps
  | k + 1, m =>
    debugCall steps (fun i => requests (i + 1)) k ((m.asked (requests 0)).executeDebug steps).2

/-- The calls pause at some machines, in this order. -/
def PausesAt (steps : Nat) (requests : Nat → List Overlay.Request) (m : Machine)
    (paused : List Machine) : Prop :=
  ∀ k (h : k < paused.length),
    (debugCall steps requests k m).1 = .done (.paused paused[k].pc paused[k].currentLine)

/-- The results of a call that is in progress and of the calls after it. -/
def onward (steps : Nat) (requests : Nat → List Overlay.Request)
    (result : Outcome DebugEvent × Machine) : (k : Nat) → Outcome DebugEvent × Machine
  | 0 => result
  | k + 1 => debugCall steps requests k result.2

/-- The first call is followed by the others. -/
theorem debugCall_eq_onward (steps : Nat) (requests : Nat → List Overlay.Request) (k : Nat)
    (m : Machine) :
    debugCall steps requests k m = onward steps (fun i => requests (i + 1))
      ((m.asked (requests 0)).executeDebug steps) k := by
  cases k <;> rfl

/-- The machines in which a run executes an instruction, in order and at most `steps` of them. The
instruction of the last one may fail. -/
def visited (runner : Runner) : (steps : Nat) → Machine → List Machine
  | 0, _ => []
  | steps + 1, m =>
    if m.canStep then
      m :: match (step runner).run m with
        | (.ok (), next) => visited runner steps next
        | (.error _, _) => []
    else []

/-- A run that goes on visits the machine and what comes behind it. -/
theorem visited_of_ok {runner : Runner} {m next : Machine} (hcan : m.canStep = true)
    (hstep : (step runner).run m = (.ok (), next)) (steps : Nat) :
    visited runner (steps + 1) m = m :: visited runner steps next := by
  rw [visited, if_pos hcan, hstep]

/-- A run that fails visits the machine at which it fails. -/
theorem visited_of_error {runner : Runner} {m after : Machine} {e : Interruption}
    (hcan : m.canStep = true) (hstep : (step runner).run m = (.error e, after)) (steps : Nat) :
    visited runner (steps + 1) m = [m] := by
  rw [visited, if_pos hcan, hstep]

theorem visited_of_not_canStep {runner : Runner} {m : Machine} (hcan : m.canStep = false)
    (steps : Nat) : visited runner steps m = [] := by
  cases steps with
  | zero => rfl
  | succ steps => rw [visited, if_neg (by simp [hcan])]

end Machine

/-! ### What the overlay decides -/

namespace Overlay

/-- The overlay in a call, once it has been asked for something. -/
def called (overlay : Overlay) (requests : List Request) : Overlay :=
  { requests.foldl serve overlay with debugging := true }

/-- The machines among some at which the calls pause. The overlay looks at each of them once;
`requests` are those before the calls after the one in progress. -/
def pausesAmong (requests : Nat → List Request) (overlay : Overlay) :
    List Machine → List Machine
  | [] => []
  | m :: later =>
    match (overlay.during m).checkPause m.pc m.currentLine m.bindings with
    | (false, _) => pausesAmong requests overlay later
    | (true, checked) =>
      m :: pausesAmong (fun i => requests (i + 1)) (checked.clearPending.called (requests 0)) later

variable {overlay : Overlay} {m : Machine} {pc line : Nat} {bindings : Variables}

/-- There is at most one pause for each instruction executed. -/
theorem pausesAmong_sublist (requests : Nat → List Request) (overlay : Overlay)
    (machines : List Machine) : (pausesAmong requests overlay machines).Sublist machines := by
  induction machines generalizing requests overlay with
  | nil => exact .slnil
  | cons m later ih =>
    rw [pausesAmong]
    split
    · exact (ih _ _).cons m
    · exact (ih _ _).cons_cons m

/-- A look that does not pause changes nothing. -/
theorem checkPause_of_not (h : (overlay.checkPause pc line bindings).1 = false) :
    overlay.checkPause pc line bindings = (false, overlay) := by
  unfold checkPause at h ⊢
  split at h
  · cases h
  · exact Prod.ext h rfl

/-- A look leaves the calls in progress alone. -/
theorem during_of_checkPause {pauses : Bool} {checked : Overlay}
    (h : (overlay.during m).checkPause pc line bindings = (pauses, checked)) :
    checked.during m = checked := by
  unfold checkPause at h
  split at h
  · dsimp only at h
    split at h <;> cases h <;> rfl
  · cases h
    rfl

/-- A request says nothing about the calls in progress. -/
theorem during_serve (h : overlay.during m = overlay) (request : Request) :
    (overlay.serve request).during m = overlay.serve request := by
  rw [← h]
  cases request <;> rfl

/-- Neither do requests change the calls in progress. -/
theorem during_foldl_serve (h : overlay.during m = overlay) (requests : List Request) :
    (requests.foldl serve overlay).during m = requests.foldl serve overlay := by
  induction requests generalizing overlay with
  | nil => exact h
  | cons request requests ih => exact ih (during_serve h request)

theorem during_called (h : overlay.during m = overlay) (requests : List Request) :
    (overlay.called requests).during m = overlay.called requests :=
  congrArg (fun served : Overlay => { served with debugging := true })
    (during_foldl_serve h requests)

end Overlay

/-! ### Announcements -/

/-- The line that announces a pause. -/
def Machine.announcement (m : Machine) : String :=
  "DEBUGGER PAUSED at PC: " ++ toString m.pc ++ "\n"

/-- A text with another one put in behind its first characters. -/
def insertBehind (count : Nat) (inserted text : String) : String :=
  String.ofList (text.toList.take count) ++ inserted ++ String.ofList (text.toList.drop count)

/-- The output of a run with one line for each pause, put in where the output ended at that
pause. -/
def announced (pauses : List Machine) (text : String) : String :=
  pauses.foldr (fun m text => insertBehind m.output.accepted.length m.announcement text) text

section Announced

variable {pauses : List Machine} {text inserted more : String} {count : Nat}

theorem insertBehind_length (text inserted : String) :
    insertBehind text.length inserted text = text ++ inserted := by
  simp [insertBehind, ← String.length_toList]

/-- What is inserted in the first of two texts leaves the second alone. -/
theorem insertBehind_append (h : count ≤ text.length) (inserted more : String) :
    insertBehind count inserted (text ++ more) = insertBehind count inserted text ++ more := by
  have hcount : count ≤ text.toList.length := by rwa [String.length_toList]
  simp only [insertBehind, String.toList_append, List.take_append_of_le_length hcount,
    List.drop_append_of_le_length hcount, String.ofList_append, String.ofList_toList,
    String.append_assoc]

/-- Announcements only add to a text. -/
theorem length_le_announced (pauses : List Machine) (text : String) :
    text.length ≤ (announced pauses text).length := by
  induction pauses with
  | nil => exact le_rfl
  | cons m pauses ih =>
    refine ih.trans ?_
    simp only [announced, List.foldr_cons, insertBehind, String.length_append,
      String.length_ofList, List.length_take, List.length_drop, String.length_toList]
    omega

/-- What is written after all pauses comes behind all announcements. -/
theorem announced_append (h : ∀ m ∈ pauses, m.output.accepted.length ≤ text.length)
    (more : String) : announced pauses (text ++ more) = announced pauses text ++ more := by
  induction pauses with
  | nil => rfl
  | cons m pauses ih =>
    -- The later announcements are put in first and only make the text longer.
    have htail := ih fun paused hpaused => h paused (List.mem_cons_of_mem m hpaused)
    have hhead : m.output.accepted.length ≤ (announced pauses text).length :=
      (h m List.mem_cons_self).trans (length_le_announced pauses text)
    rw [announced, List.foldr_cons]
    rw [show pauses.foldr _ (text ++ more) = announced pauses (text ++ more) from rfl, htail,
      insertBehind_append hhead]
    rfl

/-- A pause is announced at the end of what has been written. -/
theorem announced_concat {m : Machine}
    (h : ∀ paused ∈ pauses, paused.output.accepted.length ≤ m.output.accepted.length) :
    announced (pauses ++ [m]) m.output.accepted =
      announced pauses m.output.accepted ++ m.announcement := by
  rw [← announced_append h, announced, List.foldr_append, List.foldr_cons, List.foldr_nil,
    insertBehind_length]
  rfl

end Announced

/-! ### Views along a run -/

/-- The view of a run that has paused at some machines and has come to `m`. -/
structure View.Follows (v : View) (pauses : List Machine) (m : Machine) : Prop where
  /-- The stream accepts everything. -/
  accepts : v.output.Accepts
  /-- It is the stream of the run without the overlay, -/
  policy : v.output.policy = m.output.policy
  /-- has been flushed as often, -/
  flushes : v.output.flushes = m.output.flushes
  /-- and differs from it by the announcements. -/
  accepted : v.output.accepted = announced pauses m.output.accepted
  /-- Nothing is taken back of what was written. -/
  earlier : ∀ paused ∈ pauses, paused.output.accepted.length ≤ m.output.accepted.length

namespace View.Follows

variable {v : View} {pauses : List Machine} {m after : Machine}

/-- Before any pause the streams are the same. -/
theorem of_accepts (h : m.output.Accepts) (overlay : Overlay) (resumePc : Option Nat) :
    (View.mk overlay resumePc m.output).Follows [] m := ⟨h, rfl, rfl, rfl, by simp⟩

/-- The stream of the run without the overlay accepts everything too. -/
theorem accepts_plain (h : v.Follows pauses m) : m.output.Accepts := by
  intro lines attempts
  rw [← h.policy]
  exact h.accepts lines attempts

/-- A view goes on following a machine that writes. -/
theorem write (h : v.Follows pauses m) {texts : List String}
    (houtput : after.output = m.output.putAll texts) : (v.write texts).Follows pauses after := by
  obtain ⟨hseen, hseenPolicy, hseenFlushes⟩ := h.accepts.putAll_spec texts
  obtain ⟨hplain, hplainPolicy, hplainFlushes⟩ := h.accepts_plain.putAll_spec texts
  rw [← houtput] at hplain hplainPolicy hplainFlushes
  -- Both streams got the same texts, behind everything announced so far.
  constructor
  · exact h.accepts.putAll texts
  · rw [hplainPolicy, ← h.policy]
    exact hseenPolicy
  · rw [hplainFlushes, ← h.flushes]
    exact hseenFlushes
  · rw [hplain, announced_append h.earlier, ← h.accepted]
    exact hseen
  · intro paused hpaused
    rw [hplain, String.length_append]
    exact (h.earlier paused hpaused).trans (Nat.le_add_right _ _)

/-- Announcing a pause. -/
theorem announce (h : v.Follows pauses m) (overlay : Overlay) (resumePc : Option Nat) :
    (View.mk overlay resumePc
      (v.output.putAll ["DEBUGGER PAUSED at PC: " ++ toString m.pc, "\n"])).Follows
        (pauses ++ [m]) m := by
  obtain ⟨hseen, hpolicy, hflushes⟩ :=
    h.accepts.putAll_spec ["DEBUGGER PAUSED at PC: " ++ toString m.pc, "\n"]
  constructor
  · exact h.accepts.putAll _
  · exact hpolicy.trans h.policy
  · exact hflushes.trans h.flushes
  · rw [announced_concat h.earlier, ← h.accepted]
    exact hseen
  · intro paused hpaused
    rcases List.mem_append.mp hpaused with hpaused | hpaused
    · exact h.earlier paused hpaused
    · rw [List.mem_singleton.mp hpaused]

/-- Only the output of a view decides what it follows. -/
theorem of_output {w : View} (h : v.Follows pauses m) (hview : w.output = v.output)
    (hmachine : after.output = m.output) : w.Follows pauses after := by
  constructor
  · exact hview ▸ h.accepts
  · rw [hview, hmachine, h.policy]
  · rw [hview, hmachine, h.flushes]
  · rw [hview, hmachine, h.accepted]
  · rw [hmachine]
    exact h.earlier

/-- Flushing succeeds or fails under the overlay as without it. -/
theorem flush (h : v.Follows pauses m) : v.output.flush.1 = m.output.flush.1 ∧
    ∀ after : Machine, after.output = m.output.flush.2 →
      (View.mk v.overlay v.resumePc v.output.flush.2).Follows pauses after := by
  -- The stream only counts the flush, whether it refuses it or not.
  have hflush : ∀ sink : Sink,
      sink.flush.2 = { sink with flushes := sink.flushes + 1 } := by
    intro sink
    rw [Sink.flush]
    split <;> rfl
  constructor
  · simp only [Sink.flush, h.policy, h.flushes]
    split <;> rfl
  · intro after hafter
    rw [hflush] at hafter
    rw [hflush]
    constructor
    · exact h.accepts
    · rw [hafter]
      exact h.policy
    · rw [hafter]
      exact congrArg (· + 1) h.flushes
    · rw [hafter]
      exact h.accepted
    · rw [hafter]
      exact h.earlier

end View.Follows

namespace Machine

variable {runner : Runner} {v : View} {pauses : List Machine} {m : Machine}

/-- A step under the overlay keeps what the overlay is asked for, and is the step without it. -/
theorem step_under (runner : Runner) (h : v.Follows pauses m) :
    ∃ w : View, w.overlay = v.overlay ∧ w.resumePc = v.resumePc ∧
      (step runner).run (m.under v) =
        (((step runner).run m).1, ((step runner).run m).2.under w) ∧
      w.Follows pauses ((step runner).run m).2 ∧ ((step runner).run m).2.frame = m.frame := by
  obtain ⟨texts, hframe, houtput, hrun⟩ :=
    transparent_step runner m v h.accepts_plain h.accepts
  exact ⟨v.write texts, rfl, rfl, hrun, h.write houtput, hframe⟩

/-- Reporting a fault does not see the overlay. -/
theorem report_under (m : Machine) (v : View) (fault : Fault) :
    (m.under v).report fault = (m.report fault).under v := by
  simp only [report]
  cases fault.line? <;> rfl

/-- Nor does the last flush. -/
theorem finish_under (h : v.Follows pauses m) :
    ∃ w : View, (m.under v).finish = (m.finish.1, m.finish.2.under w) ∧
      w.Follows pauses m.finish.2 := by
  obtain ⟨hresult, hfollows⟩ := h.flush
  refine ⟨View.mk v.overlay v.resumePc v.output.flush.2, ?_, ?_⟩
  · simp only [finish]
    rw [show (m.under v).output = v.output from rfl, hresult]
    split <;> rfl
  · apply hfollows
    simp only [finish]
    split <;> rfl

theorem complete_under (h : v.Follows pauses m) :
    ∃ w : View, (m.under v).complete = (m.complete.1, m.complete.2.under w) ∧
      w.Follows pauses m.complete.2 := by
  obtain ⟨w, hfinish, hfollows⟩ := finish_under h
  refine ⟨w, ?_, ?_⟩
  · simp only [complete, hfinish]
    rcases m.finish with ⟨_ | fault, after⟩
    · rfl
    · exact Prod.ext rfl (report_under after w fault)
  · revert hfollows
    simp only [complete]
    rcases m.finish with ⟨_ | fault, after⟩
    · exact id
    · exact fun hfollows => hfollows.of_output rfl (output_report after fault)

theorem fail_under (h : v.Follows pauses m) (fault : Fault) :
    ∃ w : View, (m.under v).fail fault = (m.fail fault).under w ∧
      w.Follows pauses (m.fail fault) := by
  have hreport : v.Follows pauses (m.report fault) := h.of_output rfl (output_report m fault)
  obtain ⟨w, hfinish, hfollows⟩ := finish_under hreport
  refine ⟨w, ?_, ?_⟩
  · simp only [fail, report_under, hfinish]
    rcases (m.report fault).finish with ⟨_ | second, after⟩
    · rfl
    · exact report_under after w second
  · revert hfollows
    simp only [fail]
    rcases (m.report fault).finish with ⟨_ | second, after⟩
    · exact id
    · exact fun hfollows => hfollows.of_output rfl (output_report after second)

/-- A run that ignores the overlay ends in the same way with any overlay. -/
theorem runSteps_under {steps : Nat} (h : v.Follows pauses m)
    (hended : (runSteps runner steps m).1 ≠ .unfinished) :
    ∃ w : View, runSteps runner steps (m.under v) =
        ((runSteps runner steps m).1, (runSteps runner steps m).2.under w) ∧
      w.Follows pauses (runSteps runner steps m).2 := by
  fun_induction runSteps runner steps m generalizing v with
  | case1 => simp at hended
  | case2 m hcan steps next hstep ih =>
    obtain ⟨w, -, -, hrun, hfollows, -⟩ := step_under runner h
    rw [hstep] at hrun hfollows
    rw [runSteps, if_pos (show (m.under v).canStep = true from hcan)]
    simp only [hrun]
    exact ih hfollows hended
  | case3 => simp at hended
  | case4 m hcan steps fault after hstep =>
    obtain ⟨w, -, -, hrun, hfollows, -⟩ := step_under runner h
    rw [hstep] at hrun hfollows
    rw [runSteps, if_pos (show (m.under v).canStep = true from hcan)]
    simp only [hrun]
    obtain ⟨u, hfail, hlast⟩ := fail_under hfollows fault
    exact ⟨u, Prod.ext rfl hfail, hlast⟩
  | case5 steps m hcan =>
    rw [runSteps.eq_def, if_neg (show ¬ (m.under v).canStep = true from hcan)]
    exact complete_under h

/-! ### Runs under the overlay -/

/-- The call in progress and those after it pause at some machines, after pauses at others, and
then end as a run without the overlay does. -/
structure PausesThenEnds (steps : Nat) (requests : Nat → List Overlay.Request)
    (result : Outcome DebugEvent × Machine) (earlier paused : List Machine)
    (ended : Outcome Unit × Machine) : Prop where
  /-- As many calls pause, in this order. -/
  pauses : ∀ k (h : k < paused.length),
    (onward steps requests result k).1 = .done (.paused paused[k].pc paused[k].currentLine)
  /-- The next one ends. -/
  ends : ended.1 ≠ .unfinished → ∃ w : View,
    onward steps requests result paused.length = (ended.1.ended, ended.2.under w) ∧
      w.Follows (earlier ++ paused) ended.2

namespace PausesThenEnds

variable {steps : Nat} {requests : Nat → List Overlay.Request}
  {result : Outcome DebugEvent × Machine} {earlier paused : List Machine}
  {ended : Outcome Unit × Machine}

/-- A call that ends the run. -/
theorem of_ended {w : View} (hresult : result = (ended.1.ended, ended.2.under w))
    (h : w.Follows earlier ended.2) : PausesThenEnds steps requests result earlier [] ended where
  pauses := by
    intro k hk
    simp at hk
  ends := by
    intro _
    rw [List.append_nil]
    exact ⟨w, hresult, h⟩

/-- A run that was cut off says nothing about later calls. -/
theorem of_unfinished (h : ended.1 = .unfinished) :
    PausesThenEnds steps requests result earlier [] ended where
  pauses := by
    intro k hk
    simp at hk
  ends hended := absurd h hended

/-- A call that pauses, and the calls after it. -/
theorem cons {m after : Machine}
    (hresult : result = (.done (.paused m.pc m.currentLine), after))
    (h : PausesThenEnds steps (fun i => requests (i + 1))
      ((after.asked (requests 0)).executeDebug steps) (earlier ++ [m]) paused ended) :
    PausesThenEnds steps requests result earlier (m :: paused) ended := by
  -- The calls after this one are those of the machine that it leaves.
  have honward : ∀ k, onward steps requests result (k + 1) =
      onward steps (fun i => requests (i + 1)) ((after.asked (requests 0)).executeDebug steps)
        k := by
    intro k
    rw [onward, debugCall_eq_onward, hresult]
  constructor
  · intro k hk
    cases k with
    | zero => rw [onward, hresult, List.getElem_cons_zero]
    | succ k =>
      rw [honward, List.getElem_cons_succ]
      exact h.pauses k (Nat.lt_of_succ_lt_succ hk)
  · intro hended
    obtain ⟨w, hends, hfollows⟩ := h.ends hended
    refine ⟨w, ?_, ?_⟩
    · rw [List.length_cons, honward, hends]
    · rw [List.append_cons]
      exact hfollows

/-- The calls from the first one on. -/
theorem pausesAt {m : Machine}
    (h : PausesThenEnds steps (fun i => requests (i + 1))
      ((m.asked (requests 0)).executeDebug steps) earlier paused ended) :
    PausesAt steps requests m paused := by
  intro k hk
  rw [debugCall_eq_onward]
  exact h.pauses k hk

/-- The call behind the last pause ends as the run without the overlay. -/
theorem debugCall_ends (requests : Nat → List Overlay.Request) {m : Machine}
    (h : PausesThenEnds steps (fun i => requests (i + 1))
      ((m.asked (requests 0)).executeDebug steps) earlier paused ended)
    (hended : ended.1 ≠ .unfinished) :
    ∃ w : View, debugCall steps requests paused.length m = (ended.1.ended, ended.2.under w) ∧
      w.Follows (earlier ++ paused) ended.2 := by
  rw [debugCall_eq_onward]
  exact h.ends hended

end PausesThenEnds

/-- The look of the overlay at the next instruction, which is left out where the last pause was. -/
def look (m : Machine) : Bool × Overlay :=
  if m.resumePc = some m.pc then (false, m.overlay)
  else m.overlay.checkPause m.pc m.currentLine m.bindings

/-- A run makes a step if the overlay does not pause. -/
theorem debugSteps_of_look_false (hcan : m.canStep = true) (hlook : m.look = (false, m.overlay))
    (left : Nat) :
    debugSteps runner (left + 1) m = match (step runner).run { m with resumePc := none } with
      | (.ok (), next) => debugSteps runner left next
      | (.error .unfinished, after) => (.unfinished, after)
      | (.error (.fault fault), after) => (.failed fault, after.fail fault) := by
  rw [look] at hlook
  rw [debugSteps, if_pos hcan]
  simp only [hlook]
  rfl

/-- A pause is announced, and where it was is kept for the next call. -/
theorem debugSteps_of_look_true {checked : Overlay} (hcan : m.canStep = true)
    (haccepts : m.output.Accepts) (hlook : m.look = (true, checked)) (left : Nat) :
    debugSteps runner left m =
      (.done (.paused m.pc m.currentLine),
        { m with
          overlay := checked.clearPending
          resumePc := some m.pc
          output := m.output.putAll ["DEBUGGER PAUSED at PC: " ++ toString m.pc, "\n"] }) := by
  -- The announcement is a line of the output like any other.
  have hwrite : (Effect.writeLine ("DEBUGGER PAUSED at PC: " ++ toString m.pc)).run
      { m with overlay := checked } =
        (.ok (), { m with
          overlay := checked
          output := m.output.putAll ["DEBUGGER PAUSED at PC: " ++ toString m.pc, "\n"] }) :=
    Effect.run_output (haccepts.putLine_eq _)
  rw [look] at hlook
  rw [debugSteps.eq_def, if_pos hcan]
  simp only [hlook, if_true, hwrite]

theorem under_of_during {overlay : Overlay} (h : overlay.during m = overlay)
    (resumePc : Option Nat) (output : Sink) :
    m.under ⟨overlay, resumePc, output⟩ = { m with overlay, resumePc, output } := by
  rw [under]
  dsimp only
  rw [h]

/-- The overlay does not look where it has looked already. -/
theorem look_of_resumed (h : v.resumePc = some m.pc) :
    (m.under v).look = (false, (m.under v).overlay) := if_pos h

/-- Unless it was just resumed, a machine is paused where its overlay says. -/
theorem look_under (h : v.resumePc = none) :
    (m.under v).look = (v.overlay.during m).checkPause m.pc m.currentLine m.bindings := by
  rw [look, show (m.under v).resumePc = none from h, if_neg (by simp)]
  rfl

/-- The machine after a pause is the one before it, with another view. -/
theorem debugSteps_of_pause {checked : Overlay} (hcan : m.canStep = true)
    (haccepts : v.output.Accepts) (hresume : v.resumePc = none)
    (hcheck : (v.overlay.during m).checkPause m.pc m.currentLine m.bindings = (true, checked))
    (left : Nat) :
    debugSteps runner left (m.under v) =
      (.done (.paused m.pc m.currentLine),
        m.under ⟨checked.clearPending, some m.pc,
          v.output.putAll ["DEBUGGER PAUSED at PC: " ++ toString m.pc, "\n"]⟩) := by
  have hcleared : checked.clearPending.during m = checked.clearPending :=
    congrArg Overlay.clearPending (Overlay.during_of_checkPause hcheck)
  have hlook : (m.under v).look = (true, checked) := (look_under hresume).trans hcheck
  rw [under_of_during hcleared]
  exact debugSteps_of_look_true (m := m.under v) hcan haccepts hlook left

/-- A call after a pause goes on from there. -/
theorem executeDebug_of_running {overlay : Overlay} (hstatus : m.status = .running)
    (hduring : overlay.during m = overlay) (resumePc : Option Nat) (output : Sink)
    (requests : List Overlay.Request) (steps : Nat) :
    ((m.under ⟨overlay, resumePc, output⟩).asked requests).executeDebug steps =
      debugSteps (m.innerRunner steps) steps
        (m.under ⟨overlay.called requests, resumePc, output⟩) := by
  rw [under_of_during (Overlay.during_called hduring requests), under_of_during hduring,
    executeDebug, asked]
  simp only [hstatus]
  rfl

/-- The first call starts the program, if the overlay has something to do. -/
theorem executeDebug_of_idle {overlay : Overlay} {requests : List Overlay.Request}
    (hstatus : m.status = .idle) (hresume : m.resumePc = none)
    (hduring : overlay.during m = overlay)
    (hactive : ({ m with overlay }.asked requests).overlay.isActive = true) (steps : Nat) :
    ({ m with overlay }.asked requests).executeDebug steps =
      debugSteps (m.innerRunner steps) steps
        (m.start.under ⟨overlay.called requests, none, m.output⟩) := by
  have hduring' : overlay.during m.start = overlay := hduring
  have hstatus' : ({ m with overlay }.asked requests).status = .idle := hstatus
  rw [under_of_during (Overlay.during_called hduring' requests), executeDebug, hstatus', ← hresume]
  dsimp only
  rw [if_pos hactive]
  rfl

/-- With nothing to do for the overlay, the first call is a run to the end. -/
theorem executeDebug_of_inactive (hactive : ¬ m.overlay.isActive = true)
    (hstatus : m.status = .idle) (steps : Nat) :
    m.executeDebug steps = ((m.execute steps).1.ended, (m.execute steps).2) := by
  rw [executeDebug, hstatus]
  dsimp only
  rw [if_neg hactive]
  rcases m.execute steps with ⟨_ | _ | _, after⟩ <;> rfl

/-- A machine that has nothing left to execute is not looked at. -/
theorem pausesThenEnds_of_not_canStep {earlier : List Machine} (hcan : m.canStep = false)
    (h : v.Follows earlier m) (steps fuel left : Nat) (requests : Nat → List Overlay.Request) :
    PausesThenEnds steps requests (debugSteps runner left (m.under v)) earlier []
      (runSteps runner fuel m) := by
  have hcan' : ¬ m.canStep = true := by simp [hcan]
  obtain ⟨w, hcomplete, hfollows⟩ := complete_under h
  rw [runSteps.eq_def, if_neg hcan']
  refine .of_ended ?_ hfollows
  rw [debugSteps.eq_def, if_neg (show ¬ (m.under v).canStep = true from hcan'), hcomplete]
  rcases m.complete with ⟨_ | _ | _, after⟩ <;> rfl

/-- One instruction, behind the look at it: what holds of the calls from the next machine on holds
of the calls from this one on. -/
theorem pausesThenEnds_of_step {steps fuel left : Nat} {earlier : List Machine}
    (hcan : m.canStep = true) (hlook : (m.under v).look = (false, (m.under v).overlay))
    (h : v.Follows earlier m) (requests : Nat → List Overlay.Request)
    (hnext : ∀ (next : Machine) (w : View), next.frame = m.frame → w.resumePc = none →
      w.Follows earlier next →
      PausesThenEnds steps requests (debugSteps runner left (next.under w)) earlier
        (w.overlay.pausesAmong requests (visited runner fuel next)) (runSteps runner fuel next)) :
    PausesThenEnds steps requests (debugSteps runner (left + 1) (m.under v)) earlier
      (v.overlay.pausesAmong requests (visited runner (fuel + 1) m).tail)
      (runSteps runner (fuel + 1) m) := by
  have hforgot : (View.mk v.overlay none v.output).Follows earlier m := h.of_output rfl rfl
  obtain ⟨w, hoverlay, hnone, hrun, hfollows, hframe⟩ := step_under runner hforgot
  rw [debugSteps_of_look_false (m := m.under v) hcan hlook,
    show { m.under v with resumePc := none } = m.under ⟨v.overlay, none, v.output⟩ from rfl, hrun,
    runSteps, if_pos hcan]
  rcases hstep : (step runner).run m with ⟨(fault | _) | _, next⟩
  · -- The instruction fails, and both runs end.
    rw [hstep] at hfollows
    rw [visited_of_error hcan hstep]
    obtain ⟨final, hfail, hfinal⟩ := fail_under hfollows fault
    exact .of_ended (Prod.ext rfl hfail) hfinal
  · -- A machine that it starts is cut off.
    rw [visited_of_error hcan hstep]
    exact .of_unfinished rfl
  · rw [hstep] at hfollows hframe
    rw [visited_of_ok hcan hstep, ← hoverlay]
    exact hnext next w hframe hnone hfollows

/-- The calls pause where the overlay decides to along the run without it, and end as that run
does. -/
theorem pausesThenEnds_debugSteps {steps fuel left : Nat} {earlier : List Machine}
    (hleft : fuel ≤ left) (hsteps : fuel ≤ steps) (hrunner : m.innerRunner steps = runner)
    (hstatus : m.status = .running) (hresume : v.resumePc = none) (h : v.Follows earlier m)
    (requests : Nat → List Overlay.Request) :
    PausesThenEnds steps requests (debugSteps runner left (m.under v)) earlier
      (v.overlay.pausesAmong requests (visited runner fuel m)) (runSteps runner fuel m) := by
  -- By induction on the steps of the run without the overlay. The call in progress may have more
  -- steps left than that, and each call after it has all of its own.
  induction fuel generalizing m v left earlier requests with
  | zero =>
    by_cases hcan : m.canStep = true
    · exact .of_unfinished (by rw [runSteps, if_pos hcan])
    · exact pausesThenEnds_of_not_canStep (by simpa using hcan) h steps 0 left requests
  | succ fuel ih =>
    by_cases hcan : m.canStep = true
    swap
    · have hcan' : m.canStep = false := by simpa using hcan
      rw [visited_of_not_canStep hcan']
      exact pausesThenEnds_of_not_canStep hcan' h steps (fuel + 1) left requests
    have hnext : ∀ (requests : Nat → List Overlay.Request) (pauses : List Machine) (left : Nat),
        fuel ≤ left → ∀ (next : Machine) (w : View), next.frame = m.frame → w.resumePc = none →
        w.Follows pauses next →
        PausesThenEnds steps requests (debugSteps runner left (next.under w)) pauses
          (w.overlay.pausesAmong requests (visited runner fuel next))
          (runSteps runner fuel next) := by
      intro requests pauses left hleft next w hframe hnone hw
      have hdepth : next.depth = m.depth := congrArg (·.2.1) hframe
      have hrunning : next.status = .running := (congrArg (·.2.2) hframe).trans hstatus
      have hsame : next.innerRunner steps = runner := by
        rw [← hrunner, innerRunner, innerRunner, hdepth]
      exact ih hleft (Nat.le_of_succ_le hsteps) hsame hrunning hnone hw requests
    have hvisited : visited runner (fuel + 1) m = m :: (visited runner (fuel + 1) m).tail := by
      rw [visited, if_pos hcan]
      rfl
    rw [hvisited, Overlay.pausesAmong]
    rcases hcheck : (v.overlay.during m).checkPause m.pc m.currentLine m.bindings with
      ⟨_ | _, checked⟩
    · -- No pause: the call goes on.
      have hlook : (m.under v).look = (false, (m.under v).overlay) := by
        rw [look_under hresume]
        exact Overlay.checkPause_of_not (congrArg Prod.fst hcheck)
      have hstep := pausesThenEnds_of_step hcan hlook h requests
        (hnext requests earlier (left - 1) (by omega))
      rwa [Nat.sub_add_cancel (Nat.one_le_of_lt hleft)] at hstep
    · -- A pause: the next call does not look again, so it makes the step.
      refine .cons (debugSteps_of_pause hcan h.accepts hresume hcheck left) ?_
      have hcleared : checked.clearPending.during m = checked.clearPending :=
        congrArg Overlay.clearPending (Overlay.during_of_checkPause hcheck)
      rw [executeDebug_of_running hstatus hcleared, hrunner]
      have hstep := pausesThenEnds_of_step hcan (look_of_resumed rfl)
        (h.announce (checked.clearPending.called (requests 0)) (some m.pc))
        (fun i => requests (i + 1))
        (hnext (fun i => requests (i + 1)) (earlier ++ [m]) (steps - 1) (by omega))
      rwa [Nat.sub_add_cancel (Nat.one_le_of_lt hsteps)] at hstep

/-- The calls from the first one on, with any overlay in the place of the machine's own. -/
theorem pausesThenEnds_executeDebug {overlay : Overlay} (hstatus : m.status = .idle)
    (hresume : m.resumePc = none) (haccepts : m.output.Accepts)
    (hduring : overlay.during m = overlay) (requests : Nat → List Overlay.Request)
    (hactive : ({ m with overlay }.asked (requests 0)).overlay.isActive = true) (steps : Nat) :
    PausesThenEnds steps (fun i => requests (i + 1))
      (({ m with overlay }.asked (requests 0)).executeDebug steps) []
      ((overlay.called (requests 0)).pausesAmong (fun i => requests (i + 1))
        (visited (m.innerRunner steps) steps m.start))
      (runSteps (m.innerRunner steps) steps m.start) := by
  rw [executeDebug_of_idle hstatus hresume hduring hactive]
  exact pausesThenEnds_debugSteps le_rfl le_rfl rfl rfl rfl
    (View.Follows.of_accepts (m := m.start) haccepts _ _) _

end Machine

end StackMachine
