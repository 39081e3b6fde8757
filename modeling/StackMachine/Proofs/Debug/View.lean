import StackMachine.Proofs.Machine.Execution

/-!
# Programs do not see the overlay

A machine under the overlay differs from one without it in what the overlay is asked to do, in the
position of the last pause, and in what was announced on its output. No instruction reads any of
this. So a step does to a machine under the overlay what it does to one without, and the texts it
writes are the same.

## Main definitions

* `View`: what a machine under the overlay has of its own.
* `Machine.under`: the machine as it is under the overlay.
* `Coupling.overlaid`: the second machine is under the overlay, and got the texts that the first one
  wrote.

## Main results

* `Coupling.suits_overlaid`: no instruction sees the overlay.
* `Machine.transparent_step`: nor does a step.
-/

namespace StackMachine

/-! ### Machines under the overlay -/

/-- The overlay with the calls that a machine has in progress. -/
def Overlay.during (overlay : Overlay) (m : Machine) : Overlay :=
  { overlay with calls := m.overlay.calls, callDepth := m.overlay.callDepth }

/-- What a machine under the overlay has of its own. -/
structure View where
  /-- What the overlay is asked to do. -/
  overlay : Overlay
  /-- The position of the last pause. -/
  resumePc : Option Nat
  /-- The output stream, with the pauses announced on it. -/
  output : Sink

/-- The view after texts were written. -/
def View.write (v : View) (texts : List String) : View :=
  { v with output := v.output.putAll texts }

theorem View.write_append (v : View) (texts more : List String) :
    v.write (texts ++ more) = (v.write texts).write more := by
  rw [write, Sink.putAll_append]
  rfl

namespace Machine

/-- The machine as it is under the overlay. The calls in progress are those of the program. -/
def under (m : Machine) (v : View) : Machine :=
  { m with overlay := v.overlay.during m, resumePc := v.resumePc, output := v.output }

/-- What no instruction changes. -/
def frame (m : Machine) : Program × Nat × Status := (m.program, m.depth, m.status)

/-- A collection does not see the overlay. -/
theorem collectGarbage_under (m : Machine) (v : View) :
    (m.under v).collectGarbage = (m.collectGarbage.1, m.collectGarbage.2.under v) := by
  simp only [collectGarbage]
  rw [show (m.under v).settings = m.settings from rfl]
  split
  · rfl
  · dsimp only
    split <;> rfl

end Machine

/-! ### Running under the overlay and without it -/

namespace Coupling

/-- Since `start`, the first machine has written some texts. The second one is as the first one
under the overlay, and got the same texts. -/
def overlaid (start : Machine) (v : View) : Coupling where
  rel _ m n := ∃ texts, m.frame = start.frame ∧ m.output = start.output.putAll texts ∧
    n = m.under (v.write texts)
  allowed _ := True
  pointer _ := True
  lax := False

variable {start m n : Machine} {v : View} {own : Nat}

/-- Only writing does something else, and only to the streams, as both accept every write. -/
theorem rel_overlaid_write (hstart : start.output.Accepts) (hview : v.output.Accepts)
    (h : (overlaid start v).rel own m n) (more : List String) :
    (n.output.putEach more).1 = (m.output.putEach more).1 ∧
      (overlaid start v).rel own { m with output := (m.output.putEach more).2 }
        { n with output := (n.output.putEach more).2 } := by
  obtain ⟨texts, hframe, houtput, rfl⟩ := h
  have hplain := (hstart.putAll texts).putEach_eq more
  have hseen := (hview.putAll texts).putEach_eq more
  rw [← houtput] at hplain
  rw [show (m.under (v.write texts)).output = v.output.putAll texts from rfl, hplain, hseen]
  refine ⟨rfl, texts ++ more, hframe, ?_, ?_⟩
  · rw [Sink.putAll_append, ← houtput]
  · rw [View.write_append]
    rfl

/-- The basic changes do the same under the overlay. -/
theorem laws_overlaid (hstart : start.output.Accepts) (hview : v.output.Accepts) (runner : Runner)
    (line : Nat) : (overlaid start v).Laws runner runner line where
  weaken _ h := h
  pointers := Pointer.closed_true
  fault _ := trivial
  unlocated _ := trivial
  push := by
    rintro _ m _ value ⟨texts, hframe, houtput, rfl⟩ _
    exact ⟨texts, hframe, houtput, rfl⟩
  pop := by
    rintro own m _ ⟨texts, hframe, houtput, rfl⟩
    cases hstack : m.stack with
    | nil => exact .inl ⟨rfl, hstack⟩
    | cons value stack =>
      exact .inr ⟨value, stack, stack, rfl, hstack, value.all_true, texts, hframe, houtput, rfl⟩
  height := by rintro m _ ⟨texts, -, -, rfl⟩; rfl
  bindings := by
    rintro _ m _ ⟨texts, -, -, rfl⟩
    exact ⟨rfl, fun entry _ => entry.2.all_true⟩
  store := by
    rintro _ m _ name value ⟨texts, hframe, houtput, rfl⟩ _
    exact ⟨texts, hframe, houtput, rfl⟩
  log := by
    rintro _ m _ text ⟨texts, hframe, houtput, rfl⟩
    exact ⟨texts, hframe, houtput, rfl⟩
  write more h := rel_overlaid_write hstart hview h more
  input := by
    rintro _ m _ ⟨texts, hframe, houtput, rfl⟩
    exact ⟨rfl, rfl, fun _ _ => ⟨texts, hframe, houtput, rfl⟩⟩
  release := by
    rintro _ m _ target ⟨texts, hframe, houtput, rfl⟩
    cases target <;> exact ⟨texts, hframe, houtput, rfl⟩
  isLive := by rintro _ m _ target ⟨texts, -, -, rfl⟩; rfl
  dereference := by rintro _ m _ p ⟨texts, -, -, rfl⟩; rfl
  close id := by
    rintro ⟨texts, hframe, houtput, rfl⟩
    exact ⟨rfl, texts, hframe, houtput, rfl⟩
  read {_ m _} id := by
    rintro ⟨texts, hframe, houtput, rfl⟩
    rw [show (m.under (v.write texts)).files = m.files from rfl,
      show (m.under (v.write texts)).folder = m.folder from rfl]
    cases m.files.read m.folder id with
    | none => exact .none
    | some result => exact .some ⟨rfl, texts, hframe, houtput, rfl⟩
  depth := by rintro _ m _ ⟨texts, -, -, rfl⟩; rfl
  nested path := by
    rintro ⟨texts, hframe, houtput, rfl⟩ -
    refine sameNested_of_child_eq ?_ (fun inner => ?_) trivial path
    · rfl
    · exact ⟨texts, hframe, houtput, rfl⟩

/-- So do requests for memory and files. -/
theorem acquisitionLaws_overlaid (start : Machine) (v : View) :
    (overlaid start v).AcquisitionLaws where
  heap := by
    rintro _ m _ ⟨texts, -, -, rfl⟩
    exact ⟨rfl, rfl⟩
  object tag size := by
    rintro _ m _ ⟨texts, hframe, houtput, rfl⟩ _
    exact .ok trivial ⟨texts, hframe, houtput, rfl⟩
  collected size := by
    rintro _ m _ ⟨texts, hframe, houtput, rfl⟩ _
    exact .ok trivial ⟨texts, hframe, houtput, rfl⟩
  block size := by
    rintro _ m _ ⟨texts, hframe, houtput, rfl⟩ _
    exact .ok trivial ⟨texts, hframe, houtput, rfl⟩
  file := by
    rintro _ m _ path ⟨texts, hframe, houtput, rfl⟩
    exact ⟨rfl, rfl, fun _ _ _ _ => ⟨texts, hframe, houtput, rfl⟩⟩

/-- So do the changes of where the machine is. A call is noted in the overlay, whatever else the
overlay holds. -/
theorem positionLaws_overlaid (start : Machine) (v : View) : (overlaid start v).PositionLaws where
  program := by rintro _ m _ ⟨texts, -, -, rfl⟩; rfl
  loops := by rintro _ m _ ⟨texts, -, -, rfl⟩; rfl
  functions := by rintro _ m _ ⟨texts, -, -, rfl⟩; rfl
  setLoops := by
    rintro _ m _ loops ⟨texts, hframe, houtput, rfl⟩
    exact ⟨texts, hframe, houtput, rfl⟩
  define := by
    rintro _ m _ name pc ⟨texts, hframe, houtput, rfl⟩
    exact ⟨texts, hframe, houtput, rfl⟩
  enter := by
    rintro _ m _ name ⟨texts, hframe, houtput, rfl⟩
    exact ⟨texts, hframe, houtput, rfl⟩
  leave := by
    rintro _ m _ ⟨texts, hframe, houtput, rfl⟩
    exact ⟨texts, hframe, houtput, rfl⟩
  position := by rintro m _ ⟨texts, -, -, rfl⟩; rfl
  move := by
    rintro m _ pc ⟨texts, hframe, houtput, rfl⟩
    exact ⟨texts, hframe, houtput, rfl⟩
  halt := by
    rintro m _ ⟨texts, hframe, houtput, rfl⟩
    exact ⟨texts, hframe, houtput, rfl⟩
  line _ := trivial

/-- No instruction sees the overlay. -/
theorem suits_overlaid (hstart : start.output.Accepts) (hview : v.output.Accepts) (runner : Runner)
    (instruction : Instruction) : (overlaid start v).Suits runner runner instruction where
  laws := laws_overlaid hstart hview runner _
  literal value _ := value.all_true
  control _ := (positionLaws_overlaid start v).toControlLaws
  acquisition _ := acquisitionLaws_overlaid start v
  collection _ := by
    rintro _ m _ ⟨texts, hframe, houtput, rfl⟩
    rw [m.collectGarbage_under]
    obtain ⟨collector, allocator, log, hleft⟩ := m.collectGarbage_frame
    refine ⟨rfl, texts, ?_, ?_, rfl⟩
    · rw [hleft]
      exact hframe
    · rw [hleft]
      exact houtput

end Coupling

/-- A step does the same under the overlay as without it, as long as no write is refused. The texts
that it writes are the same. -/
theorem Machine.transparent_step (runner : Runner) (m : Machine) (v : View)
    (hm : m.output.Accepts) (hv : v.output.Accepts) :
    ∃ texts, ((step runner).run m).2.frame = m.frame ∧
      ((step runner).run m).2.output = m.output.putAll texts ∧
      (step runner).run (m.under v) =
        (((step runner).run m).1, ((step runner).run m).2.under (v.write texts)) := by
  have hrel : (Coupling.overlaid m v).rel 2 m (m.under v) := ⟨[], rfl, rfl, rfl⟩
  have hends := (Coupling.positionLaws_overlaid m v).ends_step hrel id fun instruction _ =>
    ⟨Coupling.suits_overlaid hm hv runner instruction, instruction.reach_le_two⟩
  obtain ⟨texts, hframe, houtput, hmachine⟩ := hends.rel id
  exact ⟨texts, hframe, houtput, Prod.ext (hends.result_eq id).symm hmachine⟩

end StackMachine
