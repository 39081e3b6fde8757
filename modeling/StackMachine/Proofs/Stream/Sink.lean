import StackMachine.Stream.Sink

/-!
# Writing to streams

What writing several texts does to a stream, and streams that accept every write.

## Main definitions

* `Sink.Accepts`: the stream accepts every write.
* `Sink.putAll`: the stream after texts were written to it.
* `Sink.SameText`: the streams have taken the same text.

## Main results

* `Sink.putEach_append`: writing texts in two parts.
* `Sink.Accepts.putEach_eq`: a stream that accepts every write takes all texts.
* `Sink.Accepts.putAll_spec`: it keeps them in order.
* `Sink.SameText.putAll`: in which pieces a text is written does not matter there.
-/

namespace StackMachine

namespace Sink

variable {sink : Sink}

/-- A single text is a list of one. -/
theorem put_eq_putEach (sink : Sink) (text : String) : sink.put text = sink.putEach [text] := by
  rw [putEach]
  rcases sink.put text with ⟨_ | _, after⟩ <;> rfl

/-- What is refused in the first part ends the writing; else the second part follows. -/
theorem putEach_append (sink : Sink) (texts more : List String) :
    sink.putEach (texts ++ more) = match sink.putEach texts with
      | (.ok (), after) => after.putEach more
      | refused => refused := by
  induction texts generalizing sink with
  | nil => rfl
  | cons text texts ih =>
    rw [List.cons_append, putEach, putEach]
    rcases sink.put text with ⟨_ | _, after⟩
    · rfl
    · exact ih after

/-- No write changes when a stream refuses, or the flushes that were tried. -/
theorem put_frame (sink : Sink) (text : String) :
    (sink.put text).2.policy = sink.policy ∧ (sink.put text).2.flushes = sink.flushes := by
  rw [put]
  split
  · exact ⟨rfl, rfl⟩
  · split <;> exact ⟨rfl, rfl⟩

/-- Nor do several. -/
theorem putEach_frame (sink : Sink) (texts : List String) :
    (sink.putEach texts).2.policy = sink.policy ∧
      (sink.putEach texts).2.flushes = sink.flushes := by
  induction texts generalizing sink with
  | nil => exact ⟨rfl, rfl⟩
  | cons text texts ih =>
    have hframe := sink.put_frame text
    rw [putEach]
    generalize sink.put text = result at hframe
    obtain ⟨_ | _, after⟩ := result
    · exact hframe
    · exact ⟨(ih after).1.trans hframe.1, (ih after).2.trans hframe.2⟩

/-! ### Streams that accept every write -/

/-- The stream accepts every write. -/
def Accepts (sink : Sink) : Prop :=
  ∀ accepted offered text, sink.policy.refusesWrite accepted offered text = none

/-- The stream after texts were written to it, each by itself. -/
def putAll (sink : Sink) (texts : List String) : Sink :=
  texts.foldl (fun sink text => (sink.put text).2) sink

theorem putAll_append (texts more : List String) :
    sink.putAll (texts ++ more) = (sink.putAll texts).putAll more := List.foldl_append

/-- A stream goes on accepting every write. -/
theorem Accepts.of_policy {after : Sink} (h : sink.Accepts) (hpolicy : after.policy = sink.policy) :
    after.Accepts := by
  rw [Accepts, hpolicy]
  exact h

/-- Texts do not make a stream refuse that accepts everything. -/
theorem Accepts.putAll (h : sink.Accepts) (texts : List String) : (sink.putAll texts).Accepts := by
  induction texts generalizing sink with
  | nil => exact h
  | cons text texts ih => exact ih (h.of_policy (sink.put_frame text).1)

/-- A text that is accepted comes behind what was accepted before. -/
theorem Accepts.put_spec (h : sink.Accepts) (text : String) :
    (sink.put text).1 = .ok () ∧ (sink.put text).2.accepted = sink.accepted ++ text := by
  rw [Sink.put]
  -- An empty text does not reach the stream, and adds nothing to it either.
  split
  next hempty => simp [String.isEmpty_iff.mp hempty]
  next =>
    rw [h]
    exact ⟨rfl, rfl⟩

/-- Every text is written. -/
theorem Accepts.putEach_eq (h : sink.Accepts) (texts : List String) :
    sink.putEach texts = (.ok (), sink.putAll texts) := by
  induction texts generalizing sink with
  | nil => rfl
  | cons text texts ih =>
    have hput : sink.put text = (.ok (), (sink.put text).2) :=
      Prod.ext (h.put_spec text).1 rfl
    rw [putEach, hput]
    exact ih (h.of_policy (sink.put_frame text).1)

/-- It takes a line as a text and a line feed. -/
theorem Accepts.putLine_eq (h : sink.Accepts) (text : String) :
    sink.putLine text = (.ok (), sink.putAll [text, "\n"]) := h.putEach_eq _

/-- A stream that accepts everything keeps the texts in order, and nothing else changes that
decides about later writes and flushes. -/
theorem Accepts.putAll_spec (h : sink.Accepts) (texts : List String) :
    (sink.putAll texts).accepted = sink.accepted ++ String.join texts ∧
      (sink.putAll texts).policy = sink.policy ∧ (sink.putAll texts).flushes = sink.flushes := by
  induction texts generalizing sink with
  | nil => exact ⟨by simp [Sink.putAll], rfl, rfl⟩
  | cons text texts ih =>
    obtain ⟨hpolicy, hflushes⟩ := sink.put_frame text
    obtain ⟨haccepted, hpolicy', hflushes'⟩ := ih (h.of_policy hpolicy)
    rw [show sink.putAll (text :: texts) = (sink.put text).2.putAll texts from rfl]
    refine ⟨?_, hpolicy'.trans hpolicy, hflushes'.trans hflushes⟩
    rw [haccepted, (h.put_spec text).2, String.join_cons, String.append_assoc]

/-- The streams have taken the same text, in whatever pieces it was offered to them. -/
structure SameText (first second : Sink) : Prop where
  accepted : first.accepted = second.accepted
  policy : first.policy = second.policy
  flushes : first.flushes = second.flushes

theorem SameText.refl (sink : Sink) : sink.SameText sink := ⟨rfl, rfl, rfl⟩

/-- The pieces in which a text is written do not matter to a stream that accepts everything. -/
theorem SameText.putAll {other : Sink} (h : sink.SameText other) (haccepts : other.Accepts)
    {texts more : List String} (htext : String.join texts = String.join more) :
    (sink.putAll texts).SameText (other.putAll more) := by
  obtain ⟨haccepted, hpolicy, hflushes⟩ := (haccepts.of_policy h.policy).putAll_spec texts
  obtain ⟨haccepted', hpolicy', hflushes'⟩ := haccepts.putAll_spec more
  constructor
  · rw [haccepted, haccepted', htext, h.accepted]
  · rw [hpolicy, hpolicy', h.policy]
  · rw [hflushes, hflushes', h.flushes]

/-- A flush answers both in the same way. -/
theorem SameText.flush {other : Sink} (h : sink.SameText other) :
    sink.flush.1 = other.flush.1 ∧ sink.flush.2.SameText other.flush.2 := by
  rw [Sink.flush, Sink.flush, h.policy, h.flushes]
  split <;> exact ⟨rfl, h.accepted, rfl, rfl⟩

end Sink

end StackMachine
