/-!
# Output streams

An output stream takes texts one write at a time and may refuse any of them, also after it has taken
the first characters of the text. What it does may depend on all that was offered to it before.
-/

namespace StackMachine

/-- How a write fails. -/
structure Refusal where
  /-- The reason. -/
  reason : String
  /-- The number of characters that were taken before. -/
  taken : Nat := 0
  deriving DecidableEq, Repr

/-- When a stream refuses. -/
structure SinkPolicy where
  /-- How the write of a text fails, if it does, given the text accepted and the texts offered so
  far, the last one first. -/
  refusesWrite : (accepted : String) → (offered : List String) → (text : String) → Option Refusal
  /-- The reason to refuse a flush, given the flushes tried so far. -/
  refusesFlush : (flushes : Nat) → Option String

namespace SinkPolicy

/-- Accepts everything. -/
def accepting : SinkPolicy := ⟨fun _ _ _ => none, fun _ => none⟩

instance : Inhabited SinkPolicy := ⟨accepting⟩

/-- Refuses every write once it has accepted `limit` line feeds, if there is a limit, and every
flush if `badFlush`. -/
def closingAfter (limit : Option Nat) (badFlush : Bool) : SinkPolicy where
  refusesWrite accepted _ _ :=
    match limit with
    | some limit =>
      if limit ≤ accepted.toList.count '\n' then some { reason := "closed" } else none
    | none => none
  refusesFlush _ := if badFlush then some "flush closed" else none

end SinkPolicy

/-- An output stream with what it has accepted. -/
structure Sink where
  /-- When it refuses. -/
  policy : SinkPolicy
  /-- The text accepted so far. -/
  accepted : String := ""
  /-- The texts offered so far, the last one first. -/
  offered : List String := []
  /-- The flushes tried so far. -/
  flushes : Nat := 0
  deriving Inhabited

namespace Sink

/-- Writes a text. Writing nothing does not reach the stream. -/
def put (sink : Sink) (text : String) : Except String Unit × Sink :=
  if text.isEmpty then (.ok (), sink)
  else
    match sink.policy.refusesWrite sink.accepted sink.offered text with
    | some refusal =>
      (.error refusal.reason,
        { sink with
          accepted := sink.accepted ++ String.ofList (text.toList.take refusal.taken)
          offered := text :: sink.offered })
    | none =>
      (.ok (), { sink with accepted := sink.accepted ++ text, offered := text :: sink.offered })

/-- Writes texts one after the other, up to the first that is refused. -/
def putEach (sink : Sink) : List String → Except String Unit × Sink
  | [] => (.ok (), sink)
  | text :: texts =>
    match sink.put text with
    | (.ok (), sink) => sink.putEach texts
    | refused => refused

/-- Writes a text and then, if it was accepted, a line feed. -/
def putLine (sink : Sink) (text : String) : Except String Unit × Sink := sink.putEach [text, "\n"]

/-- Asks the stream to deliver what it has accepted. -/
def flush (sink : Sink) : Except String Unit × Sink :=
  let asked := { sink with flushes := sink.flushes + 1 }
  match sink.policy.refusesFlush sink.flushes with
  | some reason => (.error reason, asked)
  | none => (.ok (), asked)

end Sink

end StackMachine
