import DexIndex.Proofs.Engine.Execution
import DexIndex.Proofs.Writer.Written

/-!
# What a call of an engine does

A call leaves a writer, a ledger and a slot that do not depend on the sink, and it publishes the
events that have become durable thereby, which are also what the sink is given
(`Engine.Call.run_cases`). A call that succeeds has written a block or flushed, unless there was
nothing to do (`Engine.Call.process_ok`, `Engine.Call.shutdown_ok`).
-/

namespace DexIndex

/-! ### The sink -/

/-- The batches of events that a sink was given. -/
def Sink.batches (s : Sink) : List (List Event) :=
  s.calls.filterMap fun
    | .write events => some events
    | .flush => none

namespace Engine

/-- The events that the sink was given, one after another. -/
def sunk? (e : Engine) : Option (List Event) := e.sink.map (·.batches.flatten)

def withSink (e : Engine) (sink : Option Sink) : Engine := { e with sink }

@[simp] theorem withSink_sink (e : Engine) : e.withSink e.sink = e := rfl

@[simp] theorem writer_withSink (e : Engine) (sink : Option Sink) :
    (e.withSink sink).writer = e.writer := rfl

@[simp] theorem ledger_withSink (e : Engine) (sink : Option Sink) :
    (e.withSink sink).ledger = e.ledger := rfl

@[simp] theorem programs_withSink (e : Engine) (sink : Option Sink) :
    (e.withSink sink).programs = e.programs := rfl

@[simp] theorem isProcessed_withSink (e : Engine) (sink : Option Sink) (block : Block) :
    (e.withSink sink).isProcessed block = e.isProcessed block := rfl

theorem live_emit (e : Engine) (d : List Event) : (e.emit d).live = e.live.publish d := by
  unfold emit
  split
  · next hempty => rw [Live.publish, if_pos (by simp [hempty])]
  · rfl

theorem programs_emit (e : Engine) (d : List Event) : (e.emit d).programs = e.programs := by
  unfold emit
  split <;> rfl

theorem lastSlot_emit (e : Engine) (d : List Event) : (e.emit d).lastSlot = e.lastSlot := by
  unfold emit
  split <;> rfl

theorem sunk?_callSink (e : Engine) (c : SinkCall) :
    (e.callSink c).sunk? = e.sunk?.map fun events =>
      match c with
      | .write d => events ++ d
      | .flush => events := by
  unfold sunk? callSink
  cases e.sink with
  | none => rfl
  | some s => cases c <;> simp [Sink.call, Sink.batches]

theorem sunk?_emit (e : Engine) (d : List Event) : (e.emit d).sunk? = e.sunk?.map (· ++ d) := by
  unfold emit
  split
  · next hempty =>
    obtain rfl := List.isEmpty_iff.mp hempty
    simp
  · exact e.sunk?_callSink (.write d)

theorem emit_withSink (e : Engine) (sink : Option Sink) (d : List Event) :
    ∃ sink', (e.withSink sink).emit d = (e.emit d).withSink sink' := by
  unfold emit
  split
  · exact ⟨sink, rfl⟩
  · exact ⟨_, rfl⟩

namespace Call

def blocks : Call → List Block
  | process block _ => [block]
  | shutdown _ => []

/-- The events that a call publishes, one after another. -/
def published (e : Engine) : Call → List Event
  | process block now =>
    if e.isProcessed block then []
    else
      match block.extract e.programs with
      | .error _ => []
      | .ok x => Writer.given (e.writer.writeBlock e.ledger x now)
  | shutdown now => Writer.given (e.writer.flush e.ledger now)

/-- A call leaves a writer, a ledger and a slot that do not depend on the sink, and publishes. -/
theorem run_cases (e : Engine) (c : Call) :
    ∃ r writer ledger lastSlot,
      (∀ sink, c.run (e.withSink sink) =
        (r, (withSink { e with writer, ledger, lastSlot } sink).emit (c.published e))) ∨
      (∀ sink, c.run (e.withSink sink) =
        (r, ((withSink { e with writer, ledger, lastSlot } sink).emit (c.published e)).callSink
          .flush)) := by
  cases c with
  | process block now =>
    by_cases hold : e.isProcessed block
    · refine ⟨.ok (), e.writer, e.ledger, e.lastSlot, .inl fun sink => ?_⟩
      simp [run, processBlock, published, hold, emit]
    · cases hx : block.extract e.programs with
      | error err =>
        refine ⟨.error (.extract err), e.writer, e.ledger, e.lastSlot, .inl fun sink => ?_⟩
        simp [run, processBlock, published, hold, hx, emit]
      | ok x =>
        rcases hwrite : e.writer.writeBlock e.ledger x now with ⟨err | d, w, l⟩
        · refine ⟨.error (.writer err), w, l, e.lastSlot, .inl fun sink => ?_⟩
          simp [run, processBlock, published, hold, hx, hwrite, Writer.given, emit]
          rfl
        · refine ⟨.ok (), w, l, some block.number, .inl fun sink => ?_⟩
          simp [run, processBlock, published, hold, hx, hwrite, Writer.given]
          rfl
  | shutdown now =>
    rcases hflush : e.writer.flush e.ledger now with ⟨err | d, w, l⟩
    · refine ⟨.error (.writer err), w, l, e.lastSlot, .inl fun sink => ?_⟩
      simp [run, Engine.shutdown, published, hflush, Writer.given, emit]
      rfl
    · refine ⟨.ok (), w, l, e.lastSlot, .inr fun sink => ?_⟩
      simp [run, Engine.shutdown, published, hflush, Writer.given]
      rfl

theorem live_run (e : Engine) (c : Call) : (c.run e).2.live = e.live.publish (c.published e) := by
  obtain ⟨r, w, l, slot, h | h⟩ := c.run_cases e
  · rw [← e.withSink_sink, h]
    exact live_emit _ _
  · rw [← e.withSink_sink, h]
    exact live_emit _ _

theorem sunk?_run (e : Engine) (c : Call) :
    (c.run e).2.sunk? = e.sunk?.map (· ++ c.published e) := by
  obtain ⟨r, w, l, slot, h | h⟩ := c.run_cases e
  · rw [← e.withSink_sink, h, sunk?_emit]
    rfl
  · rw [← e.withSink_sink, h, sunk?_callSink, sunk?_emit, Option.map_map]
    rfl

/-- Whatever the sink is and answers, only the sink itself is another one after a call. -/
theorem run_withSink (e : Engine) (sink : Option Sink) (c : Call) :
    ∃ sink', c.run (e.withSink sink) = ((c.run e).1, (c.run e).2.withSink sink') := by
  obtain ⟨r, w, l, slot, h⟩ := c.run_cases e
  obtain ⟨sink', hemit⟩ := emit_withSink
    { e with writer := w, ledger := l, lastSlot := slot } sink (c.published e)
  rcases h with h | h
  · have he := h e.sink
    rw [withSink_sink] at he
    refine ⟨sink', ?_⟩
    rw [h, hemit, he]
    rfl
  · have he := h e.sink
    rw [withSink_sink] at he
    refine ⟨sink'.map fun s => (s.call .flush).2, ?_⟩
    rw [h, hemit, he]
    rfl

theorem programs_run (e : Engine) (c : Call) : (c.run e).2.programs = e.programs := by
  obtain ⟨r, w, l, slot, h | h⟩ := c.run_cases e
  · rw [← e.withSink_sink, h, programs_emit]
    rfl
  · rw [← e.withSink_sink, h]
    exact programs_emit _ _

/-- What a call that processes a block does if it succeeds: nothing for a block that was processed
before, and otherwise the block is written. -/
theorem process_ok {e e' : Engine} {block : Block} {now : Timestamp}
    (h : (process block now).run e = (.ok (), e')) :
    (e' = e ∧ (process block now).accepted e = [] ∧ (process block now).published e = []) ∨
    (¬ e.isProcessed block ∧ ∃ x w l, block.extract e.programs = .ok x ∧
      (process block now).accepted e = [x] ∧
      e.writer.writeBlock e.ledger x now = (.ok ((process block now).published e), w, l) ∧
      e' = { e with writer := w, ledger := l, lastSlot := some block.number }.emit
        ((process block now).published e)) := by
  rw [run, processBlock] at h
  rw [accepted, accepted?, published]
  split at h
  · next hold =>
    cases h
    rw [if_pos hold, if_pos hold]
    exact .inl ⟨rfl, rfl, rfl⟩
  · next hnew =>
    rw [if_neg hnew, if_neg hnew]
    cases hx : block.extract e.programs with
    | error err =>
      rw [hx] at h
      cases h
    | ok x =>
      rw [hx] at h
      dsimp only at h ⊢
      rcases hwrite : e.writer.writeBlock e.ledger x now with ⟨_ | d, w, l⟩
      · rw [hwrite] at h
        cases h
      · rw [hwrite] at h
        cases h
        exact .inr ⟨hnew, x, w, l, rfl, rfl, hwrite, rfl⟩

theorem shutdown_ok {e e' : Engine} {now : Timestamp}
    (h : (shutdown now).run e = (.ok (), e')) :
    ∃ w l, e.writer.flush e.ledger now = (.ok ((shutdown now).published e), w, l) ∧
      e' = ({ e with writer := w, ledger := l }.emit ((shutdown now).published e)).callSink
        .flush := by
  rw [run, Engine.shutdown] at h
  rw [published]
  rcases hflush : e.writer.flush e.ledger now with ⟨_ | d, w, l⟩
  · rw [hflush] at h
    cases h
  · rw [hflush] at h
    cases h
    exact ⟨w, l, rfl, rfl⟩

end Call

end Engine

end DexIndex
