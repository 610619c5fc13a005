import DexIndex.Proofs.Engine.Calls
import DexIndex.Proofs.Engine.Resumption
import DexIndex.Proofs.History.Latest

/-!
# The live view of an order and the stored one

An engine publishes just the events that become durable, in the order in which they are written, and
they come in chain order (`Engine.Worked.told`). The two views of an order differ in what they make of
the events at one place: a fold of the published events keeps the first one of a type, and no lower
type after it, while the store keeps the last one of each type. They agree where this makes no
difference (`Engine.Worked.live_view`).
-/

namespace DexIndex

open Writer (Durable)

namespace Engine

variable {e e' : Engine} {blocks : List Block} {published : List Event}

/-- An engine that was started on an empty store and whose calls have all succeeded, with the blocks
that it was given and the events that it has published since. -/
inductive Worked : Engine → List Block → List Event → Prop
  | start {config : Config} {f : Faults} {e : Engine}
      (started : Engine.start config (f.store .empty) = .ok e) : Worked e [] []
  /-- What subscribers and the sink do, and what the next accesses run into, is up to the world. -/
  | world {e : Engine} {blocks : List Block} {published : List Event}
      (h : Worked e blocks published) (live : Live) (sink : Option Sink) (f : Faults) :
      Worked { e.withFaults f with live, sink } blocks published
  | call {e e' : Engine} {blocks : List Block} {published : List Event}
      (h : Worked e blocks published) {c : Call} (ended : c.run e = (.ok (), e')) :
      Worked e' (blocks ++ c.blocks) (published ++ c.published e)

/-- What holds of an engine and the events that it has published. -/
structure Told (e : Engine) (published : List Event) : Prop where
  durable : ∃ log, Durable e.writer e.ledger log ∧ log.map (·.event) = published
  chain : Event.InChain (published ++ e.writer.unpublished)
  slots : ∀ x ∈ published ++ e.writer.unpublished, ∃ s, e.lastSlot = some s ∧ x.ref.place.slot ≤ s

namespace Told

theorem emit (h : e.Told published) (d : List Event) : (e.emit d).Told published := by
  unfold Engine.emit
  split
  · exact h
  · exact ⟨h.durable, h.chain, h.slots⟩

theorem start {config : Config} {f : Faults}
    (h : Engine.start config (f.store .empty) = .ok e) : e.Told [] := by
  unfold Engine.start at h
  split at h
  · cases h
  · cases h
  have hempty : (Ledger.ofStore (f.store .empty)).store.table = BlockEvents.tableOf [] := rfl
  obtain ⟨s, hs, hread | ⟨_, err, hread⟩⟩ := storedCheckpoint_cases hempty
  · rw [hread] at h
    dsimp only at h
    split at h
    · cases h
    next n ledger hload =>
    split at h
    · cases h
    · cases h
      have hfirst : Durable (.resume .default .default none) (.ofStore s) [] :=
        .start .default .default hs.table
      exact ⟨⟨[], hfirst.resume _ _ _ hload, rfl⟩, .nil, fun x hx => by cases hx⟩
  · rw [hread] at h
    cases h

theorem write (h : e.Told published) {b : Block} (hb : b.Ordered) {x : BlockEvents}
    (hx : b.extract e.programs = .ok x) (hnew : ¬ e.isProcessed b) {now : Timestamp}
    {d : List Event} {w : Writer} {l : Ledger}
    (hwrite : e.writer.writeBlock e.ledger x now = (.ok d, w, l)) :
    Told { e with writer := w, ledger := l, lastSlot := some b.number } (published ++ d) := by
  obtain ⟨log, hlog, rfl⟩ := h.durable
  obtain ⟨os, hos⟩ := hlog.reached.sound.knows
  have hall : log.map (·.event) ++ d ++ w.unpublished =
      (log.map (·.event) ++ e.writer.unpublished) ++
        x.events.filter (Event.isKept (Ownership.first? (os ++ x.ownerships))) := by
    rw [List.append_assoc, Writer.given_append_of_writeBlock hos hwrite, List.append_assoc]
  have hbelow : ∀ y ∈ log.map (·.event) ++ e.writer.unpublished,
      y.ref.place.slot < b.number := by
    intro y hy
    obtain ⟨s, hs, hle⟩ := h.slots y hy
    have hlt : s < b.number := by simpa [isProcessed, hs] using hnew
    exact UInt64.lt_of_le_of_lt hle hlt
  have hslot : ∀ y ∈ x.events, y.ref.place.slot = b.number := fun y hy =>
    (Block.slot_of_mem_events hx hy).trans (Block.slot_of_extract hx)
  have hdurable := hlog.write x now
  rw [hwrite] at hdurable
  refine ⟨⟨_, hdurable, ?_⟩, ?_, fun y hy => ⟨b.number, rfl, ?_⟩⟩
  · rw [List.map_append, Writer.landed_map_event]
  · show Event.InChain (log.map (·.event) ++ d ++ w.unpublished)
    rw [hall]
    refine List.pairwise_append.mpr
      ⟨h.chain, (hb.inChain_events hx).filter _, fun y hy z hz => .inr (.inl ?_)⟩
    rw [hslot z (List.mem_filter.mp hz).1]
    exact hbelow y hy
  · have hy : y ∈ log.map (·.event) ++ d ++ w.unpublished := hy
    rw [hall] at hy
    rcases List.mem_append.mp hy with hy | hy
    · exact UInt64.le_of_lt (hbelow y hy)
    · exact UInt64.le_of_eq (hslot y (List.mem_filter.mp hy).1)

theorem process (h : e.Told published) {b : Block} (hb : b.Ordered) {now : Timestamp}
    (ended : (Call.process b now).run e = (.ok (), e')) :
    e'.Told (published ++ (Call.process b now).published e) := by
  rcases Call.process_ok ended with ⟨rfl, _, hnone⟩ | ⟨hnew, x, w, l, hx, _, hwrite, rfl⟩
  · rw [hnone, List.append_nil]
    exact h
  · exact (h.write hb hx hnew hwrite).emit _

theorem shutdown (h : e.Told published) {now : Timestamp}
    (ended : (Call.shutdown now).run e = (.ok (), e')) :
    e'.Told (published ++ (Call.shutdown now).published e) := by
  obtain ⟨w, l, hflush, rfl⟩ := Call.shutdown_ok ended
  generalize (Call.shutdown now).published e = d at hflush ⊢
  obtain ⟨log, hlog, rfl⟩ := h.durable
  have hdurable := hlog.flush now
  rw [hflush] at hdurable
  have hall : log.map (·.event) ++ d ++ w.unpublished =
      log.map (·.event) ++ e.writer.unpublished := by
    rw [List.append_assoc, Writer.given_append_of_flush hflush]
  have htold : Told { e with writer := w, ledger := l } (log.map (·.event) ++ d) := by
    refine ⟨⟨_, hdurable, ?_⟩, ?_, ?_⟩
    · rw [List.map_append, Writer.landed_map_event]
    · exact hall ▸ h.chain
    · exact hall ▸ h.slots
  have htold := htold.emit d
  exact ⟨htold.durable, htold.chain, htold.slots⟩

end Told

theorem Worked.told (h : e.Worked blocks published) (hblocks : ∀ b ∈ blocks, b.Ordered) :
    e.Told published := by
  induction h with
  | start started => exact .start started
  | world _ live sink f ih =>
    obtain ⟨⟨log, hlog, hevents⟩, hchain, hslots⟩ := ih hblocks
    exact ⟨⟨log, hlog.world rfl, hevents⟩, hchain, hslots⟩
  | @call e e' blocks published _ c ended ih =>
    have htold := ih fun b hb => hblocks b (List.mem_append_left _ hb)
    cases c with
    | process b now => exact htold.process (hblocks b (by simp [Call.blocks])) ended
    | shutdown now => exact htold.shutdown ended

/-- Whoever folds the events of an order one by one as they are published knows of it what is read
from the store, if at each place the last event of each type comes after events of lower types only.
What is read is the fold of the history in the store, and the events that the live fold takes note of
are those of the history just if that is so. Nothing is asked of the last flush, as what is held back
is neither published nor in the store. -/
theorem Worked.live_view (h : e.Worked blocks published) (hblocks : ∀ b ∈ blocks, b.Ordered)
    (order : OrderKey) :
    ∃ history, e.table.orderEvents order = .ok history ∧
      e.table.order? order = .ok (OrderMachine.replay order history).transition? ∧
      OrderMachine.replay order (published.filter (·.order = order)) =
        OrderMachine.replay order ((OrderMachine.start order).taken published) ∧
      ((OrderMachine.start order).taken published = history ↔ OrderMachine.InStep order published) ∧
      (OrderMachine.InStep order published → e.table.order? order =
        .ok (OrderMachine.replay order (published.filter (·.order = order))).transition?) := by
  obtain ⟨⟨log, hlog, rfl⟩, hchain, _⟩ := h.told hblocks
  have hl := hlog.logged
  obtain ⟨history, hread, hin, hmem, horder⟩ := hl.table.order?_ok hl.sound.table order
  have hpublished := hchain.sublist (List.sublist_append_left _ _)
  have hiff := OrderMachine.taken_eq_iff hpublished hin hmem
  have hlive := (OrderMachine.replay_filter order (log.map (·.event))).trans
    (OrderMachine.applyAll_taken (m := .start order) _).symm
  refine ⟨history, hread, horder, hlive, hiff, fun hstep => ?_⟩
  rw [hlive, hiff.mpr hstep]
  exact horder

end Engine

/-! ### Two fills at one place -/

namespace TwoFills

def requests (seq : UInt64) : RequestQueue := ⟨⟨0x09, 0, 0, seq⟩, 0, []⟩

/-- The order that meets two others is placed by the same instruction. -/
def placing : Block :=
  { block with
    transactions := [
      { id := "", index := 0, failed := false, header := ⟨0, 0, 1⟩
        keys := [key 6, key 1, key 2, key 3, key 4, Execution.sampleProgram]
        invocations := [
          { program := 5, accounts := [0, 1, 2, 3, 0, 0, 0, 4]
            data := (Instruction.newOrderV3 ⟨.bid, 7, 3, .limit, 0⟩).encode
            changes := [⟨key 2, (requests 6).encode, (requests 7).encode⟩,
              ⟨key 3, [], queue.encode⟩] }] }] }

def placedRef : EventRef := ⟨⟨key 6, 6⟩, ⟨10, 0, 0⟩, "", .epoch⟩

def placed : Event := ⟨placedRef, .newOrder ⟨.bid, 7, 3, .limit, 0, "", []⟩ (key 4)⟩

def placedFill (quantity : UInt64) : Event :=
  ⟨placedRef, .fill (key 1) ⟨.bid, false, 7, quantity, 0, 0, 0, 0, ""⟩⟩

def call : Engine.Call := .process placing .epoch

/-- The engine before the call. -/
def engine? : Option Engine :=
  (Engine.start (Execution.sampleConfig 1) (Faults.store ⟨[], []⟩ .empty)).toOption

theorem worked : ∃ e, engine? = some e ∧
    Engine.Worked (call.run e).2 [placing] [placed, placedFill 1, placedFill 2] := by
  have hended : engine?.map (fun e => (call.run e).1.toOption) = some (some ()) := by
    decide +kernel
  have hpublished : engine?.map call.published = some [placed, placedFill 1, placedFill 2] := by
    decide +kernel
  cases hstart : Engine.start (Execution.sampleConfig 1) (Faults.store ⟨[], []⟩ .empty) with
  | error err =>
    rw [engine?, hstart] at hended
    cases hended
  | ok e =>
    rw [engine?, hstart] at hended hpublished
    have hended : (call.run e).1.toOption = some () := Option.some.inj hended
    have hpublished : call.published e = _ := Option.some.inj hpublished
    refine ⟨e, by rw [engine?, hstart]; rfl, ?_⟩
    rcases hrun : call.run e with ⟨_ | _, e'⟩
    · rw [hrun] at hended
      cases hended
    · exact hpublished ▸ (Engine.Worked.start hstart).call hrun

end TwoFills

open TwoFills in
/-- A subscriber is told of the first fill, and the store has the second one. -/
theorem Engine.live_view_of_two_fills :
    ∃ e, Engine.Worked e [placing] [placed, placedFill 1, placedFill 2] ∧
      e.writer.pending = [] ∧ e.table.orderEvents placedRef.order = .ok [placed, placedFill 2] ∧
      ¬ OrderMachine.InStep placedRef.order [placed, placedFill 1, placedFill 2] ∧
      e.table.order? placedRef.order ≠
        .ok (OrderMachine.replay placedRef.order [placed, placedFill 1, placedFill 2]).transition? := by
  obtain ⟨e, hengine, hworked⟩ := worked
  have hordered : ∀ b ∈ [placing], b.Ordered := by
    rintro b hb
    rw [List.mem_singleton.mp hb]
    exact ⟨by decide +kernel, by decide +kernel⟩
  have hpending : engine?.map (fun e => (call.run e).2.writer.pending) = some [] := by
    decide +kernel
  have hread : engine?.map (fun e => ((call.run e).2.table.orderEvents placedRef.order).toOption) =
      some (some [placed, placedFill 2]) := by
    decide +kernel
  rw [hengine] at hpending hread
  obtain ⟨history, hhistory, horder, _, hiff, _⟩ := hworked.live_view hordered placedRef.order
  have hread : ((call.run e).2.table.orderEvents placedRef.order).toOption =
      some [placed, placedFill 2] := Option.some.inj hread
  rw [hhistory] at hread
  obtain rfl : history = [placed, placedFill 2] := Option.some.inj hread
  refine ⟨_, hworked, Option.some.inj hpending, hhistory, fun hstep => ?_, ?_⟩
  · exact absurd (hiff.mpr hstep) (by decide +kernel)
  · rw [horder]
    exact fun heq => absurd (Except.ok.inj heq) (by decide +kernel)

end DexIndex
