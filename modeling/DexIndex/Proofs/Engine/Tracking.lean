import DexIndex.Engine
import DexIndex.Proofs.Extraction.Harvest
import DexIndex.Proofs.Writer.Basis

/-!
# What an engine stands for

An engine stands for two lists of blocks (`Engine.Tracks`): those whose rows are in its store and
those whose rows it holds back. Starting on a store that holds the rows of blocks gives an engine that
stands for them (`Engine.start_cases`), and each call either fails, having written all that was held
back or nothing, or moves blocks from the second list to the first (`Engine.Ended`).
-/

namespace DexIndex

open BlockEvents

namespace Engine

theorem storedCheckpoint_cases {l : Ledger} {bs : List BlockEvents}
    (ht : l.store.table = tableOf bs) :
    ∃ s, l.store.ReadFrom s ∧
      (storedCheckpoint l = (.ok (lastCheckpoint? bs), { l with store := s }) ∨
        (l.store.reads ≠ [] ∧ ∃ e, storedCheckpoint l = (.error e, { l with store := s }))) := by
  unfold storedCheckpoint Ledger.get Store.get
  obtain ⟨s, hs, hget | ⟨hr, e, hget⟩⟩ := l.store.read_cases (·.get? Checkpoint.key)
  · refine ⟨s, hs, .inl ?_⟩
    rw [hget, ht, get?_tableOf_checkpoint]
    cases lastCheckpoint? bs with
    | none => rfl
    | some c => simp only [Option.map_some, Checkpoint.decode_encode]; rfl
  · exact ⟨s, hs, .inr ⟨hr, .store e, by rw [hget]⟩⟩

/-! ### The blocks of an engine -/

/-- An engine whose store holds the rows of the blocks `stored` and which holds back those of the
blocks `held`. -/
structure Tracks (e : Engine) (stored held : List BlockEvents) : Prop where
  table : e.ledger.store.table = tableOf stored
  cache : ∀ a, e.ledger.cache.find? a = Ownership.first? (named (stored ++ held)) a
  pending : e.writer.pending = heldRows (named stored) held
  unpublished : e.writer.unpublished = kept (named stored) held
  durable : e.writer.durable = lastCheckpoint? stored
  buffered : e.writer.buffered = lastCheckpoint? (stored ++ held)
  lastSlot : e.lastSlot = (lastCheckpoint? (stored ++ held)).map (·.slot)
  ordered : (stored ++ held).Pairwise (·.slot < ·.slot)

end Engine

/-- A configuration with which an engine can start. -/
structure Config.Usable (c : Config) (programs : List PublicKey) : Prop where
  valid : c.validate = .ok ()
  programs : c.programs = .ok programs
  threshold : c.nearHeadThresholdMs?.isSome

namespace Engine
variable {e : Engine} {stored held : List BlockEvents}

theorem start_cases (c : Config) {s : Store} {bs : List BlockEvents} (ht : s.table = tableOf bs)
    (ho : bs.Pairwise (·.slot < ·.slot)) :
    (∃ e, start c s = .ok e ∧ e.Tracks bs [] ∧ c.programs = .ok e.programs ∧
      (s.Faultless → e.ledger.store.Faultless)) ∨
    ∃ err s', start c s = .error (err, s') ∧ s'.table = s.table ∧
      (s.Faultless → ∀ programs, ¬ c.Usable programs) := by
  unfold start
  cases hv : c.validate with
  | error err => exact .inr ⟨_, s, rfl, rfl, fun _ _ hu => by simp [hu.valid] at hv⟩
  | ok u =>
    cases hp : c.programs with
    | error err => exact .inr ⟨_, s, rfl, rfl, fun _ _ hu => by simp [hu.programs] at hp⟩
    | ok programs =>
      obtain ⟨s₁, hs₁, hcp | ⟨hr, err, hcp⟩⟩ :=
        storedCheckpoint_cases (l := .ofStore s) ht
      · obtain ⟨l₂, hs₂, ⟨n, ho₂, hc₂⟩ | ⟨hr, err, ho₂⟩⟩ :=
          Ledger.loadOwners_cases (l := { Ledger.ofStore s with store := s₁ }) rfl
            (hs₁.table.trans ht ▸ backed_tableOf bs)
        · have htable : l₂.store.table = s.table := hs₂.table.trans hs₁.table
          cases hth : c.nearHeadThresholdMs? with
          | none =>
            simp only [hcp, ho₂]
            exact .inr ⟨_, _, rfl, htable, fun _ _ hu => by simpa [hth] using hu.threshold⟩
          | some threshold =>
            simp only [hcp, ho₂]
            refine .inl ⟨_, rfl, ⟨htable.trans ht, ?_, rfl, rfl, rfl, ?_, ?_, ?_⟩, rfl,
              (hs₁.trans hs₂).faultless⟩
            · intro a
              have howner : (l₂.cache.find? a).map Ownership.encodeTrader =
                  s₁.table.get? (Ownership.encodeKey a) := hc₂ a
              rw [hs₁.table.trans ht, get?_tableOf_owner] at howner
              rw [List.append_nil]
              exact Option.map_injective Ownership.encodeTrader_injective howner
            · simp [Writer.resume]
            · simp
            · simpa using ho
        · simp only [hcp, ho₂]
          exact .inr ⟨_, _, rfl, (hs₁.trans hs₂).table, fun hs => absurd (hs₁.reads hs.reads) hr⟩
      · simp only [hcp]
        exact .inr ⟨_, _, rfl, hs₁.table, fun hs => absurd hs.reads hr⟩

/-! ### Calls -/

/-- What a block adds to an engine: its events, unless it was processed before or cannot be
extracted. -/
def accepted? (e : Engine) (b : Block) : Option BlockEvents :=
  if e.isProcessed b then none else (b.extract e.programs).toOption

/-- How a call ends that adds the blocks `new` to an engine. It does not fail if all is `clean`, and
it publishes the events that have become durable. -/
inductive Ended (e : Engine) (stored held new : List BlockEvents) (clean : Prop) :
    Except EngineError Unit × Engine → Prop
  | failed {err : EngineError} {e' : Engine} (fault : ¬ clean)
      (checkpoint : e'.checkpoint? = lastCheckpoint? stored)
      (ordered : (stored ++ held ++ new).Pairwise (·.slot < ·.slot))
      (table : e'.ledger.store.table = tableOf stored ∨
        e'.ledger.store.table = tableOf (stored ++ held ++ new)) :
      Ended e stored held new clean (.error err, e')
  | holding {e' : Engine} (tracks : e'.Tracks stored (held ++ new))
      (programs : e'.programs = e.programs) (live : e'.live = e.live)
      (faultless : e.ledger.store.Faultless → e'.ledger.store.Faultless) :
      Ended e stored held new clean (.ok (), e')
  | flushed {e' : Engine} (tracks : e'.Tracks (stored ++ held ++ new) [])
      (programs : e'.programs = e.programs)
      (live : e'.live = e.live.publish (kept (named stored) (held ++ new)))
      (faultless : e.ledger.store.Faultless → e'.ledger.store.Faultless) :
      Ended e stored held new clean (.ok (), e')

/-- A call that succeeds moves blocks from those held back to those in the store. -/
theorem Ended.tracks {new : List BlockEvents} {clean : Prop} {e' : Engine}
    (h : Ended e stored held new clean (.ok (), e')) :
    ∃ stored' held', e'.Tracks stored' held' ∧ stored' ++ held' = stored ++ held ++ new ∧
      e'.programs = e.programs ∧ (e.ledger.store.Faultless → e'.ledger.store.Faultless) := by
  cases h with
  | holding ht hp _ hf => exact ⟨_, _, ht, (List.append_assoc stored held new).symm, hp, hf⟩
  | flushed ht hp _ hf => exact ⟨_, _, ht, List.append_nil _, hp, hf⟩

theorem Tracks.holds (h : e.Tracks stored held) :
    Basis.empty.Holds e.writer e.ledger stored held := by
  refine ⟨?_, h.cache, h.pending, h.unpublished, ?_, ?_, h.ordered, nofun⟩
  · rw [Basis.tableAfter_empty]
    exact h.table
  · rw [Basis.checkpointAfter_empty]
    exact h.durable
  · rw [Basis.checkpointAfter_empty]
    exact h.buffered

theorem tracks_of_holds (h : Basis.empty.Holds e.writer e.ledger stored held)
    (hslot : e.lastSlot = (lastCheckpoint? (stored ++ held)).map (·.slot)) :
    e.Tracks stored held := by
  obtain ⟨htable, hcache, hpending, hunpublished, hdurable, hbuffered, horder⟩ := h
  rw [Basis.tableAfter_empty] at htable
  rw [Basis.checkpointAfter_empty] at hdurable hbuffered
  exact ⟨htable, hcache, hpending, hunpublished, hdurable, hbuffered, hslot, horder.ordered⟩

theorem Tracks.emit (h : e.Tracks stored held) (durable : List Event) :
    (e.emit durable).Tracks stored held ∧ (e.emit durable).programs = e.programs ∧
      (e.emit durable).ledger = e.ledger ∧ (e.emit durable).live = e.live.publish durable := by
  unfold Engine.emit
  split
  · next hempty => exact ⟨h, rfl, rfl, by rw [Live.publish, if_pos (by simp [hempty])]⟩
  · exact ⟨⟨h.table, h.cache, h.pending, h.unpublished, h.durable, h.buffered, h.lastSlot,
      h.ordered⟩, rfl, rfl, rfl⟩

theorem Tracks.processBlock (h : e.Tracks stored held) (b : Block) (now : Timestamp) :
    Ended e stored held (e.accepted? b).toList
      (e.ledger.store.Faultless ∧ ∃ x, b.extract e.programs = .ok x) (e.processBlock b now) := by
  unfold Engine.processBlock accepted?
  by_cases hproc : e.isProcessed b
  · rw [if_pos hproc, if_pos hproc]
    refine .holding (by simpa using h) rfl rfl id
  rw [if_neg hproc, if_neg hproc]
  cases hx : b.extract e.programs with
  | error err =>
    refine .failed (by rintro ⟨_, x, ⟨⟩⟩) h.durable ?_ (.inl h.table)
    simpa [Except.toOption] using h.ordered
  | ok x =>
    have hslot := Block.slot_of_extract hx
    have hnext : ∀ c, Basis.empty.checkpointAfter (stored ++ held) = some c →
        c.slot < x.slot := by
      intro c hc
      rw [Basis.checkpointAfter_empty] at hc
      rw [hslot]
      simpa [isProcessed, h.lastSlot, hc] using hproc
    have hmoved := h.holds.writeBlock hnext now
    have hlast : some b.number = (lastCheckpoint? (stored ++ held ++ [x])).map (·.slot) := by
      rw [lastCheckpoint?_append_singleton, ← hslot]
      rfl
    change Ended e stored held [x] _ _
    dsimp only
    generalize e.writer.writeBlock e.ledger x now = r at hmoved
    cases hmoved with
    | failed fault durable inOrder table =>
      simp only [Basis.tableAfter_empty] at table
      refine .failed ?_ (durable.trans h.durable) inOrder.ordered table
      exact fun hclean => fault hclean.1
    | @holding w' l' holds faultless =>
      have htracks : Tracks { e with writer := w', ledger := l', lastSlot := some b.number }
          stored (held ++ [x]) :=
        tracks_of_holds holds (by rw [← List.append_assoc]; exact hlast)
      obtain ⟨htracks, hprograms, hledger, hlive⟩ := htracks.emit []
      refine .holding htracks hprograms hlive fun hs => ?_
      rw [hledger]
      exact faultless hs
    | @flushed w' l' holds faultless =>
      have htracks : Tracks { e with writer := w', ledger := l', lastSlot := some b.number }
          (stored ++ held ++ [x]) [] :=
        tracks_of_holds holds (by rw [List.append_nil]; exact hlast)
      obtain ⟨htracks, hprograms, hledger, hlive⟩ := htracks.emit _
      refine .flushed htracks hprograms hlive fun hs => ?_
      rw [hledger]
      exact faultless hs

theorem Tracks.callSink (h : e.Tracks stored held) (c : SinkCall) :
    (e.callSink c).Tracks stored held :=
  ⟨h.table, h.cache, h.pending, h.unpublished, h.durable, h.buffered, h.lastSlot, h.ordered⟩

/-- Once an engine is shut down, nothing is held back. -/
theorem Tracks.shutdown_cases (h : e.Tracks stored held) (now : Timestamp) :
    (∃ e', e.shutdown now = (.ok (), e') ∧ e'.Tracks (stored ++ held) [] ∧
      e'.programs = e.programs ∧ e'.live = e.live.publish (kept (named stored) held) ∧
      (e.ledger.store.Faultless → e'.ledger.store.Faultless)) ∨
    (¬ e.ledger.store.Faultless ∧ ∃ err e', e.shutdown now = (.error err, e') ∧
      e'.checkpoint? = lastCheckpoint? stored ∧ (e'.ledger.store.table = tableOf stored ∨
        e'.ledger.store.table = tableOf (stored ++ held))) := by
  unfold Engine.shutdown
  rcases h.holds.flush now with
    ⟨w, l, hflush, holds, faultless⟩ | ⟨fault, err, w, l, hflush, durable, table⟩
  · rw [hflush]
    have htracks : Tracks { e with writer := w, ledger := l } (stored ++ held) [] :=
      tracks_of_holds holds (by rw [List.append_nil]; exact h.lastSlot)
    obtain ⟨htracks, hprograms, hledger, hlive⟩ := htracks.emit _
    refine .inl ⟨_, rfl, htracks.callSink .flush, hprograms, hlive, fun hclean => ?_⟩
    exact hledger ▸ faultless hclean
  · rw [hflush]
    simp only [Basis.tableAfter_empty] at table
    exact .inr ⟨fault, _, _, rfl, durable.trans h.durable, table⟩

theorem Tracks.shutdown (h : e.Tracks stored held) (now : Timestamp) :
    Ended e stored held [] e.ledger.store.Faultless (e.shutdown now) := by
  rcases h.shutdown_cases now with ⟨e', hr, ht, hp, hl, hf⟩ | ⟨fault, err, e', hr, hc, ht⟩
  · rw [hr]
    exact .flushed (by simpa using ht) hp (by simpa using hl) hf
  · rw [hr]
    exact .failed fault hc (by simpa using h.ordered) (by simpa using ht)

end Engine

end DexIndex
