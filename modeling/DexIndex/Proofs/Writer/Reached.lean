import DexIndex.Proofs.Writer.Owners

/-!
# Writers at work

A writer starts over an empty table or resumes on what is left of another, gets calls whose accesses
may run into anything, and goes on after calls that failed (`Reached`). However far it comes, what
its table holds and what it holds back are rows of events that stand together, and its ledger knows
exactly the owners in them (`Sound`).
-/

namespace DexIndex.Writer
variable {w : Writer} {l : Ledger}

/-- A writer and its ledger after any calls. -/
inductive Reached : Writer → Ledger → Prop
  | start (schedule : FlushSchedule) (policy : FlushPolicy) {s : Store} (empty : s.table = .empty) :
      Reached (.resume schedule policy none) (.ofStore s)
  /-- What the next accesses run into is up to the world. -/
  | world {w : Writer} {l : Ledger} (h : Reached w l) {s : Store} (table : s.table = l.store.table) :
      Reached w { l with store := s }
  | write {w : Writer} {l : Ledger} (h : Reached w l) (x : BlockEvents) (now : Timestamp) :
      Reached (w.writeBlock l x now).2.1 (w.writeBlock l x now).2.2
  | flush {w : Writer} {l : Ledger} (h : Reached w l) (now : Timestamp) :
      Reached (w.flush l now).2.1 (w.flush l now).2.2
  /-- What was held back is lost, and the owners are read from the table. -/
  | resume {w : Writer} {l : Ledger} (h : Reached w l) (schedule : FlushSchedule)
      (policy : FlushPolicy) (checkpoint : Option Checkpoint) {n : Nat} {l' : Ledger}
      (owners : (Ledger.ofStore l.store).loadOwners = (.ok n, l')) :
      Reached (.resume schedule policy checkpoint) l'

/-- What holds of a writer and its ledger at any time. -/
structure Sound (w : Writer) (l : Ledger) : Prop where
  table : l.store.table.Backed
  pending : Backed w.pending
  owners : ∀ a, (l.store.table.insertAll w.pending).get? (Ownership.encodeKey a) =
    (l.cache.find? a).map Ownership.encodeTrader

theorem Sound.all (h : Sound w l) : (l.store.table.insertAll w.pending).Backed :=
  h.table.insertAll h.pending

theorem Sound.knows (h : Sound w l) : ∃ os, l.Knows os := by
  refine ⟨l.cache.owners.map fun p => ⟨p.1, p.2⟩, l.cache.find?_eq_first?, fun a ha => ?_⟩
  have hnone := h.owners a
  rw [l.cache.find?_eq_first?, ha, Option.map_none, Table.get?_insertAll,
    Option.or_eq_none_iff] at hnone
  exact hnone.2

/-- Reads change nothing. -/
theorem Sound.world (h : Sound w l) {s : Store} (hs : s.table = l.store.table) :
    Sound w { l with store := s } :=
  ⟨hs ▸ h.table, h.pending, fun a => by rw [hs]; exact h.owners a⟩

/-- Rows of events and checkpoints may be held back at any time. -/
theorem Sound.hold (h : Sound w l) {rows : List Row} (hrows : Backed rows)
    (howners : ∀ a, Ownership.encodeKey a ∉ rows.map (·.1)) : Sound (w.hold rows) l := by
  refine ⟨h.table, h.pending.append hrows, fun a => ?_⟩
  rw [← h.owners a]
  change (l.store.table.insertAll (w.pending ++ rows)).get? _ = _
  rw [Table.insertAll_append, Table.get?_insertAll_of_not_mem (howners a)]

/-! ### Owners -/

theorem Sound.claim (h : Sound w l) (o : Ownership) :
    (∃ row l', l.claim o = (.ok row, l') ∧ Sound (w.hold row.toList) l') ∨
      ∃ e l', l.claim o = (.error e, l') ∧ Sound w l' := by
  obtain ⟨os, hos⟩ := h.knows
  obtain ⟨l', hs, ⟨hclaim, hknows⟩ | ⟨_, hcache, e, hclaim⟩⟩ := l.claim_cases hos o
  · refine .inl ⟨_, l', hclaim, ?_⟩
    have hrows : (if (Ownership.first? os o.account).isSome then none else some o.row).toList =
        Ownership.newRows os [o] := by
      rw [Ownership.newRows, Ownership.newRows, List.append_nil]
      split <;> rfl
    rw [hrows]
    refine ⟨hs.table ▸ h.table, h.pending.append (.newRows os [o]), fun a => ?_⟩
    rw [hknows.cache, hs.table]
    change (l.store.table.insertAll (w.pending ++ _)).get? _ = _
    rw [Table.insertAll_append]
    exact Ownership.get?_insertAll_newRows (fun a => by rw [h.owners, hos.cache]) [o] a
  · refine .inr ⟨e, l', hclaim, hs.table ▸ h.table, h.pending, fun a => ?_⟩
    rw [hs.table, hcache]
    exact h.owners a

theorem Sound.bufferOwnerships (h : Sound w l) (new : List Ownership) :
    Sound (w.bufferOwnerships l new).2.1 (w.bufferOwnerships l new).2.2 := by
  induction new generalizing w l with
  | nil => exact h
  | cons o rest ih =>
    rw [Writer.bufferOwnerships]
    rcases h.claim o with ⟨row, l', hclaim, h'⟩ | ⟨e, l', hclaim, h'⟩
    · simp only [hclaim]
      exact ih h'
    · simp only [hclaim]
      exact h'

/-! ### Events -/

theorem Sound.bufferEvent (h : Sound w l) (e : Event) :
    Sound (w.bufferEvent l e).2.1 (w.bufferEvent l e).2.2 := by
  obtain ⟨os, hos⟩ := h.knows
  obtain ⟨s, hs, ⟨m, he⟩ | ⟨_, err, he⟩⟩ := bufferEvent_cases (w := w) hos e
  · rw [he]
    have hheld := (h.world hs.table).hold (Backed.flatMap_rowsWith (Ownership.first? os) [e])
      fun a => BlockEvents.owner_not_mem_eventRows _ a [e]
    exact ⟨hheld.table, hheld.pending, hheld.owners⟩
  · rw [he]
    exact h.world hs.table

theorem Sound.bufferEvents (h : Sound w l) (events : List Event) :
    Sound (w.bufferEvents l events).2.1 (w.bufferEvents l events).2.2 := by
  induction events generalizing w l with
  | nil => exact h
  | cons e rest ih =>
    have he := h.bufferEvent e
    rw [Writer.bufferEvents]
    generalize w.bufferEvent l e = r at he
    obtain ⟨r, w', l'⟩ := r
    cases r with
    | ok => exact ih he
    | error => exact he

/-! ### Flushes and whole blocks -/

theorem Sound.flush (h : Sound w l) (now : Timestamp) :
    Sound (w.flush l now).2.1 (w.flush l now).2.2 := by
  by_cases hp : w.pending = []
  · rw [flush_of_pending_nil hp]
    exact h
  · obtain ⟨s, hs, ⟨m, hf, ht⟩ | ⟨_, e, m, hf⟩⟩ := flush_cases hp l now
    · rw [hf]
      exact ⟨ht ▸ h.all, .nil, fun a => by rw [← h.owners a, ← ht]; rfl⟩
    · rw [hf]
      -- a batch that was written although the attempt failed is still held back
      rcases hs.table with ht | ht
      · have hw := h.world ht
        exact ⟨hw.table, hw.pending, hw.owners⟩
      · refine ⟨ht ▸ h.all, h.pending, fun a => ?_⟩
        rw [← h.owners a, ← Table.insertAll_self l.store.table w.pending, ← ht]

theorem Sound.holdCheckpoint (h : Sound w l) (x : BlockEvents) : Sound (w.holdCheckpoint x) l := by
  have hheld := h.hold (.checkpointRow (blockCheckpoint x)) fun a hmem => by
    exact Ownership.encodeKey_ne_checkpoint a (List.mem_singleton.mp hmem)
  exact ⟨hheld.table, hheld.pending, hheld.owners⟩

theorem Sound.writeBlock (h : Sound w l) (x : BlockEvents) (now : Timestamp) :
    Sound (w.writeBlock l x now).2.1 (w.writeBlock l x now).2.2 := by
  unfold Writer.writeBlock
  split
  · exact h
  · have ho := h.bufferOwnerships x.ownerships
    generalize w.bufferOwnerships l x.ownerships = r at ho
    obtain ⟨r, w₁, l₁⟩ := r
    cases r with
    | error => exact ho
    | ok =>
      have he := Sound.bufferEvents ho x.events
      dsimp only at he ⊢
      generalize w₁.bufferEvents l₁ x.events = r at he
      obtain ⟨r, w₂, l₂⟩ := r
      cases r with
      | error => exact he
      | ok =>
        have hc := Sound.holdCheckpoint he x
        dsimp only at hc ⊢
        split
        · exact hc.flush now
        · exact hc

theorem Sound.resume (h : Sound w l) (schedule : FlushSchedule) (policy : FlushPolicy)
    (checkpoint : Option Checkpoint) {n : Nat} {l' : Ledger}
    (hl : (Ledger.ofStore l.store).loadOwners = (.ok n, l')) :
    Sound (.resume schedule policy checkpoint) l' := by
  obtain ⟨l₁, hs, ⟨n₁, hload, howners⟩ | ⟨_, e, hload⟩⟩ :=
    Ledger.loadOwners_cases (l := .ofStore l.store) rfl h.table
  · obtain ⟨_, rfl⟩ := Prod.mk.inj (hl.symm.trans hload)
    refine ⟨hs.table ▸ h.table, .nil, fun a => ?_⟩
    rw [howners a, ← hs.table]
    rfl
  · cases hl.symm.trans hload

/-- Whatever calls a writer has got. -/
theorem Reached.sound (h : Reached w l) : Sound w l := by
  induction h with
  | start schedule policy empty =>
    exact ⟨empty ▸ .empty, .nil, fun a => by rw [Ledger.ofStore, empty]; rfl⟩
  | world _ table ih => exact ih.world table
  | write _ x now ih => exact ih.writeBlock x now
  | flush _ now ih => exact ih.flush now
  | resume _ schedule policy checkpoint owners ih => exact ih.resume schedule policy checkpoint owners

end DexIndex.Writer
