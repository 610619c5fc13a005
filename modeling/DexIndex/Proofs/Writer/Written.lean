import DexIndex.Proofs.Writer.Passes

/-!
# A block written and flushed

Once a block is written and a flush succeeds, its rows have been put into the table after all others
(`table_of_written`), so that what stands under the key of one of its events is one of its
events (`Sound.get?_of_written`). The events of a block that are written are given out in their turn
(`given_append_of_writeBlock`).
-/

namespace DexIndex

/-- Who owns an account once a block is written: whoever was known before, or else the first whom
the block names. -/
def Ledger.ownerWith (l : Ledger) (x : BlockEvents) (account : PublicKey) : Option PublicKey :=
  (l.cache.find? account).or (Ownership.first? x.ownerships account)

theorem Ledger.Knows.ownerWith {l : Ledger} {os : List Ownership} (h : l.Knows os)
    (x : BlockEvents) : l.ownerWith x = Ownership.first? (os ++ x.ownerships) := by
  funext a
  rw [Ledger.ownerWith, h.cache, Ownership.first?_append]

namespace Writer
variable {w w₁ w₂ : Writer} {l l₁ l₂ : Ledger} {x : BlockEvents} {now now' : Timestamp}
  {d d' : List Event}

theorem buffered_le_of_writeBlock (h : w.writeBlock l x now = (.ok d, w₁, l₁)) :
    ∀ c, w.buffered = some c → c.slot ≤ x.slot := by
  intro c hc
  refine UInt64.not_lt.mp fun hlt => ?_
  rw [writeBlock_rejected hc hlt] at h
  cases h

theorem table_of_written (hw : w.writeBlock l x now = (.ok d, w₁, l₁))
    (hf : w₁.flush l₁ now' = (.ok d', w₂, l₂)) {os : List Ownership} (hos : l.Knows os) :
    l₂.store.table =
      (l.store.table.insertAll w.pending).insertAll (BlockEvents.heldRows os [x]) := by
  have hwrote := writeBlock_wrote hos (buffered_le_of_writeBlock hw) now
  rw [hw] at hwrote
  rw [← Table.insertAll_append]
  cases hwrote with
  | @held m _ _ table =>
    have hp : (w.holdingBlock os x m).pending ≠ [] := by simp [holdingBlock, BlockEvents.heldRows]
    obtain ⟨s, _, ⟨_, hflush, ht⟩ | ⟨_, e, _, hflush⟩⟩ := flush_cases hp l₁ now'
    · cases hf.symm.trans hflush
      rw [← table]
      exact ht
    · cases hf.symm.trans hflush
  | flushed _ table =>
    rw [flush_of_pending_nil rfl] at hf
    cases hf
    exact table

/-- Where no access fails, a block that is not too old is written and flushed. -/
theorem exists_written (hl : l.store.Faultless) {os : List Ownership} (hos : l.Knows os)
    (hb : ∀ c, w.buffered = some c → c.slot ≤ x.slot) (now now' : Timestamp) :
    ∃ d w₁ l₁ d' w₂ l₂, w.writeBlock l x now = (.ok d, w₁, l₁) ∧
      w₁.flush l₁ now' = (.ok d', w₂, l₂) :=
  exists_written_of_readable hl hos.readable hb now now'

/-- The events that a call gives out. -/
def given : Except WriterError (List Event) × Writer × Ledger → List Event
  | (.ok events, _, _) => events
  | (.error _, _, _) => []

/-- Events are given out or held back, and none is lost. -/
theorem given_append_of_writeBlock {os : List Ownership} (hos : l.Knows os)
    (h : w.writeBlock l x now = (.ok d, w₁, l₁)) :
    d ++ w₁.unpublished =
      w.unpublished ++ x.events.filter (Event.isKept (Ownership.first? (os ++ x.ownerships))) := by
  have hwrote := writeBlock_wrote hos (buffered_le_of_writeBlock h) now
  rw [h] at hwrote
  cases hwrote with
  | held => rfl
  | flushed => exact List.append_nil _

theorem given_append_of_flush (h : w.flush l now = (.ok d, w₁, l₁)) :
    d ++ w₁.unpublished = w.unpublished := by
  by_cases hp : w.pending = []
  · rw [flush_of_pending_nil hp] at h
    cases h
    rfl
  · obtain ⟨s, _, ⟨m, hflush, _⟩ | ⟨_, e, m, hflush⟩⟩ := flush_cases hp l now
    · cases h.symm.trans hflush
      exact List.append_nil _
    · cases h.symm.trans hflush

namespace Sound
variable (h : Sound w l) (hw : w.writeBlock l x now = (.ok d, w₁, l₁))
  (hf : w₁.flush l₁ now' = (.ok d', w₂, l₂))
include h hw hf

theorem backed_of_written : l₂.store.table.Backed := by
  obtain ⟨os, hos⟩ := h.knows
  rw [table_of_written hw hf hos]
  exact h.all.insertAll (.heldRows os [x])

theorem isSome_get?_of_written {e : Event} (he : e ∈ x.events) (hkept : e.isKept (l.ownerWith x))
    {r : Row} (hr : r ∈ eventRows e (e.traderWith (l.ownerWith x))) :
    (l₂.store.table.get? r.1).isSome := by
  obtain ⟨os, hos⟩ := h.knows
  rw [hos.ownerWith] at hkept hr
  rw [table_of_written hw hf hos]
  refine Table.isSome_get?_insertAll (List.mem_append_left _ (List.mem_append_right _ ?_))
  refine List.mem_flatMap.mpr ⟨e, he, ?_⟩
  rwa [Event.rowsWith_eq, if_pos hkept]

theorem get?_of_written {e : Event} (he : e ∈ x.events) (hkept : e.isKept (l.ownerWith x)) :
    ∃ e' ∈ x.events, e'.isKept (l.ownerWith x) ∧
      OrderEventKey.ofEvent e' = OrderEventKey.ofEvent e ∧
      l₂.store.table.get? (OrderEventKey.ofEvent e).encode =
        some (StoredEvent.ofEvent e' (e'.traderWith (l.ownerWith x))).encode := by
  obtain ⟨os, hos⟩ := h.knows
  rw [hos.ownerWith] at hkept ⊢
  rw [table_of_written hw hf hos]
  have hmem : e.mainRow (e.traderWith (Ownership.first? (os ++ x.ownerships))) ∈
      BlockEvents.heldRows os [x] :=
    List.mem_append_left _ (List.mem_append_right _
      (List.mem_flatMap.mpr ⟨e, he, Event.mainRow_mem_rowsWith hkept⟩))
  obtain ⟨value, hget, hrow⟩ :=
    Table.exists_get?_insertAll (l.store.table.insertAll w.pending) hmem
  -- of all rows of the block only those of events have a key of this family
  rcases List.mem_append.mp hrow with hrow | hrow
  · rcases List.mem_append.mp hrow with hrow | hrow
    · obtain ⟨o, ho⟩ := Ownership.eq_row_of_mem_newRows hrow
      have htag := congrArg (·.1.head?) ho
      cases Family.eq_of_tag_eq (a := .orderEvent) (b := .tradingAccount) (Option.some.inj htag)
    · obtain ⟨e', he', hrow⟩ := List.mem_flatMap.mp hrow
      rw [Event.rowsWith_eq] at hrow
      split at hrow
      · next hkept' =>
        obtain ⟨hkey, rfl⟩ := Prod.mk.inj (Event.eq_mainRow_of_mem hrow rfl)
        exact ⟨e', he', hkept', (OrderEventKey.encode_injective hkey).symm, hget⟩
      · cases hrow
  · have htag := congrArg (·.1.head?) (List.mem_singleton.mp hrow)
    cases Family.eq_of_tag_eq (a := .orderEvent) (b := .checkpoint) (Option.some.inj htag)

end Sound

end Writer

end DexIndex
