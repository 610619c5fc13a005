import DexIndex.Proofs.Writer.Owners

/-!
# Writing on top of what a store has

A writer goes on from a table that may already have owners and a checkpoint (`Basis`). It stands for
the blocks that it was given since then, in two lists: those whose rows are in the table and those
whose rows are held back (`Basis.Holds`). Writing a block fails, having written all of the rows or
none, or it moves blocks from the second list to the first (`Basis.Moved`), and what it gives out are
the events of the blocks it moves.
-/

namespace DexIndex

open BlockEvents

/-- What a table says when a writer begins. -/
structure Basis where
  table : Table
  owners : List Ownership
  checkpoint : Option Checkpoint
  owners_eq : ∀ a, table.get? (Ownership.encodeKey a) =
    (Ownership.first? owners a).map Ownership.encodeTrader
  checkpoint_eq : table.get? Checkpoint.key = checkpoint.map Checkpoint.encode

namespace Basis
variable (b : Basis)

/-- The owners, the table and the checkpoint once blocks are written. -/
def ownersAfter (bs : List BlockEvents) : List Ownership := b.owners ++ named bs

def tableAfter (bs : List BlockEvents) : Table := b.table.insertAll (heldRows b.owners bs)

def checkpointAfter (bs : List BlockEvents) : Option Checkpoint :=
  (lastCheckpoint? bs).or b.checkpoint

theorem ownersAfter_append (bs cs : List BlockEvents) :
    b.ownersAfter (bs ++ cs) = b.ownersAfter bs ++ named cs := by
  rw [ownersAfter, named_append, ownersAfter, List.append_assoc]

theorem tableAfter_append (bs cs : List BlockEvents) :
    b.tableAfter (bs ++ cs) = (b.tableAfter bs).insertAll (heldRows (b.ownersAfter bs) cs) := by
  rw [tableAfter, heldRows_append, Table.insertAll_append, tableAfter, ownersAfter]

theorem checkpointAfter_append_singleton (bs : List BlockEvents) (x : BlockEvents) :
    b.checkpointAfter (bs ++ [x]) = some (Writer.blockCheckpoint x) := by
  rw [checkpointAfter, lastCheckpoint?_append_singleton, Option.some_or]

theorem get?_tableAfter_owner (bs : List BlockEvents) (a : PublicKey) :
    (b.tableAfter bs).get? (Ownership.encodeKey a) =
      (Ownership.first? (b.ownersAfter bs) a).map Ownership.encodeTrader :=
  get?_insertAll_heldRows b.owners_eq bs a

theorem get?_tableAfter_checkpoint (bs : List BlockEvents) :
    (b.tableAfter bs).get? Checkpoint.key = (b.checkpointAfter bs).map Checkpoint.encode := by
  rw [tableAfter, get?_insertAll_heldRows_checkpoint, b.checkpoint_eq, checkpointAfter,
    Option.map_or]

/-- The basis without rows. -/
def empty : Basis := ⟨.empty, [], none, fun _ => rfl, rfl⟩

theorem tableAfter_empty (bs : List BlockEvents) : empty.tableAfter bs = tableOf bs :=
  insertAll_heldRows Table.empty [] bs

theorem checkpointAfter_empty (bs : List BlockEvents) :
    empty.checkpointAfter bs = lastCheckpoint? bs :=
  Option.or_none

/-! ### The order of blocks -/

/-- Blocks come in the order of their slots, and above the checkpoint at the beginning. -/
structure InOrder (bs : List BlockEvents) : Prop where
  ordered : bs.Pairwise (·.slot < ·.slot)
  above : ∀ c, b.checkpoint = some c → ∀ x ∈ bs, c.slot < x.slot

variable {b} {w : Writer} {l : Ledger} {stored held new : List BlockEvents}

theorem InOrder.append_singleton {bs : List BlockEvents} (h : b.InOrder bs) {x : BlockEvents}
    (hx : ∀ c, b.checkpointAfter bs = some c → c.slot < x.slot) : b.InOrder (bs ++ [x]) := by
  rcases bs.eq_nil_or_concat' with rfl | ⟨front, l, rfl⟩
  · refine ⟨List.pairwise_singleton _ _, ?_⟩
    intro c hc y hy
    obtain rfl := List.mem_singleton.mp hy
    exact hx c hc
  · -- the last block lies between the others and the new one
    have hl : l.slot < x.slot := hx _ (b.checkpointAfter_append_singleton front l)
    have hmem : l ∈ front ++ [l] := List.mem_append_right _ (List.mem_singleton_self l)
    constructor
    · refine List.pairwise_append.mpr ⟨h.ordered, List.pairwise_singleton _ _, ?_⟩
      intro y hy z hz
      obtain rfl := List.mem_singleton.mp hz
      rcases List.mem_append.mp hy with hy | hy
      · have hyl := (List.pairwise_append.mp h.ordered).2.2 y hy l (List.mem_singleton_self l)
        exact UInt64.lt_trans hyl hl
      · obtain rfl := List.mem_singleton.mp hy
        exact hl
    · intro c hc y hy
      rcases List.mem_append.mp hy with hy | hy
      · exact h.above c hc y hy
      · obtain rfl := List.mem_singleton.mp hy
        exact UInt64.lt_trans (h.above c hc l hmem) hl

/-! ### The blocks of a writer -/

/-- A writer on a basis whose table has the rows of the blocks `stored` since, and which holds back
those of the blocks `held`. -/
structure Holds (b : Basis) (w : Writer) (l : Ledger) (stored held : List BlockEvents) : Prop where
  table : l.store.table = b.tableAfter stored
  cache : ∀ a, l.cache.find? a = Ownership.first? (b.ownersAfter (stored ++ held)) a
  pending : w.pending = heldRows (b.ownersAfter stored) held
  unpublished : w.unpublished = kept (b.ownersAfter stored) held
  durable : w.durable = b.checkpointAfter stored
  buffered : w.buffered = b.checkpointAfter (stored ++ held)
  inOrder : b.InOrder (stored ++ held)

theorem Holds.knows (h : b.Holds w l stored held) :
    l.Knows (b.ownersAfter (stored ++ held)) := by
  refine ⟨h.cache, fun a ha => ?_⟩
  rw [ownersAfter_append, Ownership.first?_append, Option.or_eq_none_iff] at ha
  rw [h.table, get?_tableAfter_owner, ha.1, Option.map_none]

/-- How a call of a writer ends that is given the blocks `new`. -/
inductive Moved (b : Basis) (w : Writer) (l : Ledger) (stored held new : List BlockEvents) :
    Except WriterError (List Event) × Writer × Ledger → Prop
  | failed {e : WriterError} {w' : Writer} {l' : Ledger} (fault : ¬ l.store.Faultless)
      (durable : w'.durable = w.durable) (inOrder : b.InOrder (stored ++ held ++ new))
      (table : l'.store.table = b.tableAfter stored ∨
        l'.store.table = b.tableAfter (stored ++ held ++ new)) :
      Moved b w l stored held new (.error e, w', l')
  | holding {w' : Writer} {l' : Ledger} (holds : b.Holds w' l' stored (held ++ new))
      (faultless : l.store.Faultless → l'.store.Faultless) :
      Moved b w l stored held new (.ok [], w', l')
  | flushed {w' : Writer} {l' : Ledger} (holds : b.Holds w' l' (stored ++ held ++ new) [])
      (faultless : l.store.Faultless → l'.store.Faultless) :
      Moved b w l stored held new (.ok (kept (b.ownersAfter stored) (held ++ new)), w', l')

theorem Holds.writeBlock (h : b.Holds w l stored held) {x : BlockEvents}
    (hx : ∀ c, b.checkpointAfter (stored ++ held) = some c → c.slot < x.slot) (now : Timestamp) :
    b.Moved w l stored held [x] (w.writeBlock l x now) := by
  have hbuffered : ∀ c, w.buffered = some c → c.slot ≤ x.slot := by
    intro c hc
    rw [h.buffered] at hc
    exact UInt64.le_of_lt (hx c hc)
  have hwrote := w.writeBlock_wrote h.knows hbuffered now
  have horder : b.InOrder (stored ++ held ++ [x]) := h.inOrder.append_singleton hx
  have hheld : w.pending ++ heldRows (b.ownersAfter (stored ++ held)) [x] =
      heldRows (b.ownersAfter stored) (held ++ [x]) := by
    rw [h.pending, heldRows_append, ownersAfter_append]
  have hkept (m : Metrics) :
      (w.holdingBlock (b.ownersAfter (stored ++ held)) x m).unpublished =
        kept (b.ownersAfter stored) (held ++ [x]) := by
    rw [kept_append, kept_singleton, ← h.unpublished, ← ownersAfter_append]
    rfl
  have hall : l.store.table.insertAll (heldRows (b.ownersAfter stored) (held ++ [x])) =
      b.tableAfter (stored ++ held ++ [x]) := by
    rw [h.table, List.append_assoc, tableAfter_append]
  have howners : b.ownersAfter (stored ++ held) ++ x.ownerships =
      b.ownersAfter (stored ++ held ++ [x]) := by
    rw [ownersAfter_append b (stored ++ held), named_singleton]
  generalize w.writeBlock l x now = r at hwrote
  cases hwrote with
  | failed fault durable table =>
    rw [hheld, hall, h.table] at table
    exact .failed fault durable horder table
  | held knows table faultless =>
    refine .holding ⟨table.trans h.table, ?_, hheld, hkept _, h.durable, ?_, ?_⟩ faultless
    · intro a
      rw [knows.cache, howners, List.append_assoc]
    · rw [← List.append_assoc, checkpointAfter_append_singleton]
      rfl
    · rw [← List.append_assoc]
      exact horder
  | @flushed m m' l' cache table faultless =>
    rw [hkept]
    rw [hheld, hall] at table
    refine .flushed ⟨table, ?_, rfl, rfl, ?_, ?_, ?_⟩ faultless
    · intro a
      rw [cache, howners, List.append_nil]
    · rw [checkpointAfter_append_singleton]
      rfl
    · rw [List.append_nil, checkpointAfter_append_singleton]
      rfl
    · rw [List.append_nil]
      exact horder

/-- Once all is flushed, nothing is held back. -/
theorem Holds.flush (h : b.Holds w l stored held) (now : Timestamp) :
    (∃ w' l', w.flush l now = (.ok (kept (b.ownersAfter stored) held), w', l') ∧
      b.Holds w' l' (stored ++ held) [] ∧ (l.store.Faultless → l'.store.Faultless)) ∨
    (¬ l.store.Faultless ∧ ∃ e w' l', w.flush l now = (.error e, w', l') ∧
      w'.durable = w.durable ∧ (l'.store.table = b.tableAfter stored ∨
        l'.store.table = b.tableAfter (stored ++ held))) := by
  by_cases hp : w.pending = []
  · obtain rfl : held = [] := heldRows_eq_nil (h.pending ▸ hp)
    left
    refine ⟨w, l, w.flush_of_pending_nil hp l now, ?_, id⟩
    rw [List.append_nil]
    exact h
  have hall : l.store.table.insertAll w.pending = b.tableAfter (stored ++ held) := by
    rw [h.table, h.pending, tableAfter_append]
  obtain ⟨s, hs, ⟨m, hflush, htable⟩ | ⟨fault, e, m, hflush⟩⟩ := w.flush_cases hp l now
  · left
    refine ⟨_, _, hflush.trans (by rw [h.unpublished]), ?_, hs.faultless⟩
    refine ⟨htable.trans hall, ?_, rfl, rfl, h.buffered, ?_, ?_⟩
    · rw [List.append_nil]
      exact h.cache
    · rw [List.append_nil]
      exact h.buffered
    · rw [List.append_nil]
      exact h.inOrder
  · right
    refine ⟨fault, e, _, _, hflush, rfl, ?_⟩
    rw [← hall, ← h.table]
    exact hs.table

end Basis

end DexIndex
