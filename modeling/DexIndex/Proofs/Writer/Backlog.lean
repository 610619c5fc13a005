import DexIndex.Proofs.Lists
import DexIndex.Proofs.Writer.Shared
import Mathlib.Data.List.Chain

/-!
# Blocks that are not yet durable

A new writer that is given blocks, all with success, makes everything durable with each block that
is due: one whose slot is a multiple of the interval or that is close to the time at which it is
written (`Writing.Due`). So it is at any time a list of blocks that is durable, and one of blocks
since then that is held back (`Writer.Backlog`). Of slots that follow one another every so many are
due by their number (`Lists.length_lt_of_isChain`), which bounds what is held back.
-/

namespace DexIndex

open BlockEvents

/-! ### Blocks that are due -/

/-- A block and the time at which it is written. -/
structure Writing where
  block : BlockEvents
  now : Timestamp

/-- Whether a block is to be durable at once: its slot is a multiple of the interval, where no
interval counts as one, or it lies less than the threshold before the time at which it is written.
-/
def Writing.Due (interval : UInt64) (thresholdMs : Int) (x : Writing) : Prop :=
  x.block.slot.toNat % max interval.toNat 1 = 0 ∨
    x.now.since x.block.timestamp < thresholdMs * 1000000

theorem FlushSchedule.interval_make (interval : UInt64) (thresholdMs : Int) :
    (make interval thresholdMs).interval.toNat = max interval.toNat 1 := by
  unfold make
  split
  · next h =>
    rw [UInt64.lt_iff_toNat_lt] at h
    exact (Nat.max_eq_left h).symm
  · next h =>
    have hzero : interval = 0 := by simpa using h
    rw [hzero]
    rfl

theorem FlushSchedule.thresholdMs_make (interval : UInt64) (thresholdMs : Int) :
    (make interval thresholdMs).thresholdMs = thresholdMs := by
  unfold make
  split <;> rfl

theorem Writing.due_iff (interval : UInt64) (thresholdMs : Int) (x : Writing) :
    x.Due interval thresholdMs ↔
      ((FlushSchedule.make interval thresholdMs).trigger? x.block.slot x.block.timestamp
        x.now).isSome := by
  rw [Due, ← FlushSchedule.interval_make interval thresholdMs, ← UInt64.toNat_mod,
    FlushSchedule.trigger?, FlushSchedule.thresholdMs_make]
  have hzero : ∀ n : UInt64, n.toNat = 0 ↔ n = 0 := fun n => UInt64.toNat_inj (b := 0)
  rw [hzero]
  split
  · next h => simp [h]
  · next h => split <;> simp [*]

namespace Writer
variable {w w' : Writer} {l l' l'' : Ledger} {interval : UInt64} {thresholdMs : Int}
  {policy : FlushPolicy} {checkpoint : Option Checkpoint} {calls flushed held : List Writing}

/-- The blocks that are written. -/
def blocksOf (calls : List Writing) : List BlockEvents := calls.map (·.block)

/-- A new writer after it has written blocks, all with success; what the accesses run into is up to
the world. -/
inductive Ingested (interval : UInt64) (thresholdMs : Int) (policy : FlushPolicy)
    (checkpoint : Option Checkpoint) (l : Ledger) : List Writing → Writer → Ledger → Prop
  | start : Ingested interval thresholdMs policy checkpoint l []
      (.resume (.make interval thresholdMs) policy checkpoint) l
  | world {calls : List Writing} {w : Writer} {l' : Ledger}
      (h : Ingested interval thresholdMs policy checkpoint l calls w l') {s : Store}
      (table : s.table = l'.store.table) :
      Ingested interval thresholdMs policy checkpoint l calls w { l' with store := s }
  | write {calls : List Writing} {w w' : Writer} {l' l'' : Ledger} {d : List Event}
      (h : Ingested interval thresholdMs policy checkpoint l calls w l') (x : Writing)
      (written : w.writeBlock l' x.block x.now = (.ok d, w', l'')) :
      Ingested interval thresholdMs policy checkpoint l (calls ++ [x]) w' l''

/-- A writer of which the blocks `flushed` are durable, up to the last that was due, and the blocks
`held` since then are held back. -/
structure Backlog (interval : UInt64) (thresholdMs : Int) (checkpoint : Option Checkpoint)
    (l : Ledger) (flushed held : List Writing) (w : Writer) (l' : Ledger) : Prop where
  schedule : w.schedule = .make interval thresholdMs
  covered : w.Covered l'
  names : l'.Names (l.owners ++ named (blocksOf (flushed ++ held)))
  buffered : w.buffered = (lastCheckpoint? (blocksOf (flushed ++ held))).or checkpoint
  due : ∀ x, flushed.getLast? = some x → x.Due interval thresholdMs
  notDue : ∀ x ∈ held, ¬ x.Due interval thresholdMs
  durable : w.durable = (lastCheckpoint? (blocksOf flushed)).or checkpoint
  pending : w.pending = heldRows (l.owners ++ named (blocksOf flushed)) (blocksOf held)
  table : l'.store.table = l.store.table.insertAll (heldRows l.owners (blocksOf flushed))

namespace Backlog

theorem start (interval : UInt64) (thresholdMs : Int) (policy : FlushPolicy)
    (checkpoint : Option Checkpoint) (l : Ledger) :
    Backlog interval thresholdMs checkpoint l [] []
      (.resume (.make interval thresholdMs) policy checkpoint) l where
  schedule := rfl
  covered := fun a ha => absurd ha List.not_mem_nil
  names := by simpa [named, blocksOf] using l.names_owners
  buffered := rfl
  due := fun x hx => by cases hx
  notDue := fun x hx => absurd hx List.not_mem_nil
  durable := rfl
  pending := rfl
  table := rfl

theorem world (h : Backlog interval thresholdMs checkpoint l flushed held w l') {s : Store}
    (hs : s.table = l'.store.table) :
    Backlog interval thresholdMs checkpoint l flushed held w { l' with store := s } :=
  { h with names := h.names.withStore hs, table := hs.trans h.table }

theorem blocksOf_append (a b : List Writing) : blocksOf (a ++ b) = blocksOf a ++ blocksOf b :=
  List.map_append

theorem pending_append (h : Backlog interval thresholdMs checkpoint l flushed held w l')
    (x : Writing) :
    w.pending ++ heldRows (l.owners ++ named (blocksOf (flushed ++ held))) [x.block] =
      heldRows (l.owners ++ named (blocksOf flushed)) (blocksOf (held ++ [x])) := by
  rw [h.pending, blocksOf_append held, heldRows_append, List.append_assoc, ← named_append,
    ← blocksOf_append]
  rfl

variable {x : Writing} {m m' : Metrics}

theorem names_append
    (h : l'.Names (l.owners ++ named (blocksOf (flushed ++ held)) ++ x.block.ownerships)) :
    l'.Names (l.owners ++ named (blocksOf (flushed ++ held ++ [x]))) := by
  rw [blocksOf_append (flushed ++ held), named_append, ← List.append_assoc]
  simpa [blocksOf] using h

theorem lastCheckpoint?_append (bs : List Writing) (x : Writing) :
    (lastCheckpoint? (blocksOf (bs ++ [x]))).or checkpoint = some (blockCheckpoint x.block) := by
  rw [blocksOf_append, lastCheckpoint?, List.getLast?_append]
  rfl

theorem hold (h : Backlog interval thresholdMs checkpoint l flushed held w l')
    (hdue : ¬ x.Due interval thresholdMs)
    (hw : w' = w.holdingBlock (l.owners ++ named (blocksOf (flushed ++ held))) x.block m)
    (hcovered : w'.Covered l'')
    (hnames : l''.Names (l.owners ++ named (blocksOf (flushed ++ held)) ++ x.block.ownerships))
    (htable : l''.store.table = l'.store.table) :
    Backlog interval thresholdMs checkpoint l flushed (held ++ [x]) w' l'' where
  schedule := hw ▸ h.schedule
  covered := hcovered
  names := by
    rw [← List.append_assoc]
    exact names_append hnames
  buffered := by
    rw [← List.append_assoc, lastCheckpoint?_append, hw]
    rfl
  due := h.due
  notDue := List.forall_mem_append.mpr ⟨h.notDue, List.forall_mem_singleton.mpr hdue⟩
  durable := hw ▸ h.durable
  pending := by
    rw [hw, ← h.pending_append]
    rfl
  table := htable.trans h.table

theorem land (h : Backlog interval thresholdMs checkpoint l flushed held w l')
    (hdue : x.Due interval thresholdMs)
    (hw : w' =
      (w.holdingBlock (l.owners ++ named (blocksOf (flushed ++ held))) x.block m).settled m')
    (hcovered : w'.Covered l'')
    (hnames : l''.Names (l.owners ++ named (blocksOf (flushed ++ held)) ++ x.block.ownerships))
    (htable : l''.store.table = l'.store.table.insertAll
      (w.pending ++ heldRows (l.owners ++ named (blocksOf (flushed ++ held))) [x.block])) :
    Backlog interval thresholdMs checkpoint l (flushed ++ held ++ [x]) [] w' l'' where
  schedule := hw ▸ h.schedule
  covered := hcovered
  names := by
    rw [List.append_nil]
    exact names_append hnames
  buffered := by
    rw [List.append_nil, lastCheckpoint?_append, hw]
    rfl
  due := by
    intro y hy
    rw [List.getLast?_append, List.getLast?_singleton, Option.some_or] at hy
    exact Option.some.inj hy ▸ hdue
  notDue := fun x hx => absurd hx List.not_mem_nil
  durable := by
    rw [lastCheckpoint?_append, hw]
    rfl
  pending := hw ▸ rfl
  table := by
    rw [htable, h.table, h.pending_append, ← Table.insertAll_append, ← heldRows_append,
      ← blocksOf_append, List.append_assoc]

theorem write (h : Backlog interval thresholdMs checkpoint l flushed held w l') {d : List Event}
    (hwrite : w.writeBlock l' x.block x.now = (.ok d, w', l'')) :
    ∃ flushed' held', flushed ++ held ++ [x] = flushed' ++ held' ∧
      Backlog interval thresholdMs checkpoint l flushed' held' w' l'' := by
  obtain ⟨hcovered, hnames, m, ⟨hdue, ⟨m', hw⟩, htable⟩ | ⟨hdue, hw, htable⟩⟩ :=
    writeBlock_ok h.covered h.names hwrite
  · rw [h.schedule, ← x.due_iff] at hdue
    exact ⟨_, _, (List.append_nil _).symm, h.land hdue hw hcovered hnames htable⟩
  · rw [h.schedule, ← x.due_iff] at hdue
    exact ⟨_, _, List.append_assoc _ _ _, h.hold hdue hw hcovered hnames htable⟩

end Backlog

theorem Ingested.backlog (h : Ingested interval thresholdMs policy checkpoint l calls w l') :
    ∃ flushed held, calls = flushed ++ held ∧
      Backlog interval thresholdMs checkpoint l flushed held w l' := by
  induction h with
  | start => exact ⟨[], [], rfl, .start interval thresholdMs policy checkpoint l⟩
  | world _ table ih =>
    obtain ⟨flushed, held, hcalls, hbacklog⟩ := ih
    exact ⟨flushed, held, hcalls, hbacklog.world table⟩
  | write _ x written ih =>
    obtain ⟨flushed, held, rfl, hbacklog⟩ := ih
    exact hbacklog.write written

/-- After any blocks, the checkpoint that is durable is that of the last block that was due, what is
held back are just the rows of the blocks since then, and if the slots follow one another, these are
less than the interval. -/
theorem backlog_bounded (h : Ingested interval thresholdMs policy checkpoint l calls w l') :
    ∃ flushed held, calls = flushed ++ held ∧
      (∀ x, flushed.getLast? = some x → x.Due interval thresholdMs) ∧
      (∀ x ∈ held, ¬ x.Due interval thresholdMs) ∧
      w.durable =
        (flushed.getLast?.map fun x => ⟨x.block.slot, x.block.slotHash⟩).or checkpoint ∧
      w.pending = heldRows (l.owners ++ named (blocksOf flushed)) (blocksOf held) ∧
      l'.store.table = l.store.table.insertAll (heldRows l.owners (blocksOf flushed)) ∧
      ((calls.IsChain fun x y => y.block.slot.toNat = x.block.slot.toNat + 1) →
        held.length ≤ max interval.toNat 1 - 1) := by
  obtain ⟨flushed, held, rfl, hbacklog⟩ := h.backlog
  refine ⟨flushed, held, rfl, hbacklog.due, hbacklog.notDue, ?_, hbacklog.pending, hbacklog.table,
    fun hchain => ?_⟩
  · rw [hbacklog.durable, lastCheckpoint?, blocksOf, List.getLast?_map, Option.map_map]
    rfl
  · have hslots : (held.map fun x => x.block.slot.toNat).IsChain fun a b => b = a + 1 :=
      (List.isChain_map _).mpr hchain.right_of_append
    have hlt := Lists.length_lt_of_isChain (Nat.le_max_right interval.toNat 1) hslots
      (List.forall_mem_map.mpr fun x hx hmod => hbacklog.notDue x hx (.inl hmod))
    rw [List.length_map] at hlt
    omega

end Writer

namespace ThreeBlocks

def key (n : UInt8) : PublicKey := ⟨List.replicate 31 n ++ [0], rfl⟩

def filled (slot : UInt64) : Event :=
  ⟨⟨⟨key 0, 6⟩, ⟨slot, 0, 0⟩, "", .epoch⟩, .fill (key 1) ⟨.bid, false, 7, 1, 0, 0, 0, 0, ""⟩⟩

/-- A block with a fill of the account 1. -/
def writing (slot : UInt64) (ownerships : List Ownership) : Writing :=
  ⟨⟨slot, "", .epoch, [filled slot], ownerships, 0⟩, .epoch⟩

/-- Only the first block names the owner of the account. -/
def calls : List Writing := [writing 5 [⟨key 1, key 2⟩], writing 6 [], writing 7 []]

def ledger : Ledger := .ofStore (.ofTable .empty)

def first :=
  (Writer.resume (.make 2 0) .default none).writeBlock ledger (writing 5 [⟨key 1, key 2⟩]).block .epoch

def second := first.2.1.writeBlock first.2.2 (writing 6 []).block .epoch

def third := second.2.1.writeBlock second.2.2 (writing 7 []).block .epoch

end ThreeBlocks

open ThreeBlocks in
/-- The second block is due, and the third one is held back. -/
theorem Writer.backlog_bounded_of_three_blocks :
    Ingested 2 0 .default none ledger calls third.2.1 third.2.2 ∧
    third.2.1.durable = some ⟨6, ""⟩ ∧
    third.2.1.pending =
      (filled 7).rowsWith (fun _ => some (key 2)) ++
        [(Checkpoint.key, Checkpoint.encode ⟨7, ""⟩)] ∧
    ∃ flushed held, calls = flushed ++ held ∧
      third.2.1.pending = heldRows (ledger.owners ++ named (blocksOf flushed)) (blocksOf held) ∧
      held.length ≤ 1 := by
  have hfirst : Ingested 2 0 .default none ledger [writing 5 [⟨key 1, key 2⟩]] first.2.1 first.2.2 :=
    Ingested.start.write (d := []) _ (Prod.ext (by decide +kernel) rfl)
  have hsecond : Ingested 2 0 .default none ledger [writing 5 [⟨key 1, key 2⟩], writing 6 []]
      second.2.1 second.2.2 :=
    hfirst.write (d := [filled 5, filled 6]) (writing 6 []) (Prod.ext (by decide +kernel) rfl)
  have hthird : Ingested 2 0 .default none ledger calls third.2.1 third.2.2 :=
    hsecond.write (d := []) (writing 7 []) (Prod.ext (by decide +kernel) rfl)
  obtain ⟨flushed, held, hcalls, _, _, _, hpending, _, hbound⟩ := backlog_bounded hthird
  refine ⟨hthird, by decide +kernel, by decide +kernel, flushed, held, hcalls, hpending,
    hbound ?_⟩
  decide +kernel

end DexIndex
