import DexIndex.Proofs.Writer.Attempts
import DexIndex.Proofs.Writer.Written

/-!
# Writers that share a store

Several writers may share a table and a cache of owners. Whatever calls they get, the owners in rows
that one of them holds back are in the cache (`Writer.Covered`), so that a flush changes neither
what look-ups give nor what the table will be once all that is held back is durable
(`Writer.ahead`). A block that is submitted adds its rows to that table, all of them or, after a
look-up that failed, some (`Writer.Submitted`).
-/

namespace DexIndex

open BlockEvents

theorem OwnerCache.extends_recordRows (c : OwnerCache) (rows : List Row) :
    c.Extends (c.recordRows rows).2 := by
  induction rows generalizing c with
  | nil => exact .refl c
  | cons r rows ih =>
    obtain ⟨key, value⟩ := r
    rw [recordRows]
    split
    · exact (c.extends_record _ _).trans (ih _)
    · exact .refl c
    · exact .refl c

theorem Ledger.extends_loadOwners (l : Ledger) : l.cache.Extends l.loadOwners.2.cache := by
  unfold loadOwners scan Store.scan
  obtain ⟨s, _, hscan | ⟨_, e, hscan⟩⟩ := l.store.read_cases (·.scan Ownership.keyPrefix none)
  · have hextends := l.cache.extends_recordRows (l.store.table.scan Ownership.keyPrefix none)
    simp only [hscan]
    generalize l.cache.recordRows _ = r at hextends
    obtain ⟨_ | _, c⟩ := r
    · exact hextends
    · exact hextends
  · simp only [hscan]
    exact .refl _

namespace Writer
variable {w w' : Writer} {l l' : Ledger} {os : List Ownership} {x : BlockEvents}

/-- The table once all that is held back is durable. -/
def ahead (w : Writer) (l : Ledger) : Table := l.store.table.insertAll w.pending

/-- The owners in rows that are held back are in the cache. -/
def Covered (w : Writer) (l : Ledger) : Prop :=
  ∀ a, Ownership.encodeKey a ∈ w.pending.map (·.1) → (l.cache.find? a).isSome

namespace Covered

theorem mono (h : w.Covered l) (hl : l.cache.Extends l'.cache) : w.Covered l' := by
  intro a ha
  obtain ⟨trader, htrader⟩ := Option.isSome_iff_exists.mp (h a ha)
  rw [hl a trader htrader]
  rfl

theorem of_append (h : w.Covered l) {rows : List Row} (hp : w'.pending = w.pending ++ rows)
    (hrows : ∀ a, Ownership.encodeKey a ∈ rows.map (·.1) → (l.cache.find? a).isSome) :
    w'.Covered l := by
  intro a ha
  rw [hp, List.map_append] at ha
  exact (List.mem_append.mp ha).elim (h a) (hrows a)

/-- The rows that a pass holds back are those of owners that it has claimed, and of events. -/
theorem holdingPart (h : w.Covered l) {claims : Nat} (hl : l.cache.Extends l'.cache)
    (hcached : ∀ o ∈ x.ownerships.take claims, (l'.cache.find? o.account).isSome) (events : Nat)
    (m : Metrics) : (w.holdingPart os x claims events m).Covered l' := by
  refine (h.mono hl).of_append (List.append_assoc _ _ _) fun a ha => ?_
  rw [List.map_append] at ha
  rcases List.mem_append.mp ha with ha | ha
  · obtain ⟨r, hr, hkey⟩ := List.mem_map.mp ha
    obtain ⟨o, ho, rfl⟩ := Ownership.exists_mem_of_mem_newRows hr
    rw [← Ownership.encodeKey_injective hkey]
    exact hcached o ho
  · exact absurd ha (owner_not_mem_eventRows _ a _)

theorem holdCheckpoint (h : w.Covered l) (x : BlockEvents) : (w.holdCheckpoint x).Covered l := by
  have hp : (w.holdCheckpoint x).pending = w.pending ++ [checkpointRow (blockCheckpoint x)] := rfl
  refine h.of_append hp fun a ha => ?_
  exact absurd (List.mem_singleton.mp ha) (Ownership.encodeKey_ne_checkpoint a)

end Covered

/-! ### Flushes -/

/-- What a flush leaves, whether it succeeds or not. -/
structure Flushed (w : Writer) (l : Ledger) (r : Except WriterError (List Event)) (w' : Writer)
    (l' : Ledger) : Prop where
  cache : l'.cache = l.cache
  ahead : w'.ahead l' = w.ahead l
  buffered : w'.buffered = w.buffered
  covered : w'.Covered l'
  names : ∀ os, l.Names os → l'.Names os
  given : given (r, w', l') ++ w'.unpublished = w.unpublished
  ended : (∃ d, r = .ok d ∧ w'.pending = []) ∨
    ∃ attempts reason, r = .error (.flushFailed attempts reason)

theorem flush_flushed (h : w.Covered l) (now : Timestamp) :
    Flushed w l (w.flush l now).1 (w.flush l now).2.1 (w.flush l now).2.2 := by
  by_cases hp : w.pending = []
  · rw [flush_of_pending_nil hp]
    exact ⟨rfl, rfl, rfl, h, fun _ => id, rfl, .inl ⟨[], rfl, hp⟩⟩
  · obtain ⟨s, hs, ⟨m, hflush, htable⟩ | ⟨_, e, m, hflush⟩⟩ := flush_cases hp l now
    · rw [hflush]
      exact ⟨rfl, htable, rfl, nofun, fun os hos => hos.insertAll h htable, List.append_nil _,
        .inl ⟨_, rfl, rfl⟩⟩
    · obtain ⟨attempts, reason, rfl⟩ := flushFailed_of_flush hflush
      rw [hflush]
      -- a batch that was written although the attempt failed is still held back
      refine ⟨rfl, ?_, rfl, h, fun os hos => ?_, rfl, .inr ⟨attempts, reason, rfl⟩⟩
      · rcases hs.table with ht | ht
        · exact congrArg (·.insertAll w.pending) ht
        · exact (congrArg (·.insertAll w.pending) ht).trans (Table.insertAll_self _ _)
      · rcases hs.table with ht | ht
        · exact hos.withStore ht
        · exact hos.insertAll h ht

/-! ### Blocks -/

/-- The rows of a block that come after those of its owners; `os` was named before. -/
def lastRows (os : List Ownership) (x : BlockEvents) : List Row :=
  x.events.flatMap (Event.rowsWith (Ownership.first? (os ++ x.ownerships))) ++
    [checkpointRow (blockCheckpoint x)]

theorem heldRows_eq_lastRows (os : List Ownership) (x : BlockEvents) :
    heldRows os [x] = Ownership.newRows os x.ownerships ++ lastRows os x := by
  rw [heldRows_singleton, indexRows, List.append_assoc, lastRows]

/-- A pass that ends well leaves but the checkpoint to be held back. -/
theorem pass_ok (hc : w.Covered l) (h : l.Names os) (hpass : w.pass l x = (.ok (), w', l')) :
    ∃ m, w'.holdCheckpoint x = w.holdingBlock os x m ∧ l.Consults l' ∧
      l'.Names (os ++ x.ownerships) ∧ (w'.holdCheckpoint x).Covered l' := by
  obtain ⟨r, claims, events, m, l₁, hpass', hpassed⟩ := pass_cases h w x
  cases hpass.symm.trans hpass'
  obtain ⟨hclaims, hevents⟩ := hpassed.whole rfl
  have hcovered : (w.holdingPart os x claims events m).Covered l' :=
    hc.holdingPart hpassed.consults.cache hpassed.cached events m
  refine ⟨m.recordBlock x.skipped, ?_, hpassed.consults, hclaims ▸ hpassed.names,
    hcovered.holdCheckpoint x⟩
  simp [holdingPart, hclaims, hevents, holdCheckpoint, keep, hold, holdingBlock, heldRows_singleton,
    indexRows]

/-- How writing a block ends well, where `os` was named before. -/
theorem writeBlock_ok {d : List Event} {now : Timestamp} (hc : w.Covered l) (h : l.Names os)
    (hwrite : w.writeBlock l x now = (.ok d, w', l')) :
    w'.Covered l' ∧ l'.Names (os ++ x.ownerships) ∧ ∃ m,
      (((w.schedule.trigger? x.slot x.timestamp now).isSome ∧
          (∃ m', w' = (w.holdingBlock os x m).settled m') ∧
          l'.store.table = l.store.table.insertAll (w.pending ++ heldRows os [x])) ∨
        (¬ (w.schedule.trigger? x.slot x.timestamp now).isSome ∧ w' = w.holdingBlock os x m ∧
          l'.store.table = l.store.table)) := by
  rw [writeBlock_accepted (buffered_le_of_writeBlock hwrite)] at hwrite
  rcases hpass : w.pass l x with ⟨e | _, w₁, l₁⟩
  · rw [hpass] at hwrite
    cases hwrite
  · obtain ⟨m, hheld, hconsults, hnames, hcovered⟩ := pass_ok hc h hpass
    have hschedule : (w₁.holdCheckpoint x).schedule = w.schedule := by
      rw [hheld]
      rfl
    change w₁.schedule = w.schedule at hschedule
    rw [hheld] at hcovered
    rw [hpass] at hwrite
    dsimp only at hwrite
    rw [hheld, hschedule] at hwrite
    split at hwrite
    · next htrigger =>
      have hflushed := flush_flushed hcovered now
      have hp : (w.holdingBlock os x m).pending ≠ [] := by simp [holdingBlock, heldRows]
      obtain ⟨s, _, ⟨m', hflush, htable⟩ | ⟨_, e, m', hflush⟩⟩ := flush_cases hp l₁ now
      · rw [hflush] at hwrite hflushed
        cases hwrite
        refine ⟨hflushed.covered, hflushed.names _ hnames, m, .inl ⟨htrigger, ⟨m', rfl⟩, ?_⟩⟩
        rw [← hconsults.table]
        exact htable
      · rw [hflush] at hwrite
        cases hwrite
    · next htrigger =>
      cases hwrite
      exact ⟨hcovered, hnames, m, .inr ⟨htrigger, rfl, hconsults.table⟩⟩

/-- Whether a block is held back whole, though its flush may have failed. -/
def isWhole : Except WriterError (List Event) → Bool
  | .ok _ | .error (.flushFailed _ _) => true
  | .error _ => false

/-- How a call ends that submits a block which is not too old, where `os` was named before. -/
inductive Submitted (w : Writer) (l : Ledger) (os : List Ownership) (x : BlockEvents) :
    Except WriterError (List Event) → Writer → Ledger → Prop
  | part {e : StoreError} {w' : Writer} {l' : Ledger} {claims events : Nat}
      (cache : l.cache.Extends l'.cache) (covered : w'.Covered l')
      (names : l'.Names (os ++ x.ownerships.take claims)) (buffered : w'.buffered = w.buffered)
      (ahead : w'.ahead l' = (w.ahead l).insertAll
        (Ownership.newRows os (x.ownerships.take claims) ++
          (x.events.take events).flatMap
            (Event.rowsWith (Ownership.first? (os ++ x.ownerships))))) :
      Submitted w l os x (.error (.store e)) w' l'
  | whole {r : Except WriterError (List Event)} {w' : Writer} {l' : Ledger} (whole : isWhole r)
      (cache : l.cache.Extends l'.cache) (covered : w'.Covered l')
      (names : l'.Names (os ++ x.ownerships)) (buffered : w'.buffered = some (blockCheckpoint x))
      (ahead : w'.ahead l' = (w.ahead l).insertAll (heldRows os [x]))
      (given : given (r, w', l') ++ w'.unpublished = w.unpublished ++
        x.events.filter (Event.isKept (Ownership.first? (os ++ x.ownerships)))) :
      Submitted w l os x r w' l'

theorem writeBlock_submitted (hc : w.Covered l) (h : l.Names os)
    (hb : ∀ c, w.buffered = some c → c.slot ≤ x.slot) (now : Timestamp) :
    Submitted w l os x (w.writeBlock l x now).1 (w.writeBlock l x now).2.1
      (w.writeBlock l x now).2.2 := by
  rw [writeBlock_accepted hb]
  rcases hpass : w.pass l x with ⟨e | _, w₁, l₁⟩
  · obtain ⟨r, claims, events, m, l₁, hpass', hpassed⟩ := pass_cases h w x
    cases hpass.symm.trans hpass'
    have hahead : (w.holdingPart os x claims events m).ahead l₁ = (w.ahead l).insertAll
        (Ownership.newRows os (x.ownerships.take claims) ++
          (x.events.take events).flatMap
            (Event.rowsWith (Ownership.first? (os ++ x.ownerships)))) := by
      rw [ahead, hpassed.consults.table, ahead, ← Table.insertAll_append, ← List.append_assoc]
      rfl
    have hcovered : (w.holdingPart os x claims events m).Covered l₁ :=
      hc.holdingPart hpassed.consults.cache hpassed.cached events m
    exact .part hpassed.consults.cache hcovered hpassed.names rfl hahead
  · obtain ⟨m, hheld, hconsults, hnames, hcovered⟩ := pass_ok hc h hpass
    have hahead : (w₁.holdCheckpoint x).ahead l₁ = (w.ahead l).insertAll (heldRows os [x]) := by
      rw [hheld, ahead, hconsults.table, ahead, ← Table.insertAll_append]
      rfl
    have hunpublished : (w₁.holdCheckpoint x).unpublished = w.unpublished ++
        x.events.filter (Event.isKept (Ownership.first? (os ++ x.ownerships))) := by
      rw [hheld]
      rfl
    dsimp only
    split
    · have hflush := flush_flushed hcovered now
      refine .whole ?_ (hflush.cache ▸ hconsults.cache) hflush.covered (hflush.names _ hnames)
        hflush.buffered (hflush.ahead.trans hahead) (hflush.given.trans hunpublished)
      rcases hflush.ended with ⟨d, hr, _⟩ | ⟨_, _, hr⟩ <;> rw [hr] <;> rfl
    · exact .whole rfl hconsults.cache hcovered hnames rfl hahead hunpublished

theorem Covered.writeBlock (h : w.Covered l) (x : BlockEvents) (now : Timestamp) :
    (w.writeBlock l x now).2.1.Covered (w.writeBlock l x now).2.2 ∧
      l.cache.Extends (w.writeBlock l x now).2.2.cache := by
  rcases w.slot_lt_or_le x with ⟨c, hc, hlt⟩ | hb
  · rw [writeBlock_rejected hc hlt]
    exact ⟨h, .refl _⟩
  · have hsubmitted := writeBlock_submitted h l.names_owners hb now
    generalize w.writeBlock l x now = r at hsubmitted
    obtain ⟨r, w', l'⟩ := r
    cases hsubmitted with
    | part cache covered => exact ⟨covered, cache⟩
    | whole _ cache covered => exact ⟨covered, cache⟩

theorem Covered.run (h : w.Covered l) (c : Call) :
    (c.run w l).2.1.Covered (c.run w l).2.2 ∧ l.cache.Extends (c.run w l).2.2.cache := by
  cases c with
  | write x now => exact h.writeBlock x now
  | flush now =>
    have hflush := flush_flushed h now
    exact ⟨hflush.covered, fun a trader ha => hflush.cache ▸ ha⟩

/-- Writers over one store and one cache, after any calls. -/
inductive Sharing : List Writer → Ledger → Prop
  | start (s : Store) : Sharing [] (.ofStore s)
  | join {ws : List Writer} {l : Ledger} (h : Sharing ws l) (schedule : FlushSchedule)
      (policy : FlushPolicy) (checkpoint : Option Checkpoint) :
      Sharing (.resume schedule policy checkpoint :: ws) l
  /-- What the next accesses run into is up to the world. -/
  | world {ws : List Writer} {l : Ledger} (h : Sharing ws l) {s : Store}
      (table : s.table = l.store.table) : Sharing ws { l with store := s }
  | load {ws : List Writer} {l : Ledger} (h : Sharing ws l) : Sharing ws l.loadOwners.2
  /-- Others may ask for owners. -/
  | look {ws : List Writer} {l : Ledger} (h : Sharing ws l) (account : PublicKey) :
      Sharing ws (l.trader? account).2
  | call {before after : List Writer} {w : Writer} {l : Ledger}
      (h : Sharing (before ++ w :: after) l) (c : Call) :
      Sharing (before ++ (c.run w l).2.1 :: after) (c.run w l).2.2

theorem Sharing.covered {ws : List Writer} (h : Sharing ws l) : ∀ w ∈ ws, w.Covered l := by
  induction h with
  | start => exact fun w hw => absurd hw List.not_mem_nil
  | join _ schedule policy checkpoint ih =>
    exact List.forall_mem_cons.mpr ⟨fun a ha => absurd ha List.not_mem_nil, ih⟩
  | world _ _ ih => exact ih
  | @load ws l _ ih => exact fun w hw => (ih w hw).mono l.extends_loadOwners
  | @look ws l _ account ih =>
    exact fun w hw => (ih w hw).mono (l.extends_trader? account).2.1
  | @call before after w l _ c ih =>
    have hw := (ih w (List.mem_append_right _ List.mem_cons_self)).run c
    intro w' hw'
    rcases List.mem_append.mp hw' with hbefore | hafter
    · exact (ih w' (List.mem_append_left _ hbefore)).mono hw.2
    · rcases List.mem_cons.mp hafter with rfl | hafter
      · exact hw.1
      · exact (ih w' (List.mem_append_right _ (List.mem_cons_of_mem w hafter))).mono hw.2

end Writer

end DexIndex
