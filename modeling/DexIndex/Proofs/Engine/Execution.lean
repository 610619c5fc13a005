import DexIndex.Proofs.Engine.Tracking

/-!
# Executions with crashes

An execution starts over an empty table: engines are started on what the last one left, get calls
whose accesses run into arbitrary faults, and end at any moment, also between the attempts of a flush
(`Execution.step`). At every moment the table holds the rows of blocks that were accepted one after
another, up to the checkpoint in it (`Execution.Sound`), and no step takes blocks away
(`Execution.Sound.step`).
-/

namespace DexIndex

open BlockEvents

/-- What the accesses of one call run into; the later ones succeed. -/
structure Faults where
  reads : List (Option StoreError)
  writes : List WriteOutcome

/-- A store over a table whose accesses run into faults. -/
def Faults.store (f : Faults) (t : Table) : Store := ⟨t, f.reads, f.writes, 0, 0⟩

namespace Engine

/-- The engine whose next accesses run into faults. -/
def withFaults (e : Engine) (f : Faults) : Engine :=
  { e with ledger.store.reads := f.reads, ledger.store.writes := f.writes }

/-- The engine that is left alone after so many retries of a flush. -/
def withRetries (e : Engine) (retries : UInt32) : Engine :=
  { e with writer.policy.maxRetries := min retries e.writer.policy.maxRetries }

def table (e : Engine) : Table := e.ledger.store.table

/-- A call of an engine. -/
inductive Call
  | process (block : Block) (now : Timestamp)
  | shutdown (now : Timestamp)

namespace Call

def run (e : Engine) : Call → Except EngineError Unit × Engine
  | process block now => e.processBlock block now
  | shutdown now => e.shutdown now

/-- The blocks that a call adds to an engine. -/
def accepted (e : Engine) : Call → List BlockEvents
  | process block _ => (e.accepted? block).toList
  | shutdown _ => []

end Call

end Engine

open Engine (Call)

/-- The checkpoint in a table. -/
def Table.checkpoint? (t : Table) : Option Checkpoint := do
  (Checkpoint.decode (← t.get? Checkpoint.key)).toOption

/-- The blocks that a checkpoint stands for. -/
def BlockEvents.upTo (c : Option Checkpoint) (bs : List BlockEvents) : List BlockEvents :=
  bs.filter fun b => c.any (b.slot ≤ ·.slot)

/-- What there is of the engine. -/
inductive Standing
  | down (table : Table)
  | up (engine : Engine)
  /-- A call has ended in an error; the engine gets no more calls. -/
  | failed (engine : Engine)

namespace Standing

def engine? : Standing → Option Engine
  | down _ => none
  | up e | failed e => some e

/-- Whether calls can be made. -/
def isUp : Standing → Bool
  | up _ => true
  | down _ | failed _ => false

def table : Standing → Table
  | down t => t
  | up e | failed e => e.table

theorem exists_of_isUp {s : Standing} (h : s.isUp) : ∃ e, s = up e := by
  cases s with
  | up e => exact ⟨e, rfl⟩
  | down => cases h
  | failed => cases h

end Standing

inductive Action
  | start (config : Config) (faults : Faults)
  | call (c : Call) (faults : Faults)
  /-- The engine is lost between two calls. -/
  | kill
  /-- The engine is lost during a call, before a flush of it has made more than so many retries. -/
  | killDuring (c : Call) (faults : Faults) (retries : UInt32)

/-- An execution so far. Blocks that were accepted and are not in the table when the engine is lost
count as accepted no more. -/
structure Execution where
  standing : Standing
  accepted : List BlockEvents

namespace Execution

def init : Execution := ⟨.down .empty, []⟩

def table (x : Execution) : Table := x.standing.table

/-- What is left once the engine will get no more calls. -/
def lose (accepted : List BlockEvents) (s : Standing) : Execution :=
  ⟨s, upTo s.table.checkpoint? accepted⟩

/-- Starts an engine on a table. -/
def start (t : Table) (accepted : List BlockEvents) (config : Config) (f : Faults) : Execution :=
  match Engine.start config (f.store t) with
  | .ok e => ⟨.up e, accepted⟩
  | .error (_, s) => ⟨.down s.table, accepted⟩

/-- Goes on with what a call has left. -/
def finish (accepted : List BlockEvents) : Except EngineError Unit × Engine → Execution
  | (.ok (), e) => ⟨.up e, accepted⟩
  | (.error _, e) => lose accepted (.failed e)

def step (x : Execution) (a : Action) : Execution :=
  match x.standing, a with
  | .down t, .start config f => start t x.accepted config f
  | .failed e, .start config f => start e.table x.accepted config f
  | .up e, .call c f => finish (x.accepted ++ c.accepted e) (c.run (e.withFaults f))
  | .up e, .killDuring c f retries =>
    let e' := (c.run ((e.withFaults f).withRetries retries)).2
    lose (x.accepted ++ c.accepted e) (.down e'.table)
  | s, .kill => lose x.accepted (.down s.table)
  | _, _ => x

def run (script : List Action) : Execution := script.foldl step init

end Execution

/-! ### What a checkpoint stands for -/

namespace BlockEvents

theorem checkpoint?_tableOf (bs : List BlockEvents) :
    (tableOf bs).checkpoint? = lastCheckpoint? bs := by
  unfold Table.checkpoint?
  rw [get?_tableOf_checkpoint]
  cases lastCheckpoint? bs with
  | none => rfl
  | some c => simp [Except.toOption]

theorem slot_le_last {bs : List BlockEvents} (h : bs.Pairwise (·.slot < ·.slot)) {b : BlockEvents}
    (hb : b ∈ bs) : ∃ c, lastCheckpoint? bs = some c ∧ b.slot ≤ c.slot := by
  induction bs using List.reverseRecOn with
  | nil => simp at hb
  | append_singleton bs l _ =>
    refine ⟨_, lastCheckpoint?_append_singleton bs l, ?_⟩
    rcases List.mem_append.mp hb with hb | hb
    · exact UInt64.le_of_lt ((List.pairwise_append.mp h).2.2 b hb l (by simp))
    · rw [List.mem_singleton.mp hb]
      exact UInt64.le_refl _

theorem mem_of_lastCheckpoint? {bs : List BlockEvents} {c : Checkpoint}
    (h : lastCheckpoint? bs = some c) : ∃ b ∈ bs, Writer.blockCheckpoint b = c := by
  obtain ⟨b, hb, rfl⟩ := Option.map_eq_some_iff.mp h
  exact ⟨b, List.mem_of_getLast? hb, rfl⟩

/-- The last checkpoint of blocks in order stands for exactly them. -/
theorem upTo_last {bs rest : List BlockEvents} (h : (bs ++ rest).Pairwise (·.slot < ·.slot)) :
    upTo (lastCheckpoint? bs) (bs ++ rest) = bs := by
  obtain ⟨hbs, _, hlt⟩ := List.pairwise_append.mp h
  unfold upTo
  rw [List.filter_append, List.filter_eq_self.mpr, List.filter_eq_nil_iff.mpr, List.append_nil]
  · intro b hb hle
    cases hc : lastCheckpoint? bs with
    | none => simp [hc] at hle
    | some c =>
      obtain ⟨l, hl, rfl⟩ := mem_of_lastCheckpoint? hc
      have hlb : l.slot < b.slot := hlt l hl b hb
      exact absurd hlb (UInt64.not_lt.mpr (by simpa [hc, Writer.blockCheckpoint] using hle))
  · intro b hb
    obtain ⟨c, hc, hle⟩ := slot_le_last hbs hb
    simpa [hc] using hle

theorem upTo_last_self {bs : List BlockEvents} (h : bs.Pairwise (·.slot < ·.slot)) :
    upTo (lastCheckpoint? bs) bs = bs := by
  have h' := upTo_last (List.append_nil bs ▸ h)
  rwa [List.append_nil] at h'

theorem prefix_upTo {bs : List BlockEvents} (h : bs.Pairwise (·.slot < ·.slot))
    (c : Option Checkpoint) : upTo c bs <+: bs := by
  cases c with
  | none => simp [upTo]
  | some c =>
    induction bs with
    | nil => simp [upTo]
    | cons b bs ih =>
      obtain ⟨hb, hbs⟩ := List.pairwise_cons.mp h
      unfold upTo at ih ⊢
      by_cases hle : b.slot ≤ c.slot
      · rw [List.filter_cons_of_pos (by simpa using hle)]
        exact List.cons_prefix_cons.mpr ⟨rfl, ih hbs⟩
      · rw [List.filter_cons_of_neg (by simpa using hle), List.filter_eq_nil_iff.mpr]
        · exact List.nil_prefix
        · intro x hx hxc
          exact hle (UInt64.le_trans (UInt64.le_of_lt (hb x hx)) (by simpa using hxc))

theorem last_le_last {bs cs : List BlockEvents} (h : cs.Pairwise (·.slot < ·.slot)) (hp : bs <+: cs)
    {c : Checkpoint} (hc : lastCheckpoint? bs = some c) :
    ∃ c', lastCheckpoint? cs = some c' ∧ c.slot ≤ c'.slot := by
  obtain ⟨b, hb, rfl⟩ := mem_of_lastCheckpoint? hc
  exact slot_le_last h (hp.subset hb)

end BlockEvents

namespace Execution

/-- An execution in which the table holds the rows of the blocks `stored`. -/
inductive Sound : Execution → List BlockEvents → Prop
  | down {bs : List BlockEvents} (ordered : bs.Pairwise (·.slot < ·.slot)) :
      Sound ⟨.down (tableOf bs), bs⟩ bs
  | up {e : Engine} {stored held : List BlockEvents} (tracks : e.Tracks stored held) :
      Sound ⟨.up e, stored ++ held⟩ stored
  | failed {e : Engine} {known bs : List BlockEvents} (ordered : bs.Pairwise (·.slot < ·.slot))
      (table : e.table = tableOf bs) (checkpoint : e.checkpoint? = lastCheckpoint? known)
      (known : known <+: bs) : Sound ⟨.failed e, bs⟩ bs

theorem lose_eq {s : Standing} {accepted bs : List BlockEvents} (ht : s.table = tableOf bs)
    (ho : accepted.Pairwise (·.slot < ·.slot)) (hp : bs <+: accepted) :
    lose accepted s = ⟨s, bs⟩ := by
  obtain ⟨rest, rfl⟩ := hp
  unfold lose
  rw [ht, checkpoint?_tableOf, upTo_last ho]

theorem Sound.lose_failed {e : Engine} {known accepted bs : List BlockEvents}
    (ht : e.table = tableOf bs) (ho : accepted.Pairwise (·.slot < ·.slot)) (hp : bs <+: accepted)
    (hc : e.checkpoint? = lastCheckpoint? known) (hk : known <+: bs) :
    (lose accepted (.failed e)).Sound bs := by
  rw [lose_eq (s := .failed e) ht ho hp]
  exact .failed (ho.sublist hp.sublist) ht hc hk

theorem Sound.lose_down {t : Table} {accepted bs : List BlockEvents} (ht : t = tableOf bs)
    (ho : accepted.Pairwise (·.slot < ·.slot)) (hp : bs <+: accepted) :
    (lose accepted (.down t)).Sound bs := by
  rw [lose_eq (s := .down t) ht ho hp, ht]
  exact .down (ho.sublist hp.sublist)

end Execution

namespace Engine

theorem Tracks.withFaults {e : Engine} {stored held : List BlockEvents} (h : e.Tracks stored held)
    (f : Faults) : (e.withFaults f).Tracks stored held :=
  ⟨h.table, h.cache, h.pending, h.unpublished, h.durable, h.buffered, h.lastSlot, h.ordered⟩

theorem Tracks.withRetries {e : Engine} {stored held : List BlockEvents} (h : e.Tracks stored held)
    (retries : UInt32) : (e.withRetries retries).Tracks stored held :=
  ⟨h.table, h.cache, h.pending, h.unpublished, h.durable, h.buffered, h.lastSlot, h.ordered⟩

/-- Whether nothing can make a call fail. -/
def Call.Clean (e : Engine) : Call → Prop
  | process block _ => e.ledger.store.Faultless ∧ ∃ x, block.extract e.programs = .ok x
  | shutdown _ => e.ledger.store.Faultless

theorem Tracks.call {e : Engine} {stored held : List BlockEvents} (h : e.Tracks stored held)
    (c : Call) : Ended e stored held (c.accepted e) (c.Clean e) (c.run e) := by
  cases c with
  | process block now => exact h.processBlock block now
  | shutdown now => exact h.shutdown now

/-- Whatever becomes of a call, the table holds the rows of all blocks or of those it held before. -/
theorem Ended.table {e : Engine} {stored held new : List BlockEvents} {clean : Prop}
    {r : Except EngineError Unit × Engine} (h : Ended e stored held new clean r) :
    (stored ++ held ++ new).Pairwise (·.slot < ·.slot) ∧
      (r.2.table = tableOf stored ∨ r.2.table = tableOf (stored ++ held ++ new)) := by
  cases h with
  | failed _ _ ho ht => exact ⟨ho, ht⟩
  | holding ht => exact ⟨List.append_assoc stored held new ▸ ht.ordered, .inl ht.table⟩
  | flushed ht => exact ⟨by simpa using ht.ordered, .inr ht.table⟩

end Engine

namespace Execution

theorem Sound.start {bs : List BlockEvents} (ho : bs.Pairwise (·.slot < ·.slot)) (config : Config)
    (f : Faults) : Sound (Execution.start (tableOf bs) bs config f) bs := by
  unfold Execution.start
  obtain ⟨e, hstart, htracks, _⟩ | ⟨err, s, hstart, htable, _⟩ :=
    Engine.start_cases config (s := f.store (tableOf bs)) rfl ho
  · rw [hstart]
    simpa using Sound.up htracks
  · rw [hstart]
    change Sound ⟨.down s.table, bs⟩ bs
    rw [htable]
    exact .down ho

theorem Sound.finish {e : Engine} {stored held new : List BlockEvents} {clean : Prop}
    {r : Except EngineError Unit × Engine} (h : e.Ended stored held new clean r) :
    ∃ stored', (Execution.finish (stored ++ held ++ new) r).Sound stored' ∧ stored <+: stored' := by
  have hp : stored <+: stored ++ held ++ new := List.prefix_append_of_prefix (List.prefix_append _ _)
  cases h with
  | failed _ hc ho ht =>
    rcases ht with ht | ht
    · exact ⟨stored, .lose_failed ht ho hp hc List.prefix_rfl, List.prefix_rfl⟩
    · exact ⟨_, .lose_failed ht ho List.prefix_rfl hc hp, hp⟩
  | holding ht =>
    rw [List.append_assoc]
    exact ⟨stored, .up ht, List.prefix_rfl⟩
  | @flushed e' ht =>
    have hup := Sound.up ht
    rw [List.append_nil] at hup
    exact ⟨_, hup, hp⟩

/-- A step adds blocks to those in the table, or leaves the table as it is. -/
theorem Sound.step {x : Execution} {stored : List BlockEvents} (h : x.Sound stored) (a : Action) :
    ∃ stored', (x.step a).Sound stored' ∧ stored <+: stored' := by
  cases h with
  | down ho =>
    cases a with
    | start config f => exact ⟨stored, .start ho config f, List.prefix_rfl⟩
    | kill => exact ⟨stored, .lose_down rfl ho List.prefix_rfl, List.prefix_rfl⟩
    | call c f => exact ⟨stored, .down ho, List.prefix_rfl⟩
    | killDuring c f retries => exact ⟨stored, .down ho, List.prefix_rfl⟩
  | @failed e known _ ho ht hc hk =>
    cases a with
    | start config f =>
      have hstart := Sound.start ho config f
      rw [← ht] at hstart
      exact ⟨stored, hstart, List.prefix_rfl⟩
    | kill => exact ⟨stored, .lose_down ht ho List.prefix_rfl, List.prefix_rfl⟩
    | call c f => exact ⟨stored, .failed ho ht hc hk, List.prefix_rfl⟩
    | killDuring c f retries => exact ⟨stored, .failed ho ht hc hk, List.prefix_rfl⟩
  | @up e _ held tracks =>
    cases a with
    | start config f => exact ⟨stored, .up tracks, List.prefix_rfl⟩
    | kill =>
      exact ⟨stored, .lose_down tracks.table tracks.ordered (List.prefix_append _ _),
        List.prefix_rfl⟩
    | call c f => exact Sound.finish ((tracks.withFaults f).call c)
    | killDuring c f retries =>
      have hp : stored <+: stored ++ held ++ c.accepted e :=
        List.prefix_append_of_prefix (List.prefix_append _ _)
      obtain ⟨ho, ht | ht⟩ := (((tracks.withFaults f).withRetries retries).call c).table
      · exact ⟨stored, .lose_down ht ho hp, List.prefix_rfl⟩
      · exact ⟨_, .lose_down ht ho List.prefix_rfl, hp⟩

theorem sound_run (script : List Action) : ∃ stored, (run script).Sound stored := by
  induction script using List.reverseRecOn with
  | nil => exact ⟨[], .down .nil⟩
  | append_singleton script a ih =>
    obtain ⟨stored, h⟩ := ih
    obtain ⟨stored', h', _⟩ := h.step a
    refine ⟨stored', ?_⟩
    rw [run, List.foldl_append]
    exact h'

namespace Sound
variable {x : Execution} {stored : List BlockEvents}

theorem ordered (h : x.Sound stored) : stored.Pairwise (·.slot < ·.slot) := by
  cases h with
  | down ho => exact ho
  | up ht => exact (List.pairwise_append.mp ht.ordered).1
  | failed ho => exact ho

theorem table (h : x.Sound stored) : x.table = tableOf stored := by
  cases h with
  | down => rfl
  | up ht => exact ht.table
  | failed _ ht => exact ht

theorem checkpoint? (h : x.Sound stored) : x.table.checkpoint? = lastCheckpoint? stored := by
  rw [h.table, checkpoint?_tableOf]

theorem upTo_accepted (h : x.Sound stored) :
    upTo (lastCheckpoint? stored) x.accepted = stored := by
  cases h with
  | down ho => exact upTo_last_self ho
  | up ht => exact upTo_last ht.ordered
  | failed ho => exact upTo_last_self ho

theorem checkpoint_step (h : x.Sound stored) (a : Action) {c : Checkpoint}
    (hc : x.table.checkpoint? = some c) :
    ∃ c', (x.step a).table.checkpoint? = some c' ∧ c.slot ≤ c'.slot := by
  obtain ⟨stored', h', hp⟩ := h.step a
  rw [h.checkpoint?] at hc
  rw [h'.checkpoint?]
  exact last_le_last h'.ordered hp hc

theorem checkpoint_engine (h : x.Sound stored) {e : Engine} (he : x.standing.engine? = some e)
    {c : Checkpoint} (hc : e.checkpoint? = some c) :
    ∃ c', x.table.checkpoint? = some c' ∧ c.slot ≤ c'.slot := by
  rw [h.checkpoint?]
  cases h with
  | down => cases he
  | up ht =>
    cases he
    exact ⟨c, ht.durable.symm.trans hc, UInt64.le_refl _⟩
  | failed ho _ hk hp =>
    cases he
    exact last_le_last ho hp (hk.symm.trans hc)

end Sound

/-- At every moment of every execution the checkpoint in the table describes the table exactly:
without one the table is empty, and with one it holds the rows of the accepted blocks up to it and no
others. The checkpoint never goes back, and that of an engine is never ahead of it. -/
theorem checkpoint_describes_table (script : List Action) :
    ((run script).table.get? Checkpoint.key = none → (run script).table = .empty) ∧
    (∀ value, (run script).table.get? Checkpoint.key = some value →
      ∃ c, value = c.encode ∧
        lastCheckpoint? (upTo (some c) (run script).accepted) = some c ∧
        (run script).table = tableOf (upTo (some c) (run script).accepted)) ∧
    (∀ a c, (run script).table.checkpoint? = some c →
      ∃ c', (run (script ++ [a])).table.checkpoint? = some c' ∧ c.slot ≤ c'.slot) ∧
    (∀ e c, (run script).standing.engine? = some e → e.checkpoint? = some c →
      ∃ c', (run script).table.checkpoint? = some c' ∧ c.slot ≤ c'.slot) := by
  obtain ⟨stored, h⟩ := sound_run script
  have hrow : (run script).table.get? Checkpoint.key =
      (lastCheckpoint? stored).map Checkpoint.encode := by
    rw [h.table, get?_tableOf_checkpoint]
  refine ⟨fun hnone => ?_, fun value hvalue => ?_, fun a c hc => ?_, fun e c he => h.checkpoint_engine he⟩
  · rw [hrow, Option.map_eq_none_iff] at hnone
    obtain rfl : stored = [] := by simpa [lastCheckpoint?] using hnone
    rw [h.table]
    rfl
  · rw [hrow] at hvalue
    obtain ⟨c, hc, rfl⟩ := Option.map_eq_some_iff.mp hvalue
    have hup := h.upTo_accepted
    rw [hc] at hup
    exact ⟨c, rfl, hup.symm ▸ hc, hup.symm ▸ h.table⟩
  · have hrun : run (script ++ [a]) = (run script).step a := by rw [run, List.foldl_append]; rfl
    rw [hrun]
    exact h.checkpoint_step a hc

end Execution

end DexIndex
