import DexIndex.Proofs.Writer.Entries
import DexIndex.Proofs.Writer.Reached

/-!
# What has become durable

A writer gives out the events that have become durable. Those of all its calls so far, in order and
each with the owner that the ledger knew for it then, are the log of the writer (`Writer.Durable`), and
whatever became of the calls, the table has of events just the rows of the log (`Writer.Durable.logged`).
An owner that a ledger knows never changes (`OwnerCache.Extends`), so that the traders in the log are those
that it still knows.
-/

namespace DexIndex

/-! ### Owners once known -/

/-- A cache that still has every owner that another one has. -/
def OwnerCache.Extends (c c' : OwnerCache) : Prop :=
  ∀ account trader, c.find? account = some trader → c'.find? account = some trader

namespace OwnerCache
variable {c c' c'' : OwnerCache}

theorem Extends.refl (c : OwnerCache) : c.Extends c := fun _ _ h => h

theorem Extends.trans (h : c.Extends c') (h' : c'.Extends c'') : c.Extends c'' :=
  fun _ _ hfind => h' _ _ (h _ _ hfind)

theorem extends_append (c : OwnerCache) (account trader : PublicKey) :
    c.Extends ⟨c.owners ++ [(account, trader)]⟩ := by
  intro a t h
  change c.owners.lookup a = some t at h
  change (c.owners ++ [(account, trader)]).lookup a = some t
  rw [List.lookup_append, h, Option.some_or]

theorem extends_record (c : OwnerCache) (account trader : PublicKey) :
    c.Extends (c.record account trader).2 := by
  unfold record
  split
  · exact .refl c
  · exact c.extends_append account trader

theorem find?_of_record (c : OwnerCache) (account trader : PublicKey) :
    (c.record account trader).2.find? account = some (c.record account trader).1 := by
  unfold record
  cases h : c.find? account with
  | some owner => exact h
  | none =>
    change c.owners.lookup account = none at h
    change (c.owners ++ [(account, trader)]).lookup account = some trader
    rw [List.lookup_append, h, Option.none_or, List.lookup_singleton, if_pos (beq_self_eq_true _)]

theorem extends_claim (c : OwnerCache) (account trader : PublicKey) :
    c.Extends (c.claim account trader).2 := by
  unfold claim
  split
  · exact .refl c
  · exact c.extends_append account trader

end OwnerCache

/-- An event that is written is written in the same way under every cache that knows more. -/
theorem Event.entry_of_extends {c c' : OwnerCache} (h : c.Extends c') {e : Event}
    (hkept : e.isKept c.find?) : e.isKept c'.find? ∧ e.entry c'.find? = e.entry c.find? := by
  obtain ⟨ref, kind⟩ := e
  cases kind with
  | fill account fill =>
    obtain ⟨trader, ht⟩ := Option.isSome_iff_exists.mp hkept
    have ht' := h account trader ht
    refine ⟨?_, ?_⟩
    · exact Option.isSome_iff_exists.mpr ⟨trader, ht'⟩
    · simp only [entry, traderWith, ht, ht']
  | _ => exact ⟨rfl, rfl⟩

namespace Ledger
variable {l : Ledger}

/-- What asking for an owner leaves: nothing but the cache may change, and it has the answer. -/
theorem extends_trader? (l : Ledger) (account : PublicKey) :
    (l.trader? account).2.store.table = l.store.table ∧
      l.cache.Extends (l.trader? account).2.cache ∧
      ∀ trader, (l.trader? account).1 = .ok (some trader) →
        (l.trader? account).2.cache.find? account = some trader := by
  unfold trader?
  split
  · next trader hfind =>
    refine ⟨rfl, .refl _, fun t ht => ?_⟩
    obtain rfl : trader = t := Option.some.inj (Except.ok.inj ht)
    exact hfind
  · obtain ⟨s, hs, hget | ⟨_, e, hget⟩⟩ :=
      l.store.read_cases (·.get? (Ownership.encodeKey account))
    · simp only [get, Store.get, hget]
      cases l.store.table.get? (Ownership.encodeKey account) with
      | none => exact ⟨hs.table, .refl _, fun t ht => (by cases ht)⟩
      | some value =>
        dsimp only
        cases Ownership.decodeTrader value with
        | error e => exact ⟨hs.table, .refl _, fun t ht => (by cases ht)⟩
        | ok trader =>
          refine ⟨hs.table, l.cache.extends_record account trader, fun t ht => ?_⟩
          obtain rfl := Option.some.inj (Except.ok.inj ht)
          exact l.cache.find?_of_record account trader
    · simp only [get, Store.get, hget]
      exact ⟨hs.table, .refl _, fun t ht => (by cases ht)⟩

theorem extends_claim (l : Ledger) (o : Ownership) :
    (l.claim o).2.store.table = l.store.table ∧ l.cache.Extends (l.claim o).2.cache ∧
      ∀ row, (l.claim o).1 = .ok (some row) → isOfEvent row.1 = false := by
  obtain ⟨htable, hextends, _⟩ := l.extends_trader? o.account
  unfold claim
  generalize l.trader? o.account = r at htable hextends
  obtain ⟨r, l'⟩ := r
  match r with
  | .error e => exact ⟨htable, hextends, fun _ h => (by cases h)⟩
  | .ok (some trader) => exact ⟨htable, hextends, fun _ h => (by cases h)⟩
  | .ok none =>
    refine ⟨htable, hextends.trans (l'.cache.extends_claim _ _), fun row hrow => ?_⟩
    change Except.ok (l'.cache.claim o.account o.trader).1 = _ at hrow
    unfold OwnerCache.claim at hrow
    split at hrow
    · cases hrow
    · cases hrow
      rfl

end Ledger

namespace Writer
variable {w w' w'' : Writer} {l l' l'' : Ledger} {log : List Entry}

/-! ### What is held back -/

/-- The entries that a writer holds back. -/
def held (w : Writer) (l : Ledger) : List Entry := w.unpublished.map (Event.entry l.cache.find?)

/-- The rows that a writer holds back are those of the events that it holds back. -/
structure Filed (w : Writer) (l : Ledger) : Prop where
  pending : w.pending.filter (isOfEvent ·.1) = Entry.allRows (w.held l)
  kept : ∀ e ∈ w.unpublished, e.isKept l.cache.find?

theorem held_of_extends (h : l.cache.Extends l'.cache)
    (hkept : ∀ e ∈ w.unpublished, e.isKept l.cache.find?) : w.held l' = w.held l :=
  List.map_congr_left fun e he => (Event.entry_of_extends h (hkept e he)).2

theorem Filed.of_extends (h : w.Filed l) (hl : l.cache.Extends l'.cache) : w.Filed l' :=
  ⟨by rw [held_of_extends hl h.kept]; exact h.pending,
    fun e he => (Event.entry_of_extends hl (h.kept e he)).1⟩

theorem Filed.hold (h : w.Filed l) {rows : List Row} (hrows : ∀ r ∈ rows, isOfEvent r.1 = false) :
    (w.hold rows).Filed l := by
  have hnone : rows.filter (isOfEvent ·.1) = [] :=
    List.filter_eq_nil_iff.mpr fun r hr => by simp [hrows r hr]
  refine ⟨?_, h.kept⟩
  change (w.pending ++ rows).filter _ = Entry.allRows (w.held l)
  rw [List.filter_append, hnone, List.append_nil]
  exact h.pending

theorem Filed.holdEvent (h : w.Filed l) {e : Event} (hkept : e.isKept l.cache.find?) :
    (w.holdEvent e (e.traderWith l.cache.find?)).Filed l := by
  refine ⟨?_, fun e' he' => ?_⟩
  · change (w.pending ++ (e.entry l.cache.find?).rows).filter _ =
      Entry.allRows ((w.unpublished ++ [e]).map (Event.entry l.cache.find?))
    rw [List.filter_append, List.map_append, Entry.allRows_append, Entry.filter_rows, h.pending,
      List.map_singleton, Entry.allRows_singleton]
    rfl
  · rcases List.mem_append.mp he' with he' | he'
    · exact h.kept e' he'
    · exact List.mem_singleton.mp he' ▸ hkept

/-- What holding rows back makes of a writer and its ledger. -/
structure Holding (w : Writer) (l : Ledger) (w' : Writer) (l' : Ledger) : Prop where
  table : l'.store.table = l.store.table
  cache : l.cache.Extends l'.cache
  filed : w.Filed l → w'.Filed l'

theorem Holding.refl (w : Writer) (l : Ledger) : Holding w l w l := ⟨rfl, .refl _, id⟩

theorem Holding.trans (h : Holding w l w' l') (h' : Holding w' l' w'' l'') : Holding w l w'' l'' :=
  ⟨h'.table.trans h.table, h.cache.trans h'.cache, h'.filed ∘ h.filed⟩

theorem holding_bufferOwnerships (w : Writer) (l : Ledger) (new : List Ownership) :
    Holding w l (w.bufferOwnerships l new).2.1 (w.bufferOwnerships l new).2.2 := by
  induction new generalizing w l with
  | nil => exact .refl w l
  | cons o rest ih =>
    obtain ⟨htable, hextends, hrow⟩ := l.extends_claim o
    rw [bufferOwnerships]
    generalize l.claim o = r at htable hextends hrow
    obtain ⟨r, l'⟩ := r
    cases r with
    | error e => exact ⟨htable, hextends, fun h => h.of_extends hextends⟩
    | ok row =>
      refine Holding.trans ⟨htable, hextends, fun h => ?_⟩ (ih (w.hold row.toList) l')
      refine (h.of_extends hextends).hold fun r hr => ?_
      exact hrow r (congrArg Except.ok (Option.mem_toList.mp hr))

theorem holding_bufferEvent (w : Writer) (l : Ledger) (e : Event) :
    Holding w l (w.bufferEvent l e).2.1 (w.bufferEvent l e).2.2 := by
  unfold bufferEvent
  split
  · next account fill hkind =>
    obtain ⟨htable, hextends, hfind⟩ := l.extends_trader? account
    generalize l.trader? account = r at htable hextends hfind
    obtain ⟨r, l'⟩ := r
    match r with
    | .error err => exact ⟨htable, hextends, fun h => h.of_extends hextends⟩
    | .ok none =>
      refine ⟨htable, hextends, fun h => ?_⟩
      have h := h.of_extends hextends
      exact ⟨h.pending, h.kept⟩
    | .ok (some trader) =>
      refine ⟨htable, hextends, fun h => ?_⟩
      have hfind : l'.cache.find? account = some trader := hfind trader rfl
      have hwith : e.traderWith l'.cache.find? = some trader := by
        rw [Event.traderWith, hkind]
        exact hfind
      have hkept : e.isKept l'.cache.find? := by
        rw [Event.isKept, hkind]
        exact Option.isSome_iff_exists.mpr ⟨trader, hfind⟩
      have hheld := (h.of_extends hextends).holdEvent hkept
      rwa [show e.traderWith _ = some trader from hwith] at hheld
  · next hkind =>
    refine ⟨rfl, .refl _, fun h => ?_⟩
    obtain ⟨ref, kind⟩ := e
    cases kind with
    | fill account fill => exact absurd rfl (hkind account fill)
    | _ => exact h.holdEvent rfl

theorem holding_bufferEvents (w : Writer) (l : Ledger) (events : List Event) :
    Holding w l (w.bufferEvents l events).2.1 (w.bufferEvents l events).2.2 := by
  induction events generalizing w l with
  | nil => exact .refl w l
  | cons e rest ih =>
    have he := w.holding_bufferEvent l e
    rw [bufferEvents]
    generalize w.bufferEvent l e = r at he
    obtain ⟨r, w', l'⟩ := r
    cases r with
    | ok => exact he.trans (ih w' l')
    | error => exact he

theorem holding_holdCheckpoint (w : Writer) (l : Ledger) (x : BlockEvents) :
    Holding w l (w.holdCheckpoint x) l := by
  refine ⟨rfl, .refl _, fun h => ?_⟩
  have hheld : (w.hold [checkpointRow (blockCheckpoint x)]).Filed l := h.hold fun r hr => by
    rw [List.mem_singleton.mp hr]
    rfl
  exact ⟨hheld.pending, hheld.kept⟩

/-! ### The log -/

/-- What a call over a table has made durable: the events that it gives out, or, where it failed and
its batch was written nevertheless, all that are held back. -/
def landed (t : Table) : Except WriterError (List Event) × Writer × Ledger → List Entry
  | (.ok events, _, l) => events.map (Event.entry l.cache.find?)
  | (.error _, w, l) => if l.store.table = t then [] else w.held l

/-- What is given out is what has landed. -/
theorem landed_map_event (t : Table) (d : List Event) (w : Writer) (l : Ledger) :
    (landed t (.ok d, w, l)).map (·.event) = d := by
  rw [landed, List.map_map]
  exact List.map_id d

/-- A writer and its ledger after any calls, and what has become durable, in the order in which it was
written. -/
inductive Durable : Writer → Ledger → List Entry → Prop
  | start (schedule : FlushSchedule) (policy : FlushPolicy) {s : Store} (empty : s.table = .empty) :
      Durable (.resume schedule policy none) (.ofStore s) []
  /-- What the next accesses run into is up to the world. -/
  | world {w : Writer} {l : Ledger} {log : List Entry} (h : Durable w l log) {s : Store}
      (table : s.table = l.store.table) : Durable w { l with store := s } log
  | write {w : Writer} {l : Ledger} {log : List Entry} (h : Durable w l log) (x : BlockEvents)
      (now : Timestamp) :
      Durable (w.writeBlock l x now).2.1 (w.writeBlock l x now).2.2
        (log ++ landed l.store.table (w.writeBlock l x now))
  | flush {w : Writer} {l : Ledger} {log : List Entry} (h : Durable w l log) (now : Timestamp) :
      Durable (w.flush l now).2.1 (w.flush l now).2.2 (log ++ landed l.store.table (w.flush l now))
  /-- What was held back is lost, and the owners are read from the table. -/
  | resume {w : Writer} {l : Ledger} {log : List Entry} (h : Durable w l log)
      (schedule : FlushSchedule) (policy : FlushPolicy) (checkpoint : Option Checkpoint) {n : Nat}
      {l' : Ledger} (owners : (Ledger.ofStore l.store).loadOwners = (.ok n, l')) :
      Durable (.resume schedule policy checkpoint) l' log

theorem Durable.reached (h : Durable w l log) : Reached w l := by
  induction h with
  | start schedule policy empty => exact .start schedule policy empty
  | world _ table ih => exact ih.world table
  | write _ x now ih => exact ih.write x now
  | flush _ now ih => exact ih.flush now
  | resume _ schedule policy checkpoint owners ih => exact ih.resume schedule policy checkpoint owners

theorem Reached.exists_durable (h : Reached w l) : ∃ log, Durable w l log := by
  induction h with
  | start schedule policy empty => exact ⟨_, .start schedule policy empty⟩
  | world _ table ih =>
    obtain ⟨log, ih⟩ := ih
    exact ⟨log, ih.world table⟩
  | write _ x now ih =>
    obtain ⟨log, ih⟩ := ih
    exact ⟨_, ih.write x now⟩
  | flush _ now ih =>
    obtain ⟨log, ih⟩ := ih
    exact ⟨_, ih.flush now⟩
  | resume _ schedule policy checkpoint owners ih =>
    obtain ⟨log, ih⟩ := ih
    exact ⟨log, ih.resume schedule policy checkpoint owners⟩

/-- What holds of a writer, its ledger and its log at any time. -/
structure Logged (w : Writer) (l : Ledger) (log : List Entry) : Prop where
  sound : Sound w l
  filed : w.Filed l
  table : l.store.table.Holds log
  /-- The ledger still knows the owners. -/
  known : ∀ p ∈ log, p.event.isKept l.cache.find? ∧ p = p.event.entry l.cache.find?
  /-- The table has the owners of fills. -/
  stored : ∀ p ∈ log, ∀ account fill, p.event.kind = .fill account fill →
    l.store.table.get? (Ownership.encodeKey account) = p.trader.map Ownership.encodeTrader

namespace Logged

theorem holding (h : Logged w l log) (hh : Holding w l w' l') (hs : Sound w' l') :
    Logged w' l' log := by
  refine ⟨hs, hh.filed h.filed, hh.table ▸ h.table, fun p hp => ?_, hh.table ▸ h.stored⟩
  obtain ⟨hkept, hentry⟩ := h.known p hp
  obtain ⟨hkept', hentry'⟩ := Event.entry_of_extends hh.cache hkept
  exact ⟨hkept', hentry.trans hentry'.symm⟩

/-- A batch that is written adds what was held back. -/
theorem landing (h : Logged w l log) (hc : l'.cache = l.cache)
    (ht : l'.store.table = l.store.table.insertAll w.pending) (hs : Sound w' l')
    (hf : w'.Filed l') : Logged w' l' (log ++ w.held l) := by
  have hknown : ∀ p ∈ log ++ w.held l,
      p.event.isKept l.cache.find? ∧ p = p.event.entry l.cache.find? := by
    intro p hp
    rcases List.mem_append.mp hp with hp | hp
    · exact h.known p hp
    · obtain ⟨e, he, rfl⟩ := List.mem_map.mp hp
      exact ⟨h.filed.kept e he, rfl⟩
  refine ⟨hs, hf, ht ▸ h.table.insertAll h.filed.pending, hc ▸ hknown, ?_⟩
  intro p hp account fill hkind
  have htrader : p.trader = l.cache.find? account := by
    rw [(hknown p hp).2, Event.entry, Event.traderWith, hkind]
  rw [ht, h.sound.owners, htrader]

theorem flush (h : Logged w l log) (now : Timestamp) :
    Logged (w.flush l now).2.1 (w.flush l now).2.2 (log ++ landed l.store.table (w.flush l now)) := by
  have hs := h.sound.flush now
  by_cases hp : w.pending = []
  · rw [flush_of_pending_nil hp, landed, List.map_nil, List.append_nil]
    exact h
  · obtain ⟨s, htried, ⟨m, hf, ht⟩ | ⟨_, e, m, hf⟩⟩ := flush_cases hp l now
    · rw [hf] at hs ⊢
      exact h.landing rfl ht hs ⟨rfl, fun e he => (by cases he)⟩
    · rw [hf] at hs ⊢
      have hfiled : Filed { w with metrics := m } { l with store := s } :=
        ⟨h.filed.pending, h.filed.kept⟩
      by_cases hsame : s.table = l.store.table
      · rw [landed, if_pos hsame, List.append_nil]
        exact h.holding ⟨hsame, .refl _, fun _ => hfiled⟩ hs
      · rw [landed, if_neg hsame]
        exact h.landing rfl (htried.table.resolve_left hsame) hs hfiled

theorem writeBlock (h : Logged w l log) (x : BlockEvents) (now : Timestamp) :
    Logged (w.writeBlock l x now).2.1 (w.writeBlock l x now).2.2
      (log ++ landed l.store.table (w.writeBlock l x now)) := by
  have hs := h.sound.writeBlock x now
  -- a call that ends before its flush has only held rows back
  have hheld {w' : Writer} {l' : Ledger} (hh : Holding w l w' l') (hs : Sound w' l')
      (e : WriterError) : Logged w' l' (log ++ landed l.store.table (.error e, w', l')) := by
    rw [landed, if_pos hh.table, List.append_nil]
    exact h.holding hh hs
  unfold Writer.writeBlock at hs ⊢
  split
  · exact hheld (.refl w l) h.sound _
  · have ho := w.holding_bufferOwnerships l x.ownerships
    have hso := h.sound.bufferOwnerships x.ownerships
    generalize w.bufferOwnerships l x.ownerships = r at ho hso
    obtain ⟨r, w₁, l₁⟩ := r
    cases r with
    | error e => exact hheld ho hso _
    | ok =>
      have he := ho.trans (w₁.holding_bufferEvents l₁ x.events)
      have hse := Sound.bufferEvents hso x.events
      dsimp only at he hse ⊢
      generalize w₁.bufferEvents l₁ x.events = r at he hse
      obtain ⟨r, w₂, l₂⟩ := r
      cases r with
      | error e => exact hheld he hse _
      | ok =>
        have hc := he.trans (w₂.holding_holdCheckpoint l₂ x)
        have hl := h.holding hc (Sound.holdCheckpoint hse x)
        dsimp only at hl ⊢
        split
        · rw [← show l₂.store.table = l.store.table from hc.table]
          exact hl.flush now
        · rw [landed, List.map_nil, List.append_nil]
          exact hl

theorem resume (h : Logged w l log) (schedule : FlushSchedule) (policy : FlushPolicy)
    (checkpoint : Option Checkpoint) {n : Nat} {l' : Ledger}
    (hl : (Ledger.ofStore l.store).loadOwners = (.ok n, l')) :
    Logged (.resume schedule policy checkpoint) l' log := by
  have hs := h.sound.resume schedule policy checkpoint hl
  obtain ⟨l₁, hread, ⟨n₁, hload, howners⟩ | ⟨_, e, hload⟩⟩ :=
    Ledger.loadOwners_cases (l := .ofStore l.store) rfl h.sound.table
  · obtain ⟨_, rfl⟩ := Prod.mk.inj (hl.symm.trans hload)
    have htable : l'.store.table = l.store.table := hread.table
    refine ⟨hs, ⟨rfl, fun e he => (by cases he)⟩, htable ▸ h.table, fun p hp => ?_, htable ▸ h.stored⟩
    obtain ⟨hkept, hentry⟩ := h.known p hp
    obtain ⟨⟨ref, kind⟩, trader⟩ := p
    cases kind with
    | fill account fill =>
      have hfind : l'.cache.find? account = trader := by
        refine Option.map_injective Ownership.encodeTrader_injective ?_
        rw [howners account]
        exact h.stored _ hp account fill rfl
      have htrader : trader = l.cache.find? account := congrArg Entry.trader hentry
      refine ⟨?_, ?_⟩
      · simp only [Event.isKept, hfind, htrader]
        exact hkept
      · simp only [Event.entry, Event.traderWith, hfind]
    | _ => exact ⟨rfl, hentry⟩
  · cases hl.symm.trans hload

end Logged

/-- Whatever calls a writer has got, its table has of events just the rows of its log. -/
theorem Durable.logged (h : Durable w l log) : Logged w l log := by
  induction h with
  | start schedule policy empty =>
    refine ⟨(Reached.start schedule policy empty).sound, ⟨rfl, fun e he => (by cases he)⟩, ?_,
      fun p hp => (by cases hp), fun p hp => (by cases hp)⟩
    exact (show (Ledger.ofStore _).store.table = Table.empty from empty) ▸ .empty
  | world _ table ih =>
    refine ⟨ih.sound.world table, ⟨ih.filed.pending, ih.filed.kept⟩, table ▸ ih.table, ih.known, ?_⟩
    exact table ▸ ih.stored
  | write _ x now ih => exact ih.writeBlock x now
  | flush _ now ih => exact ih.flush now
  | resume _ schedule policy checkpoint owners ih => exact ih.resume schedule policy checkpoint owners

end Writer

end DexIndex
