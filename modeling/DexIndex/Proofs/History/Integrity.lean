import DexIndex.Proofs.History.Pages

/-!
# Indexes and the events they point to

As the rows of an event are written together, every key of an index leads to a fill, and every fill has
its keys in the indexes (`Table.Intact`), whatever became of the calls of the writer. A query takes one
access to the store after another, between which the writer may go on (`Alongside`). Since the keys that are
in a table stay in it, what the query found in the index is still there when it is read, so that a query
ends in no error but one of the store (`Writer.Reached.queries_consistent`).
-/

namespace DexIndex

/-- A table whose indexes and events fit together. -/
structure Table.Intact (t : Table) : Prop where
  /-- Every key of an index leads to a fill with a trader. -/
  found : ∀ (q : FillQuery) (key : Bytes), (t.get? key).isSome → key.head? = some q.family.tag →
    ∃ k, q.decodeKey key = .ok k ∧ ∃ value v, t.get? k.orderEvent.encode = some value ∧
      StoredEvent.decode value = .ok v ∧ v.kind.type = .fill ∧ v.trader.isSome
  /-- Every event can be read, and a fill has its keys in the indexes. -/
  filed : ∀ key value, t.get? key = some value → key.head? = some Family.orderEvent.tag →
    ∃ k v, OrderEventKey.decode key = .ok k ∧ StoredEvent.decode value = .ok v ∧
      v.kind.type = k.type ∧ (v.kind.type = .fill → ∃ trader, v.trader = some trader ∧
        (t.get? (FillKey.encodeByMarket ⟨k.order, k.place⟩)).isSome ∧
        (t.get? (FillKey.encodeByTrader trader ⟨k.order, k.place⟩)).isSome ∧
        (t.get? (FillKey.encodeByTraderMarket trader ⟨k.order, k.place⟩)).isSome)

namespace Writer.Logged
variable {w : Writer} {l : Ledger} {log : List Entry}

theorem exists_fill_of_mem (h : Logged w l log) {r : FillRecord} (hr : r.entry ∈ log) :
    ∃ r' : FillRecord, r'.entry ∈ log ∧ l.store.table.get? r.key.orderEvent.encode =
      some (StoredEvent.ofEvent r'.entry.event (some r'.trader)).encode := by
  obtain ⟨p, hp⟩ := Entry.exists_latest? hr
  obtain ⟨hmem, hkey⟩ := Entry.mem_of_latest? hp
  have htrader := (h.traded hmem).mp (congrArg OrderEventKey.type hkey)
  obtain ⟨r', rfl⟩ := Entry.exists_fill (h.traded hmem) htrader
  refine ⟨r', hmem, ?_⟩
  rw [h.table.get?_event, show r.key.orderEvent = r.entry.key from rfl, hp]
  rfl

theorem exists_entry_of_tag (h : Logged w l log) {key value : Bytes}
    (hget : l.store.table.get? key = some value)
    (htag : key.head? = some Family.orderEvent.tag) :
    ∃ p ∈ log, key = p.key.encode ∧ value = (StoredEvent.ofEvent p.event p.trader).encode := by
  have hevent : isOfEvent key := by
    rw [isOfEvent, htag]
    rfl
  obtain ⟨p, hp, row, hrow, rfl⟩ :=
    (h.table.isSome_get?_iff hevent).mp (Option.isSome_iff_exists.mpr ⟨value, hget⟩)
  obtain rfl := Event.eq_mainRow_of_mem hrow htag
  obtain ⟨q, hq⟩ := Entry.exists_latest? hp
  obtain ⟨hmem, hkey⟩ := Entry.mem_of_latest? hq
  refine ⟨q, hmem, congrArg OrderEventKey.encode hkey.symm, ?_⟩
  have hstored := h.table.get?_event p.key
  rw [hq] at hstored
  exact Option.some.inj (hget.symm.trans hstored)

theorem intact (h : Logged w l log) : l.store.table.Intact where
  found q key hsome htag := by
    obtain ⟨r, hr, row, hrow, rfl⟩ := h.exists_fill_of_tag hsome htag
    obtain ⟨r', _, hget⟩ := h.exists_fill_of_mem hr
    exact ⟨r.key, q.decodeKey_of_mem hrow htag, _, _, hget, StoredEvent.decode_encode _, rfl, rfl⟩
  filed key value hget htag := by
    obtain ⟨p, hp, rfl, rfl⟩ := h.exists_entry_of_tag hget htag
    refine ⟨p.key, _, OrderEventKey.decode_encode _, StoredEvent.decode_encode _, rfl, fun hfill => ?_⟩
    obtain ⟨r, rfl⟩ := Entry.exists_fill (h.traded hp) ((h.traded hp).mp hfill)
    have hfiled (q : FillQuery) (hq : q.selects r) : (l.store.table.get? (q.indexKey r)).isSome :=
      ((h.isSome_get?_indexKey_iff q).mpr ⟨r, hp, hq, rfl⟩).1
    exact ⟨r.trader, rfl, hfiled (.byMarket r.ref.order.market) (by simp [FillQuery.selects]),
      hfiled (.byTrader r.trader) (by simp [FillQuery.selects]),
      hfiled (.byTraderMarket r.trader r.ref.order.market) (by simp [FillQuery.selects])⟩

end Writer.Logged

theorem Writer.Durable.stays {w w' : Writer} {l l' : Ledger} {log log' : List Entry}
    (h : Durable w l log) (h' : Durable w' l' log') (hlog : log ⊆ log') (key : Bytes)
    (hkey : isOfEvent key) (hsome : (l.store.table.get? key).isSome) :
    (l'.store.table.get? key).isSome := by
  obtain ⟨p, hp, hrow⟩ := (h.logged.table.isSome_get?_iff hkey).mp hsome
  exact (h'.logged.table.isSome_get?_iff hkey).mpr ⟨p, hlog hp, hrow⟩

/-! ### Queries access by access -/

/-- How far a query has come. -/
inductive QueryStage
  | due
  /-- The keys that are still to be resolved, the fills found so far, and whether there are more than
  are asked for. -/
  | resolving (keys : List Bytes) (found : List FillRecord) (more : Bool)
  | ended (result : Except ReaderError FillPage)
deriving DecidableEq

/-- A query goes on by at most one access. -/
def FillQuery.next (q : FillQuery) (limit : Nat) (l : Ledger) : QueryStage → QueryStage × Ledger
  | .due =>
    match l.scan q.indexPrefix (some (limit + 1)) with
    | (.error e, l) => (.ended (.error (.store e)), l)
    | (.ok rows, l) => (.resolving ((rows.take limit).map (·.1)) [] (limit < rows.length), l)
  | .resolving [] found more => (.ended (.ok ⟨found, more⟩), l)
  | .resolving (key :: keys) found more =>
    match q.decodeKey key with
    | .error e => (.ended (.error (.codec e)), l)
    | .ok k =>
      match l.get k.orderEvent.encode with
      | (.error e, l) => (.ended (.error (.store e)), l)
      | (.ok value, l) =>
        match k.resolve value with
        | .error e => (.ended (.error e), l)
        | .ok fill => (.resolving keys (found ++ [fill]) more, l)
  | .ended result => (.ended result, l)

/-- A query that is made of a writer at work: between its accesses, the writer may get any calls. -/
inductive Alongside (q : FillQuery) (limit : Nat) (w₀ : Writer) (l₀ : Ledger) :
    Writer → Ledger → QueryStage → Prop
  | start : Alongside q limit w₀ l₀ w₀ l₀ .due
  | next {w : Writer} {l : Ledger} {stage : QueryStage} (h : Alongside q limit w₀ l₀ w l stage) :
      Alongside q limit w₀ l₀ w (q.next limit l stage).2 (q.next limit l stage).1
  | world {w : Writer} {l : Ledger} {stage : QueryStage} (h : Alongside q limit w₀ l₀ w l stage)
      {s : Store} (table : s.table = l.store.table) :
      Alongside q limit w₀ l₀ w { l with store := s } stage
  | write {w : Writer} {l : Ledger} {stage : QueryStage} (h : Alongside q limit w₀ l₀ w l stage)
      (x : BlockEvents) (now : Timestamp) :
      Alongside q limit w₀ l₀ (w.writeBlock l x now).2.1 (w.writeBlock l x now).2.2 stage
  | flush {w : Writer} {l : Ledger} {stage : QueryStage} (h : Alongside q limit w₀ l₀ w l stage)
      (now : Timestamp) : Alongside q limit w₀ l₀ (w.flush l now).2.1 (w.flush l now).2.2 stage
  | resume {w : Writer} {l : Ledger} {stage : QueryStage} (h : Alongside q limit w₀ l₀ w l stage)
      (schedule : FlushSchedule) (policy : FlushPolicy) (checkpoint : Option Checkpoint) {n : Nat}
      {l' : Ledger} (owners : (Ledger.ofStore l.store).loadOwners = (.ok n, l')) :
      Alongside q limit w₀ l₀ (.resume schedule policy checkpoint) l' stage

/-- What holds of a query at any time: the keys that it has still to resolve are in the index, and if it
has ended in an error, it is one of the store. -/
def QueryStage.Sound (q : FillQuery) (t : Table) : QueryStage → Prop
  | due => True
  | resolving keys _ _ => ∀ key ∈ keys, (t.get? key).isSome ∧ q.indexPrefix <+: key
  | ended result => ∀ e, result = .error e → ∃ cause, e = .store cause

namespace QueryStage
variable {q : FillQuery} {t t' : Table} {stage : QueryStage}

theorem Sound.mono (h : stage.Sound q t)
    (hstay : ∀ key, isOfEvent key → (t.get? key).isSome → (t'.get? key).isSome) :
    stage.Sound q t' := by
  cases stage with
  | due => trivial
  | resolving keys found more =>
    intro key hkey
    obtain ⟨hsome, hp⟩ := h key hkey
    exact ⟨hstay key (q.isOfEvent_of_tag (FillQuery.head?_of_indexPrefix_le hp)) hsome, hp⟩
  | ended result => exact h

end QueryStage

namespace FillQuery
variable {q : FillQuery} {l : Ledger}

theorem decodeKey_of_recordOf {t : Table} {key : Bytes} {record : FillRecord}
    (h : q.recordOf t key = .ok record) :
    ∃ k, q.decodeKey key = .ok k ∧ k.resolve (t.get? k.orderEvent.encode) = .ok record := by
  unfold recordOf at h
  split at h
  · cases h
  · next k hk => exact ⟨k, hk, h⟩

theorem next_sound (hb : l.store.table.Backed) {limit : Nat} {stage : QueryStage}
    (h : stage.Sound q l.store.table) :
    ∃ s, (q.next limit l stage).2 = { l with store := s } ∧ s.table = l.store.table ∧
      (q.next limit l stage).1.Sound q l.store.table := by
  have hstore (cause : StoreError) :
      (QueryStage.ended (.error (.store cause))).Sound q l.store.table := by
    rintro _ ⟨⟩
    exact ⟨cause, rfl⟩
  match stage with
  | .due =>
    obtain ⟨s, hs, hscan | ⟨_, e, hscan⟩⟩ :=
      l.store.read_cases (·.scan q.indexPrefix (some (limit + 1)))
    · simp only [next, Ledger.scan, Store.scan, hscan]
      refine ⟨s, rfl, hs.table, fun key hkey => ?_⟩
      obtain ⟨⟨_, value⟩, hrow, rfl⟩ := List.mem_map.mp hkey
      have hrow : (_, value) ∈ l.store.table.scan q.indexPrefix none :=
        List.mem_of_mem_take (List.mem_of_mem_take hrow)
      obtain ⟨hget, hp⟩ := Table.mem_scan_none.mp hrow
      exact ⟨Option.isSome_iff_exists.mpr ⟨value, hget⟩, hp⟩
    · simp only [next, Ledger.scan, Store.scan, hscan]
      exact ⟨s, rfl, hs.table, hstore e⟩
  | .resolving [] found more =>
    exact ⟨l.store, rfl, rfl, fun e he => (by cases he)⟩
  | .resolving (key :: keys) found more =>
    -- the key is in the index at this moment too, and so it leads to a fill
    obtain ⟨⟨hsome, hp⟩, hkeys⟩ := List.forall_mem_cons.mp h
    obtain ⟨value, hget⟩ := Option.isSome_iff_exists.mp hsome
    obtain ⟨record, hrecord⟩ := hb.recordOf_ok q (Table.mem_scan_none.mpr ⟨hget, hp⟩)
    obtain ⟨k, hk, hresolve⟩ := decodeKey_of_recordOf hrecord
    obtain ⟨s, hs, hread | ⟨_, e, hread⟩⟩ := l.store.read_cases (·.get? k.orderEvent.encode)
    · simp only [next, hk, Ledger.get, Store.get, hread, hresolve]
      exact ⟨s, rfl, hs.table, hkeys⟩
    · simp only [next, hk, Ledger.get, Store.get, hread]
      exact ⟨s, rfl, hs.table, hstore e⟩
  | .ended result => exact ⟨l.store, rfl, rfl, h⟩

end FillQuery

namespace Alongside
variable {q : FillQuery} {limit : Nat} {w w₀ : Writer} {l l₀ : Ledger} {stage : QueryStage}

/-- A query whose accesses follow one another gives what it gives at once. -/
theorem resolveFills {keys : List Bytes} {found : List FillRecord} {more : Bool}
    (h : Alongside q limit w₀ l₀ w l (.resolving keys found more)) :
    Alongside q limit w₀ l₀ w (Ledger.resolveFills q l keys).2
      (.ended ((Ledger.resolveFills q l keys).1.map fun fills => ⟨found ++ fills, more⟩)) := by
  induction keys generalizing l found with
  | nil =>
    have hnext := h.next
    rw [FillQuery.next] at hnext
    simpa [Ledger.resolveFills, Except.map] using hnext
  | cons key keys ih =>
    have hnext := h.next
    rw [FillQuery.next] at hnext
    rw [Ledger.resolveFills]
    cases hk : q.decodeKey key with
    | error e =>
      simp only [hk] at hnext
      exact hnext
    | ok k =>
      simp only [hk] at hnext ⊢
      generalize l.get k.orderEvent.encode = r at hnext ⊢
      obtain ⟨r, l'⟩ := r
      cases r with
      | error e => exact hnext
      | ok value =>
        dsimp only at hnext ⊢
        cases hresolve : k.resolve value with
        | error e =>
          simp only [hresolve] at hnext
          exact hnext
        | ok fill =>
          simp only [hresolve] at hnext ⊢
          have hrest := ih hnext
          cases hfills : (Ledger.resolveFills q l' keys).1 with
          | error e =>
            rw [hfills] at hrest
            exact hrest
          | ok fills =>
            rw [hfills] at hrest
            simpa [Except.map] using hrest

theorem fills (q : FillQuery) (limit : Nat) (w : Writer) (l : Ledger) :
    Alongside q limit w l w (l.fills q limit).2 (.ended (l.fills q limit).1) := by
  have hstart : Alongside q limit w l w l .due := .start
  have hnext := hstart.next
  rw [FillQuery.next] at hnext
  rw [Ledger.fills]
  generalize l.scan q.indexPrefix (some (limit + 1)) = r at hnext
  obtain ⟨r, l'⟩ := r
  cases r with
  | error e => exact hnext
  | ok rows => simpa using hnext.resolveFills

theorem sound (h : Alongside q limit w₀ l₀ w l stage) (h₀ : w₀.Reached l₀) :
    (∃ log, w.Durable l log) ∧ stage.Sound q l.store.table := by
  induction h with
  | start => exact ⟨h₀.exists_durable, trivial⟩
  | next _ ih =>
    obtain ⟨⟨log, hd⟩, hs⟩ := ih
    obtain ⟨s, hledger, htable, hnext⟩ := FillQuery.next_sound hd.logged.sound.table hs
    rw [hledger]
    exact ⟨⟨log, hd.world htable⟩, htable ▸ hnext⟩
  | world _ table ih =>
    obtain ⟨⟨log, hd⟩, hs⟩ := ih
    exact ⟨⟨log, hd.world table⟩, table ▸ hs⟩
  | write _ x now ih =>
    obtain ⟨⟨log, hd⟩, hs⟩ := ih
    exact ⟨⟨_, hd.write x now⟩, hs.mono (hd.stays (hd.write x now) (List.subset_append_left _ _))⟩
  | flush _ now ih =>
    obtain ⟨⟨log, hd⟩, hs⟩ := ih
    exact ⟨⟨_, hd.flush now⟩, hs.mono (hd.stays (hd.flush now) (List.subset_append_left _ _))⟩
  | resume _ schedule policy checkpoint owners ih =>
    obtain ⟨⟨log, hd⟩, hs⟩ := ih
    have hd' := hd.resume schedule policy checkpoint owners
    exact ⟨⟨log, hd'⟩, hs.mono (hd.stays hd' (List.Subset.refl log))⟩

end Alongside

/-- The indexes of a table and its events fit together, whatever calls the writer has got, and a query
ends in a page or in an error of the store, whatever calls it gets in between. -/
theorem Writer.Reached.queries_consistent {w : Writer} {l : Ledger} (h : w.Reached l) :
    l.store.table.Intact ∧
    (∀ q limit, (∃ page, (l.fills q limit).1 = .ok page) ∨
      ∃ cause, (l.fills q limit).1 = .error (.store cause)) ∧
    ∀ q limit w' l' result, Alongside q limit w l w' l' (.ended result) →
      (∃ page, result = .ok page) ∨ ∃ cause, result = .error (.store cause) := by
  obtain ⟨log, hd⟩ := h.exists_durable
  have hended {q : FillQuery} {limit : Nat} {w' : Writer} {l' : Ledger}
      {result : Except ReaderError FillPage} (hq : Alongside q limit w l w' l' (.ended result)) :
      (∃ page, result = .ok page) ∨ ∃ cause, result = .error (.store cause) := by
    cases result with
    | ok page => exact .inl ⟨page, rfl⟩
    | error e =>
      obtain ⟨cause, rfl⟩ := (hq.sound h).2 e rfl
      exact .inr ⟨cause, rfl⟩
  exact ⟨hd.logged.intact, fun q limit => hended (Alongside.fills q limit w l),
    fun q limit w' l' result hq => hended hq⟩

namespace ThreeFills
open TwoFills

def query : FillQuery := .byMarket (key 0)

/-- The first block is durable. -/
def before : Writer × Ledger := (first.1.flush first.2 .epoch).2

theorem reached : before.1.Reached before.2 := by
  have hstart : Writer.Reached writer ledger := .start .default .default rfl
  exact (hstart.write firstBlock .epoch).flush .epoch

theorem alongside :
    ∃ w l, Alongside query 5 before.1 before.2 w l (.ended (.ok ⟨[early], false⟩)) := by
  have hstart : Alongside query 5 before.1 before.2 before.1 before.2 .due := .start
  obtain ⟨w, l, stage, h, rfl⟩ : ∃ w l stage, Alongside query 5 before.1 before.2 w l stage ∧
      stage = .resolving [] [early] false :=
    ⟨_, _, _, ((hstart.next.write secondBlock .epoch).flush .epoch).next, by decide +kernel⟩
  exact ⟨w, l, h.next⟩

end ThreeFills

open ThreeFills in
/-- A query that a flush overtakes gives the fill that it saw in the index. -/
theorem Writer.queries_consistent_of_flush_between :
    before.2.store.table.Intact ∧
      ∃ w l result, Alongside query 5 before.1 before.2 w l (.ended result) ∧
        ∃ page, result = .ok page := by
  obtain ⟨hintact, _, hqueries⟩ := ThreeFills.reached.queries_consistent
  obtain ⟨w, l, hquery⟩ := alongside
  rcases hqueries _ _ _ _ _ hquery with hpage | ⟨cause, hcause⟩
  · exact ⟨hintact, w, l, _, hquery, hpage⟩
  · cases hcause

end DexIndex
