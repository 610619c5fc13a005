import DexIndex.Proofs.Writer.Backed

/-!
# The rows of written events

What a table has of events is said by a list of entries, each an event with the trader that is kept
with it, in the order in which they were written (`Table.Holds`). Under the key of an event stands the
last entry with this key (`Table.Holds.get?_event`), and the rows of the indexes are those of the
fills among the entries (`Table.Holds.isSome_get?_iff`).
-/

namespace DexIndex

/-- Whether a key is that of an event row or of an index: neither of an owner nor of the checkpoint. -/
def isOfEvent (key : Bytes) : Bool :=
  key.head? != some Family.tradingAccount.tag && key.head? != some Family.checkpoint.tag

theorem isOfEvent_orderEvent (k : OrderEventKey) : isOfEvent k.encode := rfl

/-- An event as it is written. -/
structure Entry where
  event : Event
  trader : Option PublicKey
deriving DecidableEq

/-- An event with the trader that `owner` gives to it. -/
def Event.entry (owner : PublicKey → Option PublicKey) (e : Event) : Entry :=
  ⟨e, e.traderWith owner⟩

namespace Entry

def key (p : Entry) : OrderEventKey := .ofEvent p.event

/-- The row under the key of the event. -/
def mainRow (p : Entry) : Row := p.event.mainRow p.trader

/-- The row of the event, and for a fill those of the indexes. -/
def rows (p : Entry) : List Row :=
  p.mainRow ::
    match p.trader with
    | some trader => FillKey.filings trader ⟨p.event.ref.order, p.event.ref.place⟩
    | none => []

/-- The rows of several entries, one after another. -/
def allRows (log : List Entry) : List Row := log.flatMap rows

/-- The last entry with a key. -/
def latest? (log : List Entry) (k : OrderEventKey) : Option Entry :=
  (log.filter (·.key = k)).getLast?

@[simp] theorem allRows_append (a b : List Entry) : allRows (a ++ b) = allRows a ++ allRows b :=
  List.flatMap_append

@[simp] theorem allRows_singleton (p : Entry) : allRows [p] = p.rows := by simp [allRows]

theorem isOfEvent_of_mem_rows {p : Entry} {r : Row} (h : r ∈ p.rows) : isOfEvent r.1 := by
  rcases Event.tag_of_mem_eventRows h with h | h | h | h <;> simp [isOfEvent, h] <;> decide

theorem filter_rows (p : Entry) : p.rows.filter (isOfEvent ·.1) = p.rows :=
  List.filter_eq_self.mpr fun _ h => isOfEvent_of_mem_rows h

theorem latest?_append_singleton (log : List Entry) (p : Entry) (k : OrderEventKey) :
    latest? (log ++ [p]) k = if p.key = k then some p else latest? log k := by
  unfold latest?
  rw [List.filter_append]
  by_cases h : p.key = k <;> simp [h]

theorem mem_of_latest? {log : List Entry} {k : OrderEventKey} {p : Entry}
    (h : latest? log k = some p) : p ∈ log ∧ p.key = k := by
  simpa using List.mem_filter.mp (List.mem_of_getLast? h)

theorem latest?_eq_none_iff {log : List Entry} {k : OrderEventKey} :
    latest? log k = none ↔ ∀ p ∈ log, p.key ≠ k := by
  simp [latest?]

theorem exists_latest? {log : List Entry} {p : Entry} (h : p ∈ log) :
    ∃ q, latest? log p.key = some q := by
  refine Option.ne_none_iff_exists'.mp fun hnone => ?_
  exact latest?_eq_none_iff.mp hnone p h rfl

/-- Of entries with one key, the last one stands if there is no other. -/
theorem latest?_eq_self {log : List Entry} {p : Entry} (h : p ∈ log)
    (hone : ∀ q ∈ log, q.key = p.key → q = p) : latest? log p.key = some p := by
  obtain ⟨q, hq⟩ := exists_latest? h
  obtain ⟨hmem, hkey⟩ := mem_of_latest? hq
  rw [hq, hone q hmem hkey]

/-! ### What the rows leave in a table -/

theorem mainRow_mem_rows (p : Entry) : p.mainRow ∈ p.rows := List.mem_cons_self

/-- Of the rows of an entry only one has the key of an event. -/
theorem get?_insertAll_rows (t : Table) (p : Entry) (k : OrderEventKey) :
    (t.insertAll p.rows).get? k.encode =
      if p.key = k then some (StoredEvent.ofEvent p.event p.trader).encode
      else t.get? k.encode := by
  by_cases hkey : p.key = k
  · obtain ⟨value, hget, hmem⟩ := Table.exists_get?_insertAll t p.mainRow_mem_rows
    obtain ⟨_, rfl⟩ := Prod.mk.inj (Event.eq_mainRow_of_mem hmem rfl)
    rw [if_pos hkey, ← hkey]
    exact hget
  · rw [if_neg hkey, Table.get?_insertAll_of_not_mem]
    intro hmem
    obtain ⟨r, hr, hrkey⟩ := List.mem_map.mp hmem
    have hmain := Event.eq_mainRow_of_mem hr (hrkey ▸ rfl)
    exact hkey (OrderEventKey.encode_injective ((congrArg Prod.fst hmain).symm.trans hrkey))

theorem get?_allRows (log : List Entry) (k : OrderEventKey) :
    (Table.empty.insertAll (allRows log)).get? k.encode =
      (latest? log k).map fun p => (StoredEvent.ofEvent p.event p.trader).encode := by
  induction log using List.reverseRecOn with
  | nil => rfl
  | append_singleton log p ih =>
    rw [allRows_append, allRows_singleton, Table.insertAll_append, get?_insertAll_rows, ih,
      latest?_append_singleton]
    split <;> rfl

end Entry

/-- A table that has of events just the rows of entries, put into it in this order. -/
def Table.Holds (t : Table) (log : List Entry) : Prop :=
  ∀ key, isOfEvent key → t.get? key = (Table.empty.insertAll (Entry.allRows log)).get? key

namespace Table.Holds
variable {t : Table} {log : List Entry}

theorem empty : Table.empty.Holds [] := fun _ _ => rfl

theorem insertAll (h : t.Holds log) {batch : List Row} {new : List Entry}
    (hbatch : batch.filter (isOfEvent ·.1) = Entry.allRows new) :
    (t.insertAll batch).Holds (log ++ new) := by
  intro key hkey
  rw [← get?_insertAll_filter t hkey, hbatch, Entry.allRows_append, Table.insertAll_append,
    get?_insertAll, get?_insertAll, h key hkey]

/-- Under the key of an event stands the last entry with this key. -/
theorem get?_event (h : t.Holds log) (k : OrderEventKey) :
    t.get? k.encode =
      (Entry.latest? log k).map fun p => (StoredEvent.ofEvent p.event p.trader).encode := by
  rw [h _ (isOfEvent_orderEvent k), Entry.get?_allRows]

/-- The keys of events and indexes are those of the rows of entries. -/
theorem isSome_get?_iff (h : t.Holds log) {key : Bytes} (hkey : isOfEvent key) :
    (t.get? key).isSome ↔ ∃ p ∈ log, ∃ r ∈ p.rows, r.1 = key := by
  rw [h key hkey]
  constructor
  · intro hsome
    obtain ⟨value, hvalue⟩ := Option.isSome_iff_exists.mp hsome
    rcases mem_of_get?_insertAll hvalue with hmem | hnone
    · obtain ⟨p, hp, hr⟩ := List.mem_flatMap.mp hmem
      exact ⟨p, hp, _, hr, rfl⟩
    · cases hnone
  · rintro ⟨p, hp, r, hr, rfl⟩
    exact isSome_get?_insertAll (List.mem_flatMap.mpr ⟨p, hp, hr⟩)

end Table.Holds

end DexIndex
