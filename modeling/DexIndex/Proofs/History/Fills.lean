import DexIndex.Proofs.History.Orders

/-!
# Fills read back

A page of fills is read off the index row by row (`Ledger.fills_eq`), and where the rows of an event
stand together, every row of an index names a fill that is there (`Table.Backed.fills_ok`), so that a
page is never an error.
-/

namespace DexIndex

/-! ### Rows of the indexes -/

namespace FillQuery

/-- The index of a query. -/
def family : FillQuery → Family
  | byMarket _ => .fillByMarket
  | byTrader _ => .fillByTrader
  | byTraderMarket .. => .fillByTraderMarket

theorem head?_of_indexPrefix_le {q : FillQuery} {key : Bytes} (h : q.indexPrefix <+: key) :
    key.head? = some q.family.tag := by
  obtain ⟨rest, rfl⟩ := h
  cases q <;> rfl

theorem decodeKey_of_mem (q : FillQuery) {trader : PublicKey} {k : FillKey} {r : Row}
    (h : r ∈ FillKey.filings trader k) (htag : r.1.head? = some q.family.tag) :
    q.decodeKey r.1 = .ok k := by
  simp only [FillKey.filings, List.mem_cons, List.not_mem_nil, or_false] at h
  cases q with
  | byMarket market =>
    rcases h with rfl | rfl | rfl
    · exact k.decodeByMarket_encodeByMarket
    · cases Family.eq_of_tag_eq (a := .fillByTrader) (Option.some.inj htag)
    · cases Family.eq_of_tag_eq (a := .fillByTraderMarket) (Option.some.inj htag)
  | byTrader _ =>
    rcases h with rfl | rfl | rfl
    · cases Family.eq_of_tag_eq (a := .fillByMarket) (Option.some.inj htag)
    · rw [decodeKey, k.decodeByTrader_encodeByTrader trader]
      rfl
    · cases Family.eq_of_tag_eq (a := .fillByTraderMarket) (Option.some.inj htag)
  | byTraderMarket _ _ =>
    rcases h with rfl | rfl | rfl
    · cases Family.eq_of_tag_eq (a := .fillByMarket) (Option.some.inj htag)
    · cases Family.eq_of_tag_eq (a := .fillByTrader) (Option.some.inj htag)
    · rw [decodeKey, k.decodeByTraderMarket_encodeByTraderMarket trader]
      rfl

/-- The fill that an index key finds in a table. -/
def recordOf (q : FillQuery) (t : Table) (key : Bytes) : Except ReaderError FillRecord :=
  match q.decodeKey key with
  | .error e => .error (.codec e)
  | .ok k => k.resolve (t.get? k.orderEvent.encode)

end FillQuery

theorem Event.exists_fill_of_type {e : Event} (h : e.type = .fill) :
    ∃ account fill, e.kind = .fill account fill := by
  obtain ⟨ref, kind⟩ := e
  cases kind with
  | fill account fill => exact ⟨account, fill, rfl⟩
  | _ => cases h

theorem FillKey.resolve_ofEvent {e : Event} {account trader : PublicKey} {fill : Fill}
    (h : e.kind = .fill account fill) :
    (FillKey.ofEvent e).resolve (some (StoredEvent.ofEvent e (some trader)).encode) =
      .ok ⟨trader, account, e.ref, fill⟩ := by
  simp only [resolve, StoredEvent.decode_encode, StoredEvent.ofEvent, h]
  rfl

namespace Table.Backed
variable {t : Table}

theorem resolve_ok (h : t.Backed) {k : FillKey} (hk : (t.get? k.orderEvent.encode).isSome) :
    ∃ record, k.resolve (t.get? k.orderEvent.encode) = .ok record := by
  obtain ⟨value, hvalue⟩ := Option.isSome_iff_exists.mp hk
  obtain ⟨e, trader, ht, hrow⟩ := h.event_of_get? hvalue rfl
  obtain ⟨hkey, rfl⟩ := Prod.mk.inj hrow
  have hkey := OrderEventKey.encode_injective hkey
  have htype : e.type = .fill := (congrArg OrderEventKey.type hkey).symm
  obtain rfl : k = FillKey.ofEvent e := by
    obtain ⟨order, place⟩ := k
    exact congr (congrArg FillKey.mk (congrArg OrderEventKey.order hkey))
      (congrArg OrderEventKey.place hkey)
  obtain ⟨account, fill, hkind⟩ := Event.exists_fill_of_type htype
  obtain ⟨trader, rfl⟩ := Option.isSome_iff_exists.mp (ht.mp htype)
  exact ⟨_, hvalue ▸ FillKey.resolve_ofEvent hkind⟩

theorem recordOf_ok (h : t.Backed) (q : FillQuery) {r : Row}
    (hr : r ∈ t.scan q.indexPrefix none) : ∃ record, q.recordOf t r.1 = .ok record := by
  obtain ⟨key, value⟩ := r
  obtain ⟨hget, hp⟩ := Table.mem_scan_none.mp hr
  have htag := FillQuery.head?_of_indexPrefix_le hp
  rcases h.cases hget with ⟨o, hrow⟩ | ⟨c, hrow⟩ | ⟨e, trader, ht, hrow, hall⟩
  · obtain ⟨rfl, _⟩ := Prod.mk.inj hrow
    have hfamily := Family.eq_of_tag_eq (a := .tradingAccount) (Option.some.inj htag)
    cases q <;> cases hfamily
  · obtain ⟨rfl, _⟩ := Prod.mk.inj hrow
    have hfamily := Family.eq_of_tag_eq (a := .checkpoint) (Option.some.inj htag)
    cases q <;> cases hfamily
  · rcases List.mem_cons.mp hrow with hrow | hrow
    · obtain ⟨rfl, _⟩ := Prod.mk.inj hrow
      have hfamily := Family.eq_of_tag_eq (a := .orderEvent) (Option.some.inj htag)
      cases q <;> cases hfamily
    · cases trader with
      | none => cases hrow
      | some trader =>
        have hevent : (t.get? (FillKey.ofEvent e).orderEvent.encode).isSome := by
          have hmain := hall _ List.mem_cons_self
          rwa [OrderEventKey.ofEvent, ht.mpr rfl] at hmain
        obtain ⟨record, hrecord⟩ := h.resolve_ok hevent
        refine ⟨record, ?_⟩
        rw [FillQuery.recordOf, q.decodeKey_of_mem hrow htag]
        exact hrecord

end Table.Backed

/-- A page of fills in a table. -/
def Table.fills (t : Table) (q : FillQuery) (limit : Nat) : Except ReaderError FillPage :=
  ((Ledger.ofStore (.ofTable t)).fills q limit).1

namespace Ledger
variable {l : Ledger}

theorem resolveFills_eq (hl : l.store.reads = []) (q : FillQuery) (keys : List Bytes) :
    resolveFills q l keys = (keys.mapM (q.recordOf l.store.table), l) := by
  induction keys with
  | nil => rfl
  | cons key rest ih =>
    rw [resolveFills, List.mapM_cons, FillQuery.recordOf]
    cases q.decodeKey key with
    | error e => rfl
    | ok k =>
      simp only [get_eq hl]
      cases k.resolve (l.store.table.get? k.orderEvent.encode) with
      | error e => rfl
      | ok record =>
        simp only [ih]
        cases rest.mapM (q.recordOf l.store.table) <;> rfl

theorem fills_eq (hl : l.store.reads = []) (q : FillQuery) (limit : Nat) :
    l.fills q limit =
      (((((l.store.table.scan q.indexPrefix none).map (·.1)).take limit).mapM
        (q.recordOf l.store.table)).map fun fills =>
          { fills, hasMore := limit < (l.store.table.scan q.indexPrefix none).length }, l) := by
  have hscan : l.store.table.scan q.indexPrefix (some (limit + 1)) =
      (l.store.table.scan q.indexPrefix none).take (limit + 1) := rfl
  have hmore : (limit < min (limit + 1) (l.store.table.scan q.indexPrefix none).length) =
      (limit < (l.store.table.scan q.indexPrefix none).length) := by
    rw [Nat.lt_min]
    exact propext (and_iff_right (Nat.lt_succ_self limit))
  simp only [fills, scan_eq hl, resolveFills_eq hl, hscan, List.take_take, List.map_take,
    List.length_take, hmore, Nat.min_eq_left (Nat.le_succ limit)]

/-- A page of a table whose rows stand together is never an error. -/
theorem fills_ok (hl : l.store.reads = []) (h : l.store.table.Backed) (q : FillQuery)
    (limit : Nat) :
    ∃ fills : List FillRecord,
      (((l.store.table.scan q.indexPrefix none).map (·.1)).take limit).map
          (q.recordOf l.store.table) = fills.map .ok ∧
        l.fills q limit =
          (.ok ⟨fills, limit < (l.store.table.scan q.indexPrefix none).length⟩, l) := by
  have hall : ∀ key ∈ ((l.store.table.scan q.indexPrefix none).map (·.1)).take limit,
      ∃ record, q.recordOf l.store.table key = .ok record := by
    intro key hkey
    obtain ⟨r, hr, rfl⟩ := List.mem_map.mp (List.mem_of_mem_take hkey)
    exact h.recordOf_ok q hr
  obtain ⟨fills, hfills⟩ := Results.exists_mapM_eq_ok hall
  refine ⟨fills, Results.mapM_eq_ok.mp hfills, ?_⟩
  rw [fills_eq hl, hfills]
  rfl

end Ledger

end DexIndex
