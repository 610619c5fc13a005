import DexIndex.Proofs.History.ReadBack
import DexIndex.Proofs.Lists
import DexIndex.Proofs.Writer.Durable

/-!
# Pages of fills

The keys of an index that a query selects are those of the fills that have become durable and that it
asks for, in the order of pages, and each of them finds the last fill that was written with its key
(`Writer.Logged.fills_found`). As long as no two fills have one key, these are the fills that are asked
for, and the queries agree with one another (`Writer.Durable.fill_pages`).
-/

namespace DexIndex

namespace FillRecord

/-- The order and the place of the fill. -/
def key (r : FillRecord) : FillKey := ⟨r.ref.order, r.ref.place⟩

/-- What is written for the fill. -/
def entry (r : FillRecord) : Entry := ⟨⟨r.ref, .fill r.account r.fill⟩, some r.trader⟩

theorem entry_injective : Function.Injective entry := by
  rintro ⟨trader, account, ref, fill⟩ ⟨trader', account', ref', fill'⟩ h
  cases h
  rfl

theorem key_of_entry_key {a b : FillRecord} (h : a.entry.key = b.entry.key) : a.key = b.key :=
  congrArg (fun k : OrderEventKey => FillKey.mk k.order k.place) h

end FillRecord

theorem Entry.exists_fill {p : Entry} (h : p.event.TradedBy p.trader) (ht : p.trader.isSome) :
    ∃ r : FillRecord, p = r.entry := by
  obtain ⟨⟨ref, kind⟩, trader⟩ := p
  obtain ⟨trader, rfl⟩ := Option.isSome_iff_exists.mp ht
  obtain ⟨account, fill, rfl⟩ := Event.exists_fill_of_type (h.mpr rfl)
  exact ⟨⟨trader, account, ref, fill⟩, rfl⟩

/-! ### Index keys -/

namespace FillQuery
variable {q : FillQuery} {r : FillRecord}

/-- Whether a fill is asked for. -/
def selects : FillQuery → FillRecord → Bool
  | byMarket market, r => r.ref.order.market = market
  | byTrader trader, r => r.trader = trader
  | byTraderMarket trader market, r => r.trader = trader && r.ref.order.market = market

/-- The key of a fill in the index of a query. -/
def indexKey : FillQuery → FillRecord → Bytes
  | byMarket _, r => r.key.encodeByMarket
  | byTrader _, r => r.key.encodeByTrader r.trader
  | byTraderMarket .., r => r.key.encodeByTraderMarket r.trader

theorem head?_indexKey (q : FillQuery) (r : FillRecord) :
    (q.indexKey r).head? = some q.family.tag := by
  cases q <;> rfl

theorem indexKey_mem (q : FillQuery) (r : FillRecord) :
    (q.indexKey r, []) ∈ FillKey.filings r.trader r.key := by
  cases q <;> simp [indexKey, FillKey.filings]

theorem indexPrefix_le_indexKey_iff : q.indexPrefix <+: q.indexKey r ↔ q.selects r := by
  cases q with
  | byMarket market =>
    rw [indexPrefix, indexKey, FillKey.marketPrefix_le_encode_iff, selects, decide_eq_true_iff]
    rfl
  | byTrader trader =>
    rw [indexPrefix, indexKey, FillKey.traderPrefix_le_encode_iff, selects, decide_eq_true_iff]
  | byTraderMarket trader market =>
    rw [indexPrefix, indexKey, FillKey.traderMarketPrefix_le_encode_iff, selects,
      Bool.and_eq_true, decide_eq_true_iff, decide_eq_true_iff]
    rfl

theorem eq_indexKey_of_mem {row : Row} (h : row ∈ FillKey.filings r.trader r.key)
    (hp : q.indexPrefix <+: row.1) : row.1 = q.indexKey r := by
  have htag := head?_of_indexPrefix_le hp
  have hfamily {f : Family} (hf : row.1.head? = some f.tag) : f = q.family :=
    Family.eq_of_tag_eq (Option.some.inj (hf.symm.trans htag))
  simp only [FillKey.filings, List.mem_cons, List.not_mem_nil, or_false] at h
  rcases h with rfl | rfl | rfl
  · have hq := hfamily (f := .fillByMarket) rfl
    cases q <;> first | rfl | cases hq
  · have hq := hfamily (f := .fillByTrader) rfl
    cases q <;> first | rfl | cases hq
  · have hq := hfamily (f := .fillByTraderMarket) rfl
    cases q <;> first | rfl | cases hq

theorem key_of_indexKey {a b : FillRecord} (h : q.indexKey a = q.indexKey b) : a.key = b.key := by
  have hdecode (r : FillRecord) : q.decodeKey (q.indexKey r) = .ok r.key :=
    q.decodeKey_of_mem (q.indexKey_mem r) (q.head?_indexKey r)
  have ha := hdecode a
  rw [h, hdecode b] at ha
  exact (Except.ok.inj ha).symm

theorem isOfEvent_of_tag (q : FillQuery) {key : Bytes} (h : key.head? = some q.family.tag) :
    isOfEvent key := by
  rw [isOfEvent, h]
  cases q <;> rfl

theorem indexKey_lt_iff {a b : FillRecord} (ha : q.selects a) (hb : q.selects b) :
    q.indexKey a < q.indexKey b ↔ a.key.Precedes b.key := by
  cases q with
  | byMarket market =>
    have hmarket : a.key.order.market = b.key.order.market :=
      (of_decide_eq_true ha).trans (of_decide_eq_true hb).symm
    exact FillKey.encodeByMarket_lt_iff hmarket
  | byTrader trader =>
    obtain rfl : a.trader = trader := of_decide_eq_true ha
    rw [indexKey, indexKey, of_decide_eq_true hb]
    exact FillKey.encodeByTrader_lt_iff a.trader
  | byTraderMarket trader market =>
    obtain ⟨ha, hma⟩ := Bool.and_eq_true_iff.mp ha
    obtain ⟨hb, hmb⟩ := Bool.and_eq_true_iff.mp hb
    have hmarket : a.key.order.market = b.key.order.market :=
      (of_decide_eq_true hma).trans (of_decide_eq_true hmb).symm
    obtain rfl : a.trader = trader := of_decide_eq_true ha
    rw [indexKey, indexKey, of_decide_eq_true hb]
    exact FillKey.encodeByTraderMarket_lt_iff a.trader hmarket

end FillQuery

/-! ### The index -/

/-- That the index key of a fill that a query asks for finds a fill: the last one that was written with
its key. -/
structure FillQuery.Resolves (q : FillQuery) (t : Table) (log : List Entry)
    (fill r : FillRecord) : Prop where
  asked : fill.entry ∈ log
  selected : q.selects fill
  key : fill.key = r.key
  latest : Entry.latest? log r.entry.key = some r.entry
  record : q.recordOf t (q.indexKey fill) = .ok r

/-- Whether a query finds a fill: the last one that was written with the key of one that it asks
for. -/
def FillQuery.Finds (q : FillQuery) (log : List Entry) (r : FillRecord) : Prop :=
  Entry.latest? log r.entry.key = some r.entry ∧
    ∃ asked : FillRecord, asked.entry ∈ log ∧ q.selects asked ∧ asked.key = r.key

namespace Entry
variable {log : List Entry}

/-- Whether no two different fills have one key. -/
def FillsApart (log : List Entry) : Prop :=
  ∀ a ∈ log, ∀ b ∈ log, a.event.type = .fill → b.event.type = .fill →
    FillKey.ofEvent a.event = FillKey.ofEvent b.event → a.event = b.event

end Entry

namespace Writer.Logged
variable {w : Writer} {l : Ledger} {log : List Entry}

theorem traded (h : Logged w l log) {p : Entry} (hp : p ∈ log) : p.event.TradedBy p.trader := by
  obtain ⟨hkept, hentry⟩ := h.known p hp
  have htraded := Event.tradedBy_traderWith hkept
  rwa [← show p.trader = p.event.traderWith l.cache.find? from congrArg Entry.trader hentry] at htraded

theorem exists_fill_of_tag (h : Logged w l log) {q : FillQuery} {key : Bytes}
    (hsome : (l.store.table.get? key).isSome) (htag : key.head? = some q.family.tag) :
    ∃ r : FillRecord, r.entry ∈ log ∧ ∃ row ∈ FillKey.filings r.trader r.key, row.1 = key := by
  obtain ⟨p, hp, row, hrow, rfl⟩ := (h.table.isSome_get?_iff (q.isOfEvent_of_tag htag)).mp hsome
  rcases List.mem_cons.mp hrow with rfl | hrow
  · have hfamily := Family.eq_of_tag_eq (a := .orderEvent) (Option.some.inj htag)
    cases q <;> cases hfamily
  · cases htrader : p.trader with
    | none =>
      rw [htrader] at hrow
      cases hrow
    | some trader =>
      rw [htrader] at hrow
      obtain ⟨r, rfl⟩ := Entry.exists_fill (h.traded hp) (by rw [htrader]; rfl)
      obtain rfl : r.trader = trader := Option.some.inj htrader
      exact ⟨r, hp, row, hrow, rfl⟩

theorem isSome_get?_indexKey_iff (h : Logged w l log) (q : FillQuery) {key : Bytes} :
    ((l.store.table.get? key).isSome ∧ q.indexPrefix <+: key) ↔
      ∃ r : FillRecord, r.entry ∈ log ∧ q.selects r ∧ q.indexKey r = key := by
  constructor
  · rintro ⟨hsome, hp⟩
    obtain ⟨r, hr, row, hrow, rfl⟩ := h.exists_fill_of_tag hsome (FillQuery.head?_of_indexPrefix_le hp)
    have hkey := FillQuery.eq_indexKey_of_mem hrow hp
    exact ⟨r, hr, FillQuery.indexPrefix_le_indexKey_iff.mp (hkey ▸ hp), hkey.symm⟩
  · rintro ⟨r, hr, hq, rfl⟩
    have hrow : (q.indexKey r, []) ∈ r.entry.rows := List.mem_cons_of_mem _ (q.indexKey_mem r)
    have hevent := q.isOfEvent_of_tag (q.head?_indexKey r)
    exact ⟨(h.table.isSome_get?_iff hevent).mpr ⟨r.entry, hr, _, hrow, rfl⟩,
      FillQuery.indexPrefix_le_indexKey_iff.mpr hq⟩

theorem exists_resolves (h : Logged w l log) {q : FillQuery} {asked : FillRecord}
    (hasked : asked.entry ∈ log) (hq : q.selects asked) :
    ∃ r, q.Resolves l.store.table log asked r := by
  obtain ⟨p, hlatest⟩ := Entry.exists_latest? hasked
  obtain ⟨hp, hsame⟩ := Entry.mem_of_latest? hlatest
  -- the key has the type of a fill in it, so that the last entry with it is one as well
  have htraded := h.traded hp
  obtain ⟨r, rfl⟩ := Entry.exists_fill htraded (htraded.mp (congrArg OrderEventKey.type hsame))
  have hkey : q.decodeKey (q.indexKey asked) = .ok asked.key :=
    q.decodeKey_of_mem (q.indexKey_mem asked) (q.head?_indexKey asked)
  have hget := h.table.get?_event asked.key.orderEvent
  rw [show asked.key.orderEvent = asked.entry.key from rfl, hlatest] at hget
  have hrecord : asked.key = r.key := FillRecord.key_of_entry_key hsame.symm
  refine ⟨r, ⟨hasked, hq, hrecord, hsame ▸ hlatest, ?_⟩⟩
  simp only [FillQuery.recordOf, hkey]
  rw [show asked.key.orderEvent = asked.entry.key from rfl, hget, hrecord]
  exact FillKey.resolve_ofEvent rfl

theorem mem_scan_keys_iff (h : Logged w l log) (q : FillQuery) {key : Bytes} :
    key ∈ (l.store.table.scan q.indexPrefix none).map (·.1) ↔
      ∃ r : FillRecord, (r.entry ∈ log ∧ q.selects r) ∧ q.indexKey r = key := by
  simp only [and_assoc]
  rw [← h.isSome_get?_indexKey_iff, List.mem_map, Option.isSome_iff_exists]
  constructor
  · rintro ⟨⟨_, value⟩, hrow, rfl⟩
    obtain ⟨hget, hp⟩ := Table.mem_scan_none.mp hrow
    exact ⟨⟨value, hget⟩, hp⟩
  · rintro ⟨⟨value, hget⟩, hp⟩
    exact ⟨(key, value), Table.mem_scan_none.mpr ⟨hget, hp⟩, rfl⟩

theorem scan_fills (h : Logged w l log) (q : FillQuery) :
    ∃ pairs : List (FillRecord × FillRecord),
      pairs.map (fun p => q.indexKey p.1) = (l.store.table.scan q.indexPrefix none).map (·.1) ∧
        (∀ p ∈ pairs, q.Resolves l.store.table log p.1 p.2) ∧
        (pairs.map (·.2)).Pairwise fun a b => a.key.Precedes b.key := by
  obtain ⟨pairs, hkeys, hpairs⟩ : ∃ pairs : List (FillRecord × FillRecord),
      pairs.map (fun p => q.indexKey p.1) = (l.store.table.scan q.indexPrefix none).map (·.1) ∧
        ∀ p ∈ pairs, q.Resolves l.store.table log p.1 p.2 := by
    refine Lists.exists_map_eq fun key hkey => ?_
    obtain ⟨asked, ⟨hasked, hq⟩, rfl⟩ := (h.mem_scan_keys_iff q).mp hkey
    obtain ⟨r, hr⟩ := h.exists_resolves hasked hq
    exact ⟨(asked, r), hr, rfl⟩
  refine ⟨pairs, hkeys, hpairs, ?_⟩
  have hsorted : (pairs.map fun p => q.indexKey p.1).Pairwise (· < ·) := by
    rw [hkeys, List.pairwise_map]
    exact l.store.table.sorted_scan_none q.indexPrefix
  refine List.pairwise_map.mpr ((List.pairwise_map.mp hsorted).imp_of_mem fun ha hb hlt => ?_)
  rw [← (hpairs _ ha).key, ← (hpairs _ hb).key]
  exact (FillQuery.indexKey_lt_iff (hpairs _ ha).selected (hpairs _ hb).selected).mp hlt

theorem fills_found (h : Logged w l log) (q : FillQuery) :
    ∃ all : List FillRecord,
      all.Pairwise (fun a b => a.key.Precedes b.key) ∧
        (∀ r, r ∈ all ↔ q.Finds log r) ∧
        ∀ limit, l.store.table.fills q limit = .ok ⟨all.take limit, limit < all.length⟩ := by
  obtain ⟨pairs, hkeys, hpairs, hsorted⟩ := h.scan_fills q
  refine ⟨pairs.map (·.2), hsorted, fun r => ⟨fun hr => ?_, fun hr => ?_⟩, fun limit => ?_⟩
  · obtain ⟨p, hp, rfl⟩ := List.mem_map.mp hr
    have hr := hpairs p hp
    exact ⟨hr.latest, p.1, hr.asked, hr.selected, hr.key⟩
  · obtain ⟨hlatest, asked, hasked, hq, hsame⟩ := hr
    have hkey := (h.mem_scan_keys_iff q).mpr ⟨asked, ⟨hasked, hq⟩, rfl⟩
    rw [← hkeys] at hkey
    obtain ⟨p, hp, hindex⟩ := List.mem_map.mp hkey
    -- both are the last ones with one key
    have hone : p.2.key = r.key :=
      (hpairs p hp).key.symm.trans ((FillQuery.key_of_indexKey hindex).trans hsame)
    have hentry : p.2.entry.key = r.entry.key := congrArg FillKey.orderEvent hone
    have hlatest' := (hpairs p hp).latest
    rw [hentry, hlatest] at hlatest'
    exact List.mem_map.mpr ⟨p, hp, (FillRecord.entry_injective (Option.some.inj hlatest')).symm⟩
  · have hlength : (l.store.table.scan q.indexPrefix none).length = pairs.length := by
      rw [← List.length_map (f := (·.1)), ← hkeys, List.length_map]
    have hfound : ((pairs.take limit).map fun p => q.indexKey p.1).mapM
        (q.recordOf l.store.table) = .ok ((pairs.take limit).map (·.2)) := by
      rw [Results.mapM_eq_ok, List.map_map, List.map_map]
      exact List.map_congr_left fun p hp => (hpairs p (List.mem_of_mem_take hp)).record
    rw [Table.fills, Ledger.fills_eq rfl]
    change Except.map (fun fills => FillPage.mk fills
      (limit < (l.store.table.scan q.indexPrefix none).length))
        (((((l.store.table.scan q.indexPrefix none).map (·.1)).take limit).mapM
          (q.recordOf l.store.table))) = _
    rw [← hkeys, ← List.map_take, hfound, hlength, ← List.map_take, List.length_map]
    rfl

/-- Where no two fills have one key, a query finds each fill that it asks for. -/
theorem finds_iff (h : Logged w l log) (hone : Entry.FillsApart log) {q : FillQuery}
    {r : FillRecord} : q.Finds log r ↔ r.entry ∈ log ∧ q.selects r := by
  have heq {p : Entry} {r : FillRecord} (hp : p ∈ log) (hr : r.entry ∈ log)
      (hsame : p.key = r.entry.key) : p = r.entry := by
    have hevent : p.event = r.entry.event := by
      refine hone p hp r.entry hr (congrArg OrderEventKey.type hsame) rfl ?_
      simp only [FillKey.ofEvent, FillKey.mk.injEq]
      exact ⟨congrArg OrderEventKey.order hsame, congrArg OrderEventKey.place hsame⟩
    rw [(h.known p hp).2, (h.known _ hr).2, hevent]
  constructor
  · rintro ⟨hlatest, asked, hasked, hq, hsame⟩
    have hr := (Entry.mem_of_latest? hlatest).1
    obtain rfl := FillRecord.entry_injective (heq hasked hr (congrArg FillKey.orderEvent hsame))
    exact ⟨hr, hq⟩
  · rintro ⟨hr, hq⟩
    exact ⟨Entry.latest?_eq_self hr fun p hp hsame => heq hp hr hsame, r, hr, hq, rfl⟩

theorem fills_ok (h : Logged w l log) (hone : Entry.FillsApart log) (q : FillQuery) :
    ∃ all : List FillRecord,
      all.Pairwise (fun a b => a.key.Precedes b.key) ∧
        (∀ r, r ∈ all ↔ r.entry ∈ log ∧ q.selects r) ∧
        ∀ limit, l.store.table.fills q limit = .ok ⟨all.take limit, limit < all.length⟩ := by
  obtain ⟨all, hsorted, hmem, hpages⟩ := h.fills_found q
  exact ⟨all, hsorted, fun r => (hmem r).trans (h.finds_iff hone), hpages⟩

end Writer.Logged

/-! ### Pages -/

/-- Fills in the order of pages are told by which there are. -/
theorem FillRecord.eq_of_pairwise_precedes {a b : List FillRecord}
    (ha : a.Pairwise fun x y => x.key.Precedes y.key)
    (hb : b.Pairwise fun x y => x.key.Precedes y.key) (h : ∀ r, r ∈ a ↔ r ∈ b) : a = b := by
  have hirrefl : Std.Irrefl fun x y : FillRecord => x.key.Precedes y.key :=
    ⟨fun x => x.key.not_precedes_self⟩
  have hantisymm : Std.Antisymm fun x y : FillRecord => x.key.Precedes y.key :=
    ⟨fun x y hxy hyx => absurd hyx hxy.not_flip⟩
  exact List.Pairwise.eq_of_mem_iff ha hb h

theorem FillRecord.nodup_of_pairwise_precedes {a : List FillRecord}
    (h : a.Pairwise fun x y => x.key.Precedes y.key) : a.Nodup :=
  h.imp fun {x y} hxy (heq : x = y) => y.key.not_precedes_self (heq ▸ hxy)

theorem FillRecord.length_le {all : List FillRecord} {log : List Entry} (hnodup : all.Nodup)
    (h : ∀ r ∈ all, r.entry ∈ log) : all.length ≤ log.length := by
  rw [← List.length_map (f := FillRecord.entry)]
  refine (List.subperm_of_subset (hnodup.map FillRecord.entry_injective) fun p hp => ?_).length_le
  obtain ⟨r, hr, rfl⟩ := List.mem_map.mp hp
  exact h r hr

theorem Writer.Logged.fills_whole {w : Writer} {l : Ledger} {log : List Entry} (h : Logged w l log)
    (hone : Entry.FillsApart log) (q : FillQuery) {limit : Nat} (hlimit : log.length ≤ limit) :
    ∃ all : List FillRecord,
      all.Pairwise (fun a b => a.key.Precedes b.key) ∧
        (∀ r, r ∈ all ↔ r.entry ∈ log ∧ q.selects r) ∧
        l.store.table.fills q limit = .ok ⟨all, false⟩ := by
  obtain ⟨all, hsorted, hmem, hpages⟩ := h.fills_ok hone q
  have hlength : all.length ≤ limit :=
    (FillRecord.length_le (FillRecord.nodup_of_pairwise_precedes hsorted)
      fun r hr => ((hmem r).mp hr).1).trans hlimit
  refine ⟨all, hsorted, hmem, ?_⟩
  rw [hpages, List.take_of_length_le hlength, decide_eq_false (Nat.not_lt.mpr hlength)]

/-- As no table has more rows than a limit can count, a limit that stays at its bound selects the same
rows as one that does not. -/
theorem Table.scan_saturating {t : Table} {bound : Nat} (h : t.size ≤ bound) (p : Bytes)
    (limit : Nat) : t.scan p (some (min (limit + 1) bound)) = t.scan p (some (limit + 1)) := by
  have hlength : (t.scan p none).length ≤ bound := (List.length_filter_le _ _).trans h
  change (t.scan p none).take (min (limit + 1) bound) = (t.scan p none).take (limit + 1)
  rw [List.take_eq_take_iff]
  omega

/-- Where no two different fills have one key, the fills that a query asks for are those among all that
have become durable, and any page has the first of them, newest slot first, each once and with the owner
that the store has for its account, and tells whether there are more. The fills of a trader in
a market are those of the market that are the trader's, and those of the trader that are in the
market. -/
theorem Writer.Durable.fill_pages {w : Writer} {l : Ledger} {log : List Entry}
    (h : Durable w l log) (hone : Entry.FillsApart log) :
    (∀ q : FillQuery, ∃ all : List FillRecord,
      all.Nodup ∧ all.Pairwise (fun a b => a.key.Precedes b.key) ∧
      (∀ r, r ∈ all ↔ r.entry ∈ log ∧ q.selects r) ∧
      (∀ r ∈ all, l.store.table.get? (Ownership.encodeKey r.account) =
        some (Ownership.encodeTrader r.trader)) ∧
      ∀ limit, l.store.table.fills q limit = .ok ⟨all.take limit, limit < all.length⟩) ∧
    (∀ (q : FillQuery) (limit bound : Nat), l.store.table.size ≤ bound →
      l.store.table.scan q.indexPrefix (some (min (limit + 1) bound)) =
        l.store.table.scan q.indexPrefix (some (limit + 1))) ∧
    ∀ (trader market : PublicKey) (limit : Nat), log.length ≤ limit →
      ∃ ofMarket ofTrader : List FillRecord,
        l.store.table.fills (.byMarket market) limit = .ok ⟨ofMarket, false⟩ ∧
        l.store.table.fills (.byTrader trader) limit = .ok ⟨ofTrader, false⟩ ∧
        l.store.table.fills (.byTraderMarket trader market) limit =
          .ok ⟨ofMarket.filter (·.trader = trader), false⟩ ∧
        ofMarket.filter (·.trader = trader) = ofTrader.filter (·.ref.order.market = market) := by
  have hl := h.logged
  refine ⟨fun q => ?_, fun q limit bound hsize => Table.scan_saturating hsize _ limit,
    fun trader market limit hlimit => ?_⟩
  · obtain ⟨all, hsorted, hmem, hpages⟩ := hl.fills_ok hone q
    refine ⟨all, FillRecord.nodup_of_pairwise_precedes hsorted, hsorted, hmem, fun r hr => ?_, hpages⟩
    exact hl.stored r.entry ((hmem r).mp hr).1 r.account r.fill rfl
  · obtain ⟨ofMarket, hsm, hmm, hpm⟩ := hl.fills_whole hone (.byMarket market) hlimit
    obtain ⟨ofTrader, hst, hmt, hpt⟩ := hl.fills_whole hone (.byTrader trader) hlimit
    obtain ⟨both, hsb, hmb, hpb⟩ := hl.fills_whole hone (.byTraderMarket trader market) hlimit
    have hm : both = ofMarket.filter (·.trader = trader) := by
      refine FillRecord.eq_of_pairwise_precedes hsb (hsm.filter _) fun r => ?_
      rw [List.mem_filter, hmb, hmm]
      simp only [FillQuery.selects, Bool.and_eq_true]
      tauto
    have ht : both = ofTrader.filter (·.ref.order.market = market) := by
      refine FillRecord.eq_of_pairwise_precedes hsb (hst.filter _) fun r => ?_
      rw [List.mem_filter, hmb, hmt]
      simp only [FillQuery.selects, Bool.and_eq_true]
      tauto
    exact ⟨ofMarket, ofTrader, hpm, hpt, hm ▸ hpb, hm ▸ ht⟩

namespace ThreeFills
open TwoFills

/-- A fill of an order at the start of a slot. -/
def record (trader account market : PublicKey) (seq slot : UInt64) : FillRecord :=
  ⟨trader, account, ⟨⟨market, seq⟩, ⟨slot, 0, 0⟩, "", .epoch⟩, ⟨.bid, false, 7, 1, 0, 0, 0, 0, ""⟩⟩

def early : FillRecord := record (key 4) (key 1) (key 0) 6 10

def elsewhere : FillRecord := record (key 4) (key 1) (key 7) 3 10

def late : FillRecord := record (key 5) (key 2) (key 0) 8 11

def firstBlock : BlockEvents :=
  ⟨10, "", .epoch, [early.entry.event, elsewhere.entry.event], [⟨key 1, key 4⟩], 0⟩

def secondBlock : BlockEvents := ⟨11, "", .epoch, [late.entry.event], [⟨key 2, key 5⟩], 0⟩

def first : Writer × Ledger := (writer.writeBlock ledger firstBlock .epoch).2

def second : Writer × Ledger := (first.1.writeBlock first.2 secondBlock .epoch).2

def flushed : Writer × Ledger := (second.1.flush second.2 .epoch).2

def log : List Entry := [early.entry, elsewhere.entry, late.entry]

theorem durable : Writer.Durable flushed.1 flushed.2 log := by
  have hstart : Writer.Durable writer ledger [] := .start .default .default rfl
  have h := ((hstart.write firstBlock .epoch).write secondBlock .epoch).flush .epoch
  have hlog : [] ++ Writer.landed ledger.store.table (writer.writeBlock ledger firstBlock .epoch) ++
      Writer.landed first.2.store.table (first.1.writeBlock first.2 secondBlock .epoch) ++
        Writer.landed second.2.store.table (second.1.flush second.2 .epoch) = log := by
    decide +kernel
  exact hlog ▸ h

theorem mem_log_iff {r : FillRecord} :
    r.entry ∈ log ↔ r = early ∨ r = elsewhere ∨ r = late := by
  simp [log, FillRecord.entry_injective.eq_iff]

end ThreeFills

open ThreeFills TwoFills in
/-- Of the two fills of a market the newer one is on a page for one fill. -/
theorem Writer.fill_pages_of_three_fills :
    Entry.FillsApart ThreeFills.log ∧
      ThreeFills.flushed.2.store.table.fills (.byMarket (key 0)) 1 = .ok ⟨[late], true⟩ := by
  have hone : Entry.FillsApart ThreeFills.log := by
    unfold Entry.FillsApart
    decide +kernel
  obtain ⟨all, _, hsorted, hmem, _, hpages⟩ :=
    (ThreeFills.durable.fill_pages hone).1 (.byMarket (key 0))
  have hall : all = [late, early] := by
    have hpair : [late, early].Pairwise fun a b => a.key.Precedes b.key := by
      refine List.pairwise_pair.mpr ?_
      exact .inl (by decide)
    refine FillRecord.eq_of_pairwise_precedes hsorted hpair fun r => ?_
    rw [hmem, mem_log_iff, List.mem_pair]
    constructor
    · rintro ⟨rfl | rfl | rfl, hq⟩
      · exact .inr rfl
      · exact absurd hq (by decide)
      · exact .inl rfl
    · rintro (rfl | rfl)
      · exact ⟨.inr (.inr rfl), by decide⟩
      · exact ⟨.inl rfl, by decide⟩
  have hpage := hpages 1
  rw [hall] at hpage
  exact ⟨hone, hpage⟩

end DexIndex
