import DexIndex.Proofs.Extraction.Harvest
import DexIndex.Proofs.History.Fills
import DexIndex.Proofs.Writer.Written

/-!
# Which extracted events are read back

An event that a block leaves is read back if it is in the history of its order and, where it is a
fill, in the pages of its market (`Event.ReadBack`). The key of an event names no more of it than its
order, its place and its type, so that the events of an instruction that have order and type in common
are written over one another. Nothing else is lost: the events of a block are all read back just if no
instruction has two different ones of this kind (`Writer.Reached.extracted_readBack_iff`).
-/

namespace DexIndex

open Extraction

/-- Whether an event is read back from a table, where `owner` tells who owns an account. -/
structure Event.ReadBack (t : Table) (owner : PublicKey → Option PublicKey) (e : Event) : Prop where
  order : ∃ es, t.orderEvents e.order = .ok es ∧ e ∈ es
  fill : ∀ account fill, e.kind = .fill account fill → ∃ trader, owner account = some trader ∧
    ∀ limit, t.size ≤ limit → ∃ fills, t.fills (.byMarket e.order.market) limit = .ok ⟨fills, false⟩ ∧
      ⟨trader, account, e.ref, fill⟩ ∈ fills

namespace Table.Backed
variable {t : Table} {owner : PublicKey → Option PublicKey} {e : Event}

theorem mem_orderEvents_iff (h : t.Backed) :
    (∃ es, t.orderEvents e.order = .ok es ∧ e ∈ es) ↔
      ∃ trader, t.get? (OrderEventKey.ofEvent e).encode =
        some (StoredEvent.ofEvent e trader).encode := by
  obtain ⟨es, hread, _, hmem⟩ := h.orderEvents_ok e.order
  constructor
  · rintro ⟨es', hes', he⟩
    cases hread.symm.trans hes'
    exact ((hmem e).mp he).2
  · intro htrader
    exact ⟨es, hread, (hmem e).mpr ⟨rfl, htrader⟩⟩

theorem readBack (h : t.Backed) (hkept : e.isKept owner)
    (hget : t.get? (OrderEventKey.ofEvent e).encode =
      some (StoredEvent.ofEvent e (e.traderWith owner)).encode)
    (hrows : ∀ r ∈ Writer.eventRows e (e.traderWith owner), (t.get? r.1).isSome) :
    e.ReadBack t owner := by
  refine ⟨h.mem_orderEvents_iff.mpr ⟨_, hget⟩, fun account fill hkind => ?_⟩
  have hwith : e.traderWith owner = owner account := by rw [Event.traderWith, hkind]
  rw [Event.isKept, hkind] at hkept
  obtain ⟨trader, ht⟩ := Option.isSome_iff_exists.mp hkept
  rw [hwith, ht] at hget hrows
  refine ⟨trader, ht, fun limit hlimit => ?_⟩
  set q := FillQuery.byMarket e.order.market
  have hindex : ((FillKey.ofEvent e).encodeByMarket, []) ∈ Writer.eventRows e (some trader) :=
    List.mem_cons_of_mem _ List.mem_cons_self
  obtain ⟨value, hvalue⟩ := Option.isSome_iff_exists.mp (hrows _ hindex)
  have hprefix : q.indexPrefix <+: (FillKey.ofEvent e).encodeByMarket := by
    rw [FillKey.encodeByMarket, List.append_assoc]
    exact List.prefix_append (FillKey.marketPrefix e.order.market) _
  have hscan := Table.mem_scan_none.mpr ⟨hvalue, hprefix⟩
  -- the limit leaves no row of the index out
  have hlength : (t.scan q.indexPrefix none).length ≤ limit :=
    (List.length_filter_le _ _).trans hlimit
  obtain ⟨fills, hfills, hpage⟩ :=
    Ledger.fills_ok (l := .ofStore (.ofTable t)) rfl h q limit
  refine ⟨fills, ?_, ?_⟩
  · rw [Table.fills, hpage]
    simp [Ledger.ofStore, Store.ofTable, Nat.not_lt.mpr hlength]
  · have hrecord : q.recordOf t (FillKey.ofEvent e).encodeByMarket =
        .ok ⟨trader, account, e.ref, fill⟩ := by
      rw [FillQuery.recordOf, FillQuery.decodeKey, FillKey.decodeByMarket_encodeByMarket]
      have hkey : (FillKey.ofEvent e).orderEvent = OrderEventKey.ofEvent e := by
        rw [OrderEventKey.ofEvent, Event.type, hkind]
        rfl
      dsimp only
      rw [hkey, hget, FillKey.resolve_ofEvent hkind]
    have hmem := List.mem_map_of_mem (f := q.recordOf t) (List.mem_map_of_mem (f := (·.1)) hscan)
    rw [List.take_of_length_le (by rwa [List.length_map])] at hfills
    change (((t.scan q.indexPrefix none).map (·.1)).map (q.recordOf t)) = _ at hfills
    rw [hfills, hrecord] at hmem
    obtain ⟨record, hrecord, heq⟩ := List.mem_map.mp hmem
    cases heq
    exact hrecord

end Table.Backed

namespace Writer
variable {w w₁ w₂ : Writer} {l l₁ l₂ : Ledger} {x : BlockEvents} {now now' : Timestamp}
  {d d' : List Event}

/-- An event of a block is lost just if another one of the block with its key stands in its place. -/
theorem Sound.readBack_iff (h : Sound w l) (hw : w.writeBlock l x now = (.ok d, w₁, l₁))
    (hf : w₁.flush l₁ now' = (.ok d', w₂, l₂)) :
    (∀ e ∈ x.events, e.isKept (l.ownerWith x) → e.ReadBack l₂.store.table (l.ownerWith x)) ↔
      ∀ a ∈ x.events, ∀ c ∈ x.events, a.isKept (l.ownerWith x) → c.isKept (l.ownerWith x) →
        OrderEventKey.ofEvent a = OrderEventKey.ofEvent c → a = c := by
  have hbacked := h.backed_of_written hw hf
  constructor
  · intro hread a ha c hc hka hkc hkey
    obtain ⟨ta, hta⟩ := hbacked.mem_orderEvents_iff.mp (hread a ha hka).order
    obtain ⟨tc, htc⟩ := hbacked.mem_orderEvents_iff.mp (hread c hc hkc).order
    have hvalue : (StoredEvent.ofEvent a ta).encode = (StoredEvent.ofEvent c tc).encode :=
      Option.some.inj (by rw [← hta, ← htc, hkey])
    have hrow : a.mainRow ta = c.mainRow tc := by
      rw [Event.mainRow_eq, Event.mainRow_eq, hkey, hvalue]
    exact congrArg Prod.fst (@Event.mainRow_injective (a, ta) (c, tc) hrow)
  · intro hsame e he hkept
    obtain ⟨e', he', hkept', hkey, hget⟩ := h.get?_of_written hw hf he hkept
    obtain rfl := hsame e' he' e he hkept' hkept hkey
    exact hbacked.readBack hkept hget fun r hr => h.isSome_get?_of_written hw hf he hkept hr

/-- The events of an accepted block have different keys just if no instruction gives two events of
one type for one order. Those that are written are all read back just if no instruction gives two
different ones. By `hsize` the position of an instruction is a word, as that of any item of a list
in memory is. -/
theorem Reached.extracted_readBack_iff (h : Reached w l) {programs : List PublicKey} {b : Block}
    (hx : b.extract programs = .ok x) (hindex : (b.transactions.map (·.index)).Nodup)
    (hsize : ∀ t ∈ b.transactions, t.invocations.length ≤ UInt64.size)
    (hw : w.writeBlock l x now = (.ok d, w₁, l₁)) (hf : w₁.flush l₁ now' = (.ok d', w₂, l₂)) :
    ((x.events.map fun e => (OrderEventKey.ofEvent e).encode).Nodup ↔
      ∀ p ∈ executed programs b, ∀ h, harvest p.1 p.2 = .ok h →
        h.events.Pairwise fun a c => a.order = c.order → a.type ≠ c.type) ∧
    ((∀ e ∈ x.events, e.isKept (l.ownerWith x) → e.ReadBack l₂.store.table (l.ownerWith x)) ↔
      ∀ p ∈ executed programs b, ∀ h, harvest p.1 p.2 = .ok h →
        ∀ a ∈ h.events, ∀ c ∈ h.events, a.isKept (l.ownerWith x) → c.isKept (l.ownerWith x) →
          a.order = c.order → a.type = c.type → a = c) := by
  constructor
  · rw [← Block.pairwise_key_ne_iff hindex hsize hx, List.Nodup, List.pairwise_map]
    simp only [ne_eq, OrderEventKey.encode_inj]
  · rw [h.sound.readBack_iff hw hf]
    constructor
    · intro hsame p hp hv hh a ha c hc hka hkc horder htype
      have hplace := (at_of_mem_harvest hh ha).place.trans (at_of_mem_harvest hh hc).place.symm
      exact hsame a (Block.mem_events_of_harvest hx hp hh ha) c
        (Block.mem_events_of_harvest hx hp hh hc) hka hkc
        ((OrderEventKey.ofEvent_eq_iff hplace).mpr ⟨horder, htype⟩)
    · intro hsame a ha c hc hka hkc hkey
      have hplace := congrArg OrderEventKey.place hkey
      obtain ⟨p, hp, hv, hh, hav, hcv⟩ :=
        Block.exists_harvest_of_place_eq hindex hsize hx ha hc hplace
      obtain ⟨horder, htype⟩ := (OrderEventKey.ofEvent_eq_iff hplace).mp hkey
      exact hsame p hp hv hh a hav c hcv hka hkc horder htype

end Writer

namespace TwoFills

def key (n : UInt8) : PublicKey := ⟨List.replicate 32 n, rfl⟩

/-- A part of an order to buy is filled. -/
def entry (quantity : UInt64) : EventEntry :=
  { flags := 0x05, ownerSlot := 0, feeTier := 0, nativeQtyReleased := quantity, nativeQtyPaid := 0
    nativeFeeOrRebate := 0, orderId := .make 7 .bid 6, owner := key 1, clientOrderId := 0 }

def queue : EventQueue :=
  { header := { flags := 0x11, head := 0, count := 2, seq := 2 }, capacity := 2
    entries := [entry 1, entry 2] }

/-- An order is placed that meets two others at once. -/
def block : Block :=
  { number := 10, id := "", previousId := "", timestamp := .epoch
    transactions := [
      { id := "", index := 0, failed := false, header := ⟨0, 0, 1⟩
        keys := [key 0, key 1, key 2, key 3, key 4, key 5]
        invocations := [
          { program := 5, accounts := [0, 1, 2, 3, 0, 0, 0, 4]
            data := (Instruction.newOrderV3 ⟨.bid, 7, 3, .limit, 0⟩).encode
            changes := [⟨key 3, [], queue.encode⟩] }] }] }

def filled (quantity : UInt64) : Event :=
  ⟨⟨⟨key 0, 6⟩, ⟨10, 0, 0⟩, "", .epoch⟩, .fill (key 1) ⟨.bid, false, 7, quantity, 0, 0, 0, 0, ""⟩⟩

def events : BlockEvents := ⟨10, "", .epoch, [filled 1, filled 2], [⟨key 1, key 4⟩], 0⟩

def writer : Writer := .resume .default .default none

def ledger : Ledger := .ofStore (.ofTable .empty)

end TwoFills

open TwoFills in
theorem Writer.extracted_readBack_iff_of_two_fills :
    block.extract [key 5] = .ok events ∧
      ¬ (events.events.map fun e => (OrderEventKey.ofEvent e).encode).Nodup ∧
      ∃ d w₁ l₁ d' w₂ l₂, writer.writeBlock ledger events .epoch = (.ok d, w₁, l₁) ∧
        w₁.flush l₁ .epoch = (.ok d', w₂, l₂) ∧
        ¬ ∀ e ∈ events.events, e.isKept (ledger.ownerWith events) →
          e.ReadBack l₂.store.table (ledger.ownerWith events) := by
  have hx : block.extract [key 5] = .ok events := by decide +kernel
  have hindex : (block.transactions.map (·.index)).Nodup := by decide +kernel
  have hsize : ∀ t ∈ block.transactions, t.invocations.length ≤ UInt64.size := by decide +kernel
  have hreached : Reached writer ledger := .start _ _ rfl
  obtain ⟨os, hos⟩ := hreached.sound.knows
  obtain ⟨d, w₁, l₁, d', w₂, l₂, hw, hf⟩ :=
    exists_written (w := writer) (l := ledger) (x := events) ⟨rfl, rfl⟩ hos (fun c hc => by cases hc)
      .epoch .epoch
  have hiff := hreached.extracted_readBack_iff hx hindex hsize hw hf
  have hfirst : filled 1 ∈ events.events := by decide +kernel
  have hsecond : filled 2 ∈ events.events := by decide +kernel
  -- both fills come from the one instruction
  obtain ⟨p, hp, h, hh, h₁, h₂⟩ :=
    Block.exists_harvest_of_place_eq hindex hsize hx hfirst hsecond rfl
  refine ⟨hx, fun hnodup => ?_, d, w₁, l₁, d', w₂, l₂, hw, hf, fun hread => ?_⟩
  · revert hnodup
    decide +kernel
  · have heq := hiff.2.mp hread p hp h hh _ h₁ _ h₂ (by decide +kernel) (by decide +kernel) rfl rfl
    exact absurd heq (by decide +kernel)

end DexIndex
