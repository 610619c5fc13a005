import DexIndex.History
import DexIndex.Proofs.Event.Json
import DexIndex.Proofs.Key.Order
import DexIndex.Proofs.Key.Prefix
import DexIndex.Proofs.Results
import DexIndex.Proofs.Table.Prefix
import DexIndex.Proofs.Writer.Backed
import DexIndex.Proofs.Writer.Steps
import Mathlib.Data.Set.List

/-!
# The events of an order read back

Every event that blocks leave in a table has its row there, under its key, and the rows of an order
are read as events of this order in the order of their positions (`eventsOfRows_scan`). If its events
were written in this order, they are read back as they are (`Ledger.orderEvents_cases`).
-/

namespace DexIndex

namespace Event

theorem encode_lt_iff {a b : Event} (h : a.order = b.order) :
    (OrderEventKey.ofEvent a).encode < (OrderEventKey.ofEvent b).encode ↔
      a.position.before b.position :=
  OrderEventKey.encode_lt_iff h

theorem mainRow_injective :
    Function.Injective fun p : Event × Option PublicKey => p.1.mainRow p.2 := by
  rintro ⟨a, s⟩ ⟨b, t⟩ h
  simp only [mainRow_eq] at h
  obtain ⟨hkey, hvalue⟩ := Prod.mk.inj h
  have hkey := OrderEventKey.encode_injective hkey
  have hvalue : StoredEvent.ofEvent a s = StoredEvent.ofEvent b t :=
    Except.ok.inj (by rw [← StoredEvent.decode_encode, hvalue, StoredEvent.decode_encode])
  refine Prod.ext ?_ (congrArg StoredEvent.trader hvalue)
  change a = b
  rw [← StoredEvent.toEvent_ofEvent a s, hkey, hvalue, StoredEvent.toEvent_ofEvent]

end Event

/-! ### The events that blocks leave -/

namespace BlockEvents

/-- The written events of an order. -/
def keptOf (bs : List BlockEvents) (order : OrderKey) : List Event :=
  (kept [] bs).filter (·.order = order)

theorem mem_keptOf {bs : List BlockEvents} {order : OrderKey} {e : Event} :
    e ∈ keptOf bs order ↔ e ∈ kept [] bs ∧ e.order = order := by
  simp [keptOf]

theorem exists_mainRow_of_mem_kept {known : List Ownership} {bs : List BlockEvents} {e : Event}
    (h : e ∈ kept known bs) : ∃ trader, e.mainRow trader ∈ allIndexRows known bs := by
  induction bs generalizing known with
  | nil => cases h
  | cons b bs ih =>
    rcases List.mem_append.mp h with h | h
    · obtain ⟨hmem, hkept⟩ := List.mem_filter.mp h
      have hrow := List.mem_flatMap.mpr ⟨e, hmem, Event.mainRow_mem_rowsWith hkept⟩
      exact ⟨_, List.mem_append_left _ (List.mem_append_right _ hrow)⟩
    · obtain ⟨trader, hrow⟩ := ih h
      exact ⟨trader, List.mem_append_right _ hrow⟩

theorem exists_event_of_mem {known : List Ownership} {bs : List BlockEvents} {r : Row}
    (htag : r.1.head? = some Family.orderEvent.tag) (h : r ∈ allIndexRows known bs) :
    ∃ e ∈ kept known bs, ∃ trader, r = e.mainRow trader := by
  induction bs generalizing known with
  | nil => cases h
  | cons b bs ih =>
    rcases List.mem_append.mp h with h | h
    · rcases List.mem_append.mp h with h | h
      · obtain ⟨o, rfl⟩ := Ownership.eq_row_of_mem_newRows h
        exact absurd (Family.eq_of_tag_eq (a := .tradingAccount) (Option.some.inj htag)) (by decide)
      · obtain ⟨e, he, hr⟩ := List.mem_flatMap.mp h
        rw [Event.rowsWith_eq] at hr
        split at hr
        · next hkept =>
          exact ⟨e, List.mem_append_left _ (List.mem_filter.mpr ⟨he, hkept⟩), _,
            Event.eq_mainRow_of_mem hr htag⟩
        · cases hr
    · obtain ⟨e, he, hrow⟩ := ih h
      exact ⟨e, List.mem_append_right _ he, hrow⟩

theorem exists_event_of_get? {bs : List BlockEvents} {key value : Bytes}
    (h : (tableOf bs).get? key = some value) (htag : key.head? = some Family.orderEvent.tag) :
    ∃ e ∈ kept [] bs, ∃ trader, (key, value) = e.mainRow trader := by
  rcases mem_of_get?_tableOf h with h | ⟨c, _, hrow⟩
  · exact exists_event_of_mem htag h
  · rw [(Prod.mk.inj hrow).1] at htag
    exact absurd htag (by decide)

theorem get?_tableOf_event {bs : List BlockEvents} {e : Event} (h : e ∈ kept [] bs) :
    ∃ e' ∈ kept [] bs, ∃ trader, OrderEventKey.ofEvent e' = OrderEventKey.ofEvent e ∧
      (tableOf bs).get? (OrderEventKey.ofEvent e).encode =
        some (StoredEvent.ofEvent e' trader).encode := by
  have hsome : ((tableOf bs).get? (OrderEventKey.ofEvent e).encode).isSome := by
    obtain ⟨trader, hmain⟩ := exists_mainRow_of_mem_kept h
    exact Table.isSome_get?_insertAll (List.mem_append_left _ hmain)
  obtain ⟨value, hvalue⟩ := Option.isSome_iff_exists.mp hsome
  obtain ⟨e', he', trader, hrow⟩ := exists_event_of_get? hvalue rfl
  obtain ⟨hkey, rfl⟩ := Prod.mk.inj hrow
  exact ⟨e', he', trader, (OrderEventKey.encode_injective hkey).symm, hvalue⟩

end BlockEvents

/-! ### Reading an order -/

namespace Ledger
variable {l : Ledger}

theorem get_eq (hl : l.store.reads = []) (key : Bytes) :
    l.get key = (.ok (l.store.table.get? key), l) := by
  obtain ⟨s, hs, hget | ⟨hr, _⟩⟩ := l.store.read_cases (·.get? key)
  · rw [hs.same hl] at hget
    simp only [get, Store.get, hget]
  · exact absurd hl hr

theorem scan_eq (hl : l.store.reads = []) (p : Bytes) (limit : Option Nat) :
    l.scan p limit = (.ok (l.store.table.scan p limit), l) := by
  obtain ⟨s, hs, hscan | ⟨hr, _⟩⟩ := l.store.read_cases (·.scan p limit)
  · rw [hs.same hl] at hscan
    simp only [scan, Store.scan, hscan]
  · exact absurd hl hr

end Ledger

theorem eventsOfRows_mainRows (ps : List (Event × Option PublicKey)) :
    eventsOfRows (ps.map fun p => p.1.mainRow p.2) = .ok (ps.map (·.1)) := by
  refine Results.mapM_eq_ok.mpr ?_
  rw [List.map_map, List.map_map]
  exact List.map_congr_left fun p _ => p.1.ofRow_encode p.2

/-- The history of an order in a table. -/
def Table.orderEvents (t : Table) (order : OrderKey) : Except ReaderError (List Event) :=
  ((Ledger.ofStore (.ofTable t)).orderEvents order).1

namespace Table.Backed
variable {t : Table}

theorem scan_events (h : t.Backed) (order : OrderKey) :
    ∃ ps : List (Event × Option PublicKey),
      (ps.map fun p => p.1.mainRow p.2) = t.scan (OrderEventKey.orderPrefix order) none ∧
      ∀ e trader, (e, trader) ∈ ps ↔ e.order = order ∧
        t.get? (OrderEventKey.ofEvent e).encode = some (StoredEvent.ofEvent e trader).encode := by
  have hrow : ∀ r ∈ t.scan (OrderEventKey.orderPrefix order) none,
      r ∈ Set.range fun p : Event × Option PublicKey => p.1.mainRow p.2 := by
    rintro ⟨key, value⟩ hr
    obtain ⟨hget, rest, rfl⟩ := Table.mem_scan_none.mp hr
    obtain ⟨e, trader, _, hrow⟩ := h.event_of_get? hget rfl
    exact ⟨(e, trader), hrow.symm⟩
  obtain ⟨ps, hps⟩ : t.scan (OrderEventKey.orderPrefix order) none ∈
      Set.range (List.map fun p : Event × Option PublicKey => p.1.mainRow p.2) := by
    rw [Set.range_list_map]
    exact hrow
  refine ⟨ps, hps, fun e trader => ?_⟩
  rw [← List.mem_map_of_injective Event.mainRow_injective, hps, Event.mainRow_eq,
    Table.mem_scan_none, OrderEventKey.orderPrefix_le_encode_iff]
  exact And.comm

theorem eventsOfRows_scan (h : t.Backed) (order : OrderKey) :
    ∃ es, eventsOfRows (t.scan (OrderEventKey.orderPrefix order) none) = .ok es ∧
      es.Pairwise (fun a b => a.position.before b.position) ∧
      ∀ e, e ∈ es ↔ e.order = order ∧ ∃ trader,
        t.get? (OrderEventKey.ofEvent e).encode = some (StoredEvent.ofEvent e trader).encode := by
  obtain ⟨ps, hps, hmem⟩ := h.scan_events order
  refine ⟨ps.map (·.1), hps ▸ eventsOfRows_mainRows ps, ?_, fun e => ?_⟩
  · have hsorted := t.sorted_scan_none (OrderEventKey.orderPrefix order)
    rw [← hps, List.pairwise_map] at hsorted
    refine List.pairwise_map.mpr (hsorted.imp_of_mem fun {p q} hp hq hlt => ?_)
    have horder := ((hmem p.1 p.2).mp hp).1.trans ((hmem q.1 q.2).mp hq).1.symm
    exact (Event.encode_lt_iff horder).mp hlt
  · constructor
    · intro he
      obtain ⟨p, hp, rfl⟩ := List.mem_map.mp he
      obtain ⟨horder, hget⟩ := (hmem p.1 p.2).mp hp
      exact ⟨horder, p.2, hget⟩
    · rintro ⟨horder, trader, hget⟩
      exact List.mem_map.mpr ⟨(e, trader), (hmem e trader).mpr ⟨horder, hget⟩, rfl⟩

theorem orderEvents_ok (h : t.Backed) (order : OrderKey) :
    ∃ es, t.orderEvents order = .ok es ∧
      es.Pairwise (fun a b => a.position.before b.position) ∧
      ∀ e, e ∈ es ↔ e.order = order ∧ ∃ trader,
        t.get? (OrderEventKey.ofEvent e).encode = some (StoredEvent.ofEvent e trader).encode := by
  obtain ⟨es, hes, hsorted, hmem⟩ := h.eventsOfRows_scan order
  refine ⟨es, ?_, hsorted, hmem⟩
  rw [Table.orderEvents, Ledger.orderEvents, Ledger.scan_eq rfl]
  change (eventsOfRows (t.scan (OrderEventKey.orderPrefix order) none)).mapError _ = _
  rw [hes]
  rfl

end Table.Backed

open BlockEvents

/-- The rows of an order are read as written events of this order in the order of their positions,
one for each position at which an event was written. -/
theorem eventsOfRows_scan (bs : List BlockEvents) (order : OrderKey) :
    ∃ es, eventsOfRows ((tableOf bs).scan (OrderEventKey.orderPrefix order) none) = .ok es ∧
      es.Pairwise (fun a b => a.position.before b.position) ∧
      (∀ e ∈ es, e ∈ keptOf bs order) ∧
      ∀ e ∈ keptOf bs order, ∃ e' ∈ es, e'.position = e.position := by
  obtain ⟨es, hes, hsorted, hmem⟩ := (backed_tableOf bs).eventsOfRows_scan order
  refine ⟨es, hes, hsorted, fun e he => ?_, fun e he => ?_⟩
  · obtain ⟨horder, trader, hget⟩ := (hmem e).mp he
    obtain ⟨e', he', trader', hrow⟩ := exists_event_of_get? hget rfl
    obtain rfl : e = e' := congrArg Prod.fst (@Event.mainRow_injective (e, trader) (e', trader') hrow)
    exact mem_keptOf.mpr ⟨he', horder⟩
  · obtain ⟨hkept, horder⟩ := mem_keptOf.mp he
    obtain ⟨e', _, trader, hkey, hget⟩ := get?_tableOf_event hkept
    rw [← hkey] at hget
    exact ⟨e', (hmem e').mpr ⟨(congrArg OrderEventKey.order hkey).trans horder, trader, hget⟩,
      Event.position_eq_of_ofEvent_eq hkey⟩

/-- Events that were written in the order of their positions are read back as they are. -/
theorem eventsOfRows_scan_of_ordered {bs : List BlockEvents} {order : OrderKey}
    (h : (keptOf bs order).Pairwise fun a b => a.position.before b.position) :
    eventsOfRows ((tableOf bs).scan (OrderEventKey.orderPrefix order) none) =
      .ok (keptOf bs order) := by
  obtain ⟨es, hes, hsorted, hmem, hcover⟩ := eventsOfRows_scan bs order
  rw [hes, Event.eq_of_pairwise_before hsorted h fun e => ⟨hmem e, fun he => ?_⟩]
  obtain ⟨e', he', hposition⟩ := hcover e he
  rwa [← Event.eq_of_position_eq h (hmem e' he') he hposition]

namespace Ledger
variable {l : Ledger} {bs : List BlockEvents}

theorem orderEvents_cases (h : l.store.table = tableOf bs) (order : OrderKey) :
    ∃ s, l.store.ReadFrom s ∧
      (l.orderEvents order =
          ((eventsOfRows ((tableOf bs).scan (OrderEventKey.orderPrefix order) none)).mapError
            .codec, { l with store := s }) ∨
        (l.store.reads ≠ [] ∧ ∃ e, l.orderEvents order = (.error e, { l with store := s }))) := by
  obtain ⟨s, hs, hscan | ⟨hr, e, hscan⟩⟩ :=
    l.store.read_cases (·.scan (OrderEventKey.orderPrefix order) none)
  · refine ⟨s, hs, .inl ?_⟩
    rw [h] at hscan
    simp only [orderEvents, scan, Store.scan, hscan]
  · refine ⟨s, hs, .inr ⟨hr, .store e, ?_⟩⟩
    simp only [orderEvents, scan, Store.scan, hscan]

/-- The fold of an order that is read is the fold of the events that were written. -/
theorem orderMachine_eq (h : l.store.table = tableOf bs) {order : OrderKey}
    (ho : (keptOf bs order).Pairwise fun a b => a.position.before b.position) {m : OrderMachine}
    (hm : (l.orderMachine order).1 = .ok m) : m = .replay order (keptOf bs order) := by
  obtain ⟨s, _, he | ⟨_, e, he⟩⟩ := orderEvents_cases h order
  · rw [orderMachine, he, eventsOfRows_scan_of_ordered ho] at hm
    exact (Except.ok.inj hm).symm
  · rw [orderMachine, he] at hm
    cases hm

end Ledger

end DexIndex
