import DexIndex.Proofs.History.Orders
import DexIndex.Proofs.History.ReadBack
import DexIndex.Proofs.Lifecycle.Taken
import DexIndex.Proofs.Writer.Durable

/-!
# The history of an order

What is read of an order is told by what has become durable of it, in whatever order and batches that
was and whatever was written besides: at each position the last event that was written there, and
what is known of the order is the fold of these events (`Writer.Durable.order_history`). Reading ends in
no error but one of the store.
-/

namespace DexIndex

/-- What a table tells of an order. -/
def Table.order? (t : Table) (order : OrderKey) : Except ReaderError (Option OrderTransition) :=
  ((Ledger.ofStore (.ofTable t)).order? order).1

theorem Entry.lastAt_map_event (log : List Entry) (k : OrderEventKey) :
    Event.lastAt (log.map (·.event)) k = (latest? log k).map (·.event) := by
  rw [Event.lastAt, List.filter_map, List.getLast?_map]
  rfl

/-! ### Folding what was read -/

theorem Ledger.order?_fst (l : Ledger) (order : OrderKey) :
    (l.order? order).1 = ((l.orderEvents order).1.map (OrderMachine.replay order)).map
      fun m => if m.hasEvents then m.transition? else none := rfl

theorem OrderMachine.InOrder.transition?_replay {order : OrderKey} {es : List Event}
    (h : InOrder order es) :
    (if (replay order es).hasEvents then (replay order es).transition? else none) =
      (replay order es).transition? := by
  rcases List.eq_nil_or_concat es with rfl | ⟨init, e, rfl⟩
  · rfl
  · rw [hasEvents, h.lastPosition_replay, List.concat_eq_append, List.getLast?_concat]
    rfl

theorem Table.Backed.reads_cases {l : Ledger} (h : l.store.table.Backed) (order : OrderKey) :
    ((l.orderEvents order).1 = l.store.table.orderEvents order ∧
        (l.order? order).1 = l.store.table.order? order) ∨
      ∃ cause, (l.orderEvents order).1 = .error (.store cause) ∧
        (l.order? order).1 = .error (.store cause) := by
  obtain ⟨es, hread, _, _⟩ := h.orderEvents_ok order
  obtain ⟨s, _, hscan | ⟨_, cause, hscan⟩⟩ :=
    l.store.read_cases (·.scan (OrderEventKey.orderPrefix order) none)
  · have hsame : (l.orderEvents order).1 = l.store.table.orderEvents order := by
      simp only [Table.orderEvents, Ledger.orderEvents, Ledger.scan, Store.scan, hscan]
      rfl
    refine .inl ⟨hsame, ?_⟩
    rw [Table.order?, Ledger.order?_fst, Ledger.order?_fst, hsame]
    rfl
  · have herror : (l.orderEvents order).1 = .error (.store cause) := by
      simp only [Ledger.orderEvents, Ledger.scan, Store.scan, hscan]
    exact .inr ⟨cause, herror, by rw [Ledger.order?_fst, herror]; rfl⟩

/-! ### What was written of an order -/

namespace Table.Holds
variable {t : Table} {log : List Entry} {order : OrderKey}

theorem orderEvents_ok (h : t.Holds log) (hb : t.Backed) (order : OrderKey) :
    ∃ es, t.orderEvents order = .ok es ∧
      es.Pairwise (fun a b => a.position.before b.position) ∧
      ∀ e, e ∈ es ↔ e.order = order ∧
        Event.lastAt (log.map (·.event)) (.ofEvent e) = some e := by
  obtain ⟨es, hread, hsorted, hmem⟩ := hb.orderEvents_ok order
  refine ⟨es, hread, hsorted, fun e => ?_⟩
  rw [hmem, h.get?_event, Entry.lastAt_map_event]
  refine and_congr_right fun _ => ⟨?_, fun hlatest => ?_⟩
  · rintro ⟨trader, hvalue⟩
    obtain ⟨p, hp, hvalue⟩ := Option.map_eq_some_iff.mp hvalue
    have hrow : p.mainRow = e.mainRow trader := Prod.ext
      (congrArg OrderEventKey.encode (Entry.mem_of_latest? hp).2) hvalue
    have hevent := congrArg Prod.fst
      (@Event.mainRow_injective (p.event, p.trader) (e, trader) hrow)
    rw [hp]
    exact congrArg some hevent
  · obtain ⟨p, hp, rfl⟩ := Option.map_eq_some_iff.mp hlatest
    exact ⟨p.trader, by rw [hp]; rfl⟩

theorem order?_ok (h : t.Holds log) (hb : t.Backed) (order : OrderKey) :
    ∃ es, t.orderEvents order = .ok es ∧ OrderMachine.InOrder order es ∧
      (∀ e, e ∈ es ↔ e.order = order ∧
        Event.lastAt (log.map (·.event)) (.ofEvent e) = some e) ∧
      t.order? order = .ok (OrderMachine.replay order es).transition? := by
  obtain ⟨es, hread, hsorted, hmem⟩ := h.orderEvents_ok hb order
  have hes : OrderMachine.InOrder order es := ⟨hsorted, fun e he => ((hmem e).mp he).1⟩
  refine ⟨es, hread, hes, hmem, ?_⟩
  rw [order?, Ledger.order?_fst, show ((Ledger.ofStore (.ofTable t)).orderEvents order).1 = .ok es
    from hread]
  exact congrArg Except.ok hes.transition?_replay

theorem order?_eq_none_iff (h : t.Holds log) (hb : t.Backed) (order : OrderKey) :
    t.order? order = .ok none ↔ ∀ p ∈ log, p.event.order ≠ order := by
  obtain ⟨es, _, hes, hmem, horder⟩ := h.order?_ok hb order
  rw [horder]
  constructor
  · intro hnone p hp hkey
    obtain ⟨e, hlast, hsame⟩ := Event.exists_lastAt (List.mem_map_of_mem hp)
    have hin : e ∈ es :=
      (hmem e).mpr ⟨(congrArg OrderEventKey.order hsame).trans hkey, hsame ▸ hlast⟩
    have hsome := hes.isSome_transition?_replay (List.ne_nil_of_mem hin)
    rw [Except.ok.inj hnone] at hsome
    cases hsome
  · intro hall
    obtain rfl : es = [] := by
      refine List.eq_nil_iff_forall_not_mem.mpr fun e he => ?_
      obtain ⟨horder, hlast⟩ := (hmem e).mp he
      obtain ⟨p, hp, rfl⟩ := List.mem_map.mp (Event.mem_of_lastAt hlast).1
      exact hall p hp horder
    rfl

theorem reads_congr {t' : Table} {log' : List Entry} (h : t.Holds log) (hb : t.Backed)
    (h' : t'.Holds log') (hb' : t'.Backed) (hsame : ∀ k : OrderEventKey, k.order = order →
      Event.lastAt (log'.map (·.event)) k = Event.lastAt (log.map (·.event)) k) :
    t'.orderEvents order = t.orderEvents order ∧ t'.order? order = t.order? order := by
  obtain ⟨es, hread, hes, hmem, horder⟩ := h.order?_ok hb order
  obtain ⟨es', hread', hes', hmem', horder'⟩ := h'.order?_ok hb' order
  obtain rfl : es' = es := by
    refine Event.eq_of_pairwise_before hes'.positions hes.positions fun e => ?_
    rw [hmem, hmem']
    refine and_congr_right fun he => ?_
    rw [hsame (.ofEvent e) he]
  exact ⟨hread'.trans hread.symm, horder'.trans horder.symm⟩

end Table.Holds

/-- The history of an order has, in the order of their positions, one event for each position at which
one of its events has become durable, and this is the last one written there. What is known of the order is
the fold of its history, and there is nothing to know just if nothing of it has become durable. All this
is the same for any other calls that write the events of the order at each position in the same order,
whatever their batches and whatever else they write. Whatever the accesses run into, no error comes up
but one of the store. -/
theorem Writer.Durable.order_history {w : Writer} {l : Ledger} {log : List Entry}
    (h : Durable w l log) (order : OrderKey) :
    (∃ es, l.store.table.orderEvents order = .ok es ∧
      es.Pairwise (fun a b => a.position.before b.position) ∧
      (∀ e, e ∈ es ↔ e.order = order ∧
        Event.lastAt (log.map (·.event)) (.ofEvent e) = some e) ∧
      (∀ p ∈ log, p.event.order = order → ∃ e ∈ es, e.position = p.event.position) ∧
      l.store.table.order? order = .ok (OrderMachine.replay order es).transition?) ∧
    (l.store.table.order? order = .ok none ↔ ∀ p ∈ log, p.event.order ≠ order) ∧
    (∀ w' l' log', Durable w' l' log' →
      (∀ k : OrderEventKey, k.order = order →
        (log'.map (·.event)).filter (OrderEventKey.ofEvent · = k) =
          (log.map (·.event)).filter (OrderEventKey.ofEvent · = k)) →
      l'.store.table.orderEvents order = l.store.table.orderEvents order ∧
        l'.store.table.order? order = l.store.table.order? order) ∧
    (((l.orderEvents order).1 = l.store.table.orderEvents order ∧
        (l.order? order).1 = l.store.table.order? order) ∨
      ∃ cause, (l.orderEvents order).1 = .error (.store cause) ∧
        (l.order? order).1 = .error (.store cause)) := by
  have hl := h.logged
  have hb := hl.sound.table
  refine ⟨?_, hl.table.order?_eq_none_iff hb order, fun w' l' log' h' hsame => ?_,
    hb.reads_cases order⟩
  · obtain ⟨es, hread, hes, hmem, horder⟩ := hl.table.order?_ok hb order
    refine ⟨es, hread, hes.positions, hmem, fun p hp hkey => ?_, horder⟩
    obtain ⟨e, hlast, hsame⟩ := Event.exists_lastAt (List.mem_map_of_mem hp)
    exact ⟨e, (hmem e).mpr ⟨(congrArg OrderEventKey.order hsame).trans hkey, hsame ▸ hlast⟩,
      Event.position_eq_of_ofEvent_eq hsame⟩
  · refine hl.table.reads_congr hb h'.logged.table h'.logged.sound.table fun k hk => ?_
    rw [Event.lastAt, Event.lastAt, hsame k hk]

namespace TwoFills

def written : Writer × Ledger := (writer.writeBlock ledger events .epoch).2

def flushed : Writer × Ledger := (written.1.flush written.2 .epoch).2

def log : List Entry := [⟨filled 1, some (key 4)⟩, ⟨filled 2, some (key 4)⟩]

theorem durable : Writer.Durable flushed.1 flushed.2 log := by
  have hstart : Writer.Durable writer ledger [] := .start .default .default rfl
  have h := (hstart.write events .epoch).flush .epoch
  have hlog : [] ++ Writer.landed ledger.store.table (writer.writeBlock ledger events .epoch) ++
      Writer.landed written.2.store.table (written.1.flush written.2 .epoch) = log := by
    decide +kernel
  exact hlog ▸ h

end TwoFills

open TwoFills in
/-- Of two fills at one position the second one is the history. -/
theorem Writer.order_history_of_two_fills :
    flushed.2.store.table.orderEvents (filled 2).order = .ok [filled 2] ∧
      flushed.2.store.table.order? (filled 2).order =
        .ok (OrderMachine.replay (filled 2).order [filled 2]).transition? := by
  obtain ⟨⟨es, hread, hsorted, hmem, _, horder⟩, _⟩ :=
    TwoFills.durable.order_history (filled 2).order
  obtain rfl : es = [filled 2] := by
    refine Event.eq_of_pairwise_before hsorted (List.pairwise_singleton _ _) fun e => ?_
    rw [hmem, List.mem_singleton]
    constructor
    · rintro ⟨_, hlast⟩
      obtain ⟨p, hp, rfl⟩ := List.mem_map.mp (Event.mem_of_lastAt hlast).1
      rcases List.mem_pair.mp hp with rfl | rfl
      · exact absurd hlast (by decide +kernel)
      · rfl
    · rintro rfl
      exact ⟨rfl, by decide +kernel⟩
  exact ⟨hread, horder⟩

end DexIndex
