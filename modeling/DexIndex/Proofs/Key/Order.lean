import DexIndex.Proofs.Key.Sorted
import Mathlib.Data.List.Sort

/-!
# The order of keys

As keys are in the order of their fields, the event keys of an order are in the order of positions
(`OrderEventKey.encode_lt_iff`), and the keys of an index are, as far as a query selects them, in the
order of the pages (`FillKey.Precedes`).
-/

namespace DexIndex

theorem lexicographic_iff {m n : UInt64} {rest : Bool} :
    (if m ≠ n then decide (m < n) else rest) ↔ m < n ∨ m = n ∧ rest := by
  by_cases h : m = n
  · subst h
    simp
  · simp [h]

theorem EventPosition.before_iff {a b : EventPosition} :
    a.before b ↔ a.place.slot < b.place.slot ∨ a.place.slot = b.place.slot ∧
      (a.place.trx < b.place.trx ∨ a.place.trx = b.place.trx ∧
        (a.place.inst < b.place.inst ∨ a.place.inst = b.place.inst ∧
          a.type.toByte < b.type.toByte)) := by
  rw [before, lexicographic_iff, lexicographic_iff, lexicographic_iff, decide_eq_true_iff]

/-- Chain order. -/
def Place.Before (p q : Place) : Prop :=
  p.slot < q.slot ∨ p.slot = q.slot ∧ (p.trx < q.trx ∨ p.trx = q.trx ∧ p.inst < q.inst)

theorem Place.not_before_self (p : Place) : ¬ p.Before p := by
  simp [Before, UInt64.lt_irrefl]

theorem Place.eq_iff {p q : Place} :
    p = q ↔ p.slot = q.slot ∧ p.trx = q.trx ∧ p.inst = q.inst := by
  rw [← Place.mk.injEq]

theorem EventPosition.before_iff_place {a b : EventPosition} :
    a.before b ↔ a.place.Before b.place ∨
      a.place = b.place ∧ a.type.toByte < b.type.toByte := by
  rw [before_iff, Place.Before, Place.eq_iff]
  tauto

theorem EventPosition.before_self (p : EventPosition) : p.before p = false := by
  simp [before]

theorem EventPosition.before_trans {a b c : EventPosition} (hab : a.before b) (hbc : b.before c) :
    a.before c := by
  rw [before_iff] at *
  simp only [UInt64.lt_iff_toNat_lt, UInt8.lt_iff_toNat_lt, ← UInt64.toNat_inj] at *
  omega

theorem EventPosition.before_of_not_before {a b c : EventPosition} (hab : ¬ a.before b)
    (hac : a.before c) : b.before c := by
  rw [before_iff] at *
  simp only [UInt64.lt_iff_toNat_lt, UInt8.lt_iff_toNat_lt, ← UInt64.toNat_inj] at *
  omega

theorem EventPosition.not_before_of_before {a b : EventPosition} (h : a.before b) :
    ¬ b.before a := by
  intro h'
  have haa := before_trans h h'
  rw [before_self] at haa
  cases haa

/-- The event keys of an order are in the order of positions. -/
theorem OrderEventKey.encode_lt_iff {a b : OrderEventKey} (h : a.order = b.order) :
    a.encode < b.encode ↔ EventPosition.before ⟨a.place, a.type⟩ ⟨b.place, b.type⟩ := by
  rw [sorts_encode.lt_iff, EventPosition.before_iff]
  simp [rank, h, Prod.Lex.toLex_lt_toLex, List.lt_irrefl]

namespace Event
variable {a b : Event}

/-- Events whose places come one after another, or are the same. -/
def InChain (es : List Event) : Prop :=
  es.Pairwise fun a b => a.ref.place = b.ref.place ∨ a.ref.place.Before b.ref.place

theorem position_eq_of_ofEvent_eq (h : OrderEventKey.ofEvent a = OrderEventKey.ofEvent b) :
    a.position = b.position :=
  congrArg (fun k : OrderEventKey => EventPosition.mk k.place k.type) h

/-- Events in the order of their positions are told apart by them. -/
theorem eq_of_position_eq {es : List Event}
    (h : es.Pairwise fun x y => x.position.before y.position) (ha : a ∈ es) (hb : b ∈ es)
    (hposition : a.position = b.position) : a = b := by
  have hnodup : (es.map Event.position).Nodup :=
    List.pairwise_map.mpr (h.imp fun hlt heq => by simp [heq, EventPosition.before_self] at hlt)
  exact List.inj_on_of_nodup_map hnodup ha hb hposition

/-- Events in the order of their positions are told by which there are. -/
theorem eq_of_pairwise_before {es es' : List Event}
    (h : es.Pairwise fun x y => x.position.before y.position)
    (h' : es'.Pairwise fun x y => x.position.before y.position) (hmem : ∀ e, e ∈ es ↔ e ∈ es') :
    es = es' := by
  have hirrefl : Std.Irrefl fun x y : Event => x.position.before y.position = true :=
    ⟨fun x => by simp [EventPosition.before_self]⟩
  have hantisymm : Std.Antisymm fun x y : Event => x.position.before y.position = true :=
    ⟨fun x y hxy hyx => absurd hyx (EventPosition.not_before_of_before hxy)⟩
  exact List.Pairwise.eq_of_mem_iff h h' hmem

end Event

/-! ### Index keys -/

theorem PublicKey.bytes_inj {a b : PublicKey} : a.bytes = b.bytes ↔ a = b :=
  ⟨ext_bytes, congrArg bytes⟩

namespace FillKey

/-- Which of two fills comes first on a page: newest slot first, within a slot in chain order, and
of the fills of an instruction by market and then newest order first. -/
def Precedes (a b : FillKey) : Prop :=
  b.place.slot < a.place.slot ∨ a.place.slot = b.place.slot ∧
    (a.place.trx < b.place.trx ∨ a.place.trx = b.place.trx ∧
      (a.place.inst < b.place.inst ∨ a.place.inst = b.place.inst ∧
        (a.order.market.bytes < b.order.market.bytes ∨ a.order.market = b.order.market ∧
          b.order.seq < a.order.seq)))

variable {a b : FillKey}

theorem encodeByTrader_lt_iff (trader : PublicKey) :
    a.encodeByTrader trader < b.encodeByTrader trader ↔ a.Precedes b := by
  rw [sorts_encodeByTrader.lt_iff (trader, a) (trader, b)]
  simp [rankByTrader, Precedes, Prod.Lex.toLex_lt_toLex, List.lt_irrefl, PublicKey.bytes_inj]

theorem encodeByMarket_lt_iff (h : a.order.market = b.order.market) :
    a.encodeByMarket < b.encodeByMarket ↔ a.Precedes b := by
  rw [sorts_encodeByMarket.lt_iff]
  simp [rankByMarket, h, Precedes, Prod.Lex.toLex_lt_toLex, List.lt_irrefl]

theorem encodeByTraderMarket_lt_iff (trader : PublicKey) (h : a.order.market = b.order.market) :
    a.encodeByTraderMarket trader < b.encodeByTraderMarket trader ↔ a.Precedes b := by
  rw [sorts_encodeByTraderMarket.lt_iff (trader, a) (trader, b)]
  simp [rankByTraderMarket, rankByMarket, h, Precedes, Prod.Lex.toLex_lt_toLex, List.lt_irrefl]

-- The keys of one trader are in the order of pages, which is therefore an order.

theorem not_precedes_self (a : FillKey) : ¬ a.Precedes a := fun h =>
  have trader := a.order.market
  List.lt_irrefl _ ((encodeByTrader_lt_iff trader).mpr h)

theorem Precedes.not_flip (h : a.Precedes b) : ¬ b.Precedes a := fun h' =>
  have trader := a.order.market
  List.lt_asymm ((encodeByTrader_lt_iff trader).mpr h) ((encodeByTrader_lt_iff trader).mpr h')

end FillKey

end DexIndex
