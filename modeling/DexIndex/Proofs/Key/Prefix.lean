import DexIndex.Proofs.Key.Canonical
import DexIndex.Proofs.Key.Order

/-!
# Keys with a prefix

A prefix names the leading fields of the keys of one family. Of the keys of all families, those that
start with it are the keys of this family that have these fields (`Family.Selects`). As each family
has its keys in the order of their fields, a scan finds them in this order (`Family.keys_ranked`).
-/

namespace DexIndex

namespace PublicKey
variable {a b : PublicKey} {s t : Bytes}

theorem append_prefix_append_iff : a.bytes ++ s <+: b.bytes ++ t ↔ b = a ∧ s <+: t := by
  constructor
  · rintro ⟨rest, h⟩
    rw [List.append_assoc] at h
    obtain ⟨hbytes, hrest⟩ := List.append_inj h (a.length_bytes.trans b.length_bytes.symm)
    exact ⟨(ext_bytes hbytes).symm, rest, hrest⟩
  · rintro ⟨rfl, h⟩
    exact (List.prefix_append_right_inj b.bytes).mpr h

theorem prefix_append_iff : a.bytes <+: b.bytes ++ t ↔ b = a := by
  have h := append_prefix_append_iff (a := a) (b := b) (s := []) (t := t)
  rwa [List.append_nil, and_iff_left List.nil_prefix] at h

end PublicKey

/-! ### Prefixes within a family -/

namespace OrderEventKey

theorem orderPrefix_injective {a b : OrderKey} (h : orderPrefix a = orderPrefix b) : a = b := by
  have hkey : (⟨a, ⟨0, 0, 0⟩, .fill⟩ : OrderEventKey).encode =
      (⟨b, ⟨0, 0, 0⟩, .fill⟩ : OrderEventKey).encode := by
    rw [encode_eq_append, encode_eq_append, h]
  exact congrArg order (encode_injective hkey)

theorem length_orderPrefix (order : OrderKey) : (orderPrefix order).length = 41 := by
  simp [orderPrefix, encodeSeq, PublicKey.length_bytes]

theorem orderPrefix_le_encode_iff {order : OrderKey} {k : OrderEventKey} :
    orderPrefix order <+: k.encode ↔ k.order = order := by
  rw [encode_eq_append]
  constructor
  · intro h
    have hpre := List.prefix_of_prefix_length_le h (List.prefix_append _ _)
      (by simp [length_orderPrefix])
    refine (orderPrefix_injective (hpre.eq_of_length ?_)).symm
    rw [length_orderPrefix, length_orderPrefix]
  · rintro rfl
    exact List.prefix_append _ _

end OrderEventKey

namespace FillKey
variable {k : FillKey} {market trader owner : PublicKey}

theorem marketPrefix_le_encode_iff :
    marketPrefix market <+: k.encodeByMarket ↔ k.order.market = market := by
  simp [marketPrefix, encodeByMarket, PublicKey.prefix_append_iff]

theorem traderPrefix_le_encode_iff :
    traderPrefix trader <+: k.encodeByTrader owner ↔ owner = trader := by
  simp [traderPrefix, encodeByTrader, PublicKey.prefix_append_iff]

theorem traderMarketPrefix_le_encode_iff :
    traderMarketPrefix trader market <+: k.encodeByTraderMarket owner ↔
      owner = trader ∧ k.order.market = market := by
  simp [traderMarketPrefix, encodeByTraderMarket, PublicKey.append_prefix_append_iff,
    PublicKey.prefix_append_iff]

end FillKey

theorem Ownership.keyPrefix_le_encode (account : PublicKey) : keyPrefix <+: encodeKey account :=
  List.prefix_append keyPrefix account.bytes

/-! ### Prefixes among all keys -/

namespace Family
variable {family : Family} {p key : Bytes}

/-- The keys that start with a prefix, of whatever family, are those that satisfy `Selected`. -/
def Selects (p : Bytes) (Selected : Bytes → Prop) : Prop :=
  ∀ key, (∃ family, IsKey family key) ∧ p <+: key ↔ Selected key

theorem IsKey.eq_of_prefix_le {family' : Family} (h : IsKey family' key)
    (htag : p.head? = some family.tag) (hp : p <+: key) : family' = family := by
  obtain ⟨rest, rfl⟩ := hp
  have hhead : (p ++ rest).head? = some family.tag := by
    rw [List.head?_append, htag, Option.some_or]
  exact eq_of_tag_eq (Option.some.inj (h.head?_eq.symm.trans hhead))

/-- It is enough to know which keys of its own family start with a prefix. -/
theorem selects (family : Family) {α : Type} {write : α → Bytes} {Chosen : α → Prop}
    (htag : p.head? = some family.tag) (hkeys : ∀ key, IsKey family key ↔ ∃ x, write x = key)
    (hchosen : ∀ x, p <+: write x ↔ Chosen x) :
    Selects p fun key => ∃ x, Chosen x ∧ write x = key := by
  intro key
  constructor
  · rintro ⟨⟨family', hkey⟩, hp⟩
    obtain rfl := hkey.eq_of_prefix_le htag hp
    obtain ⟨x, rfl⟩ := (hkeys key).mp hkey
    exact ⟨x, (hchosen x).mp hp, rfl⟩
  · rintro ⟨x, hx, rfl⟩
    exact ⟨⟨family, (hkeys _).mpr ⟨x, rfl⟩⟩, (hchosen x).mpr hx⟩

theorem selects_orderPrefix (order : OrderKey) :
    Selects (OrderEventKey.orderPrefix order) fun key =>
      ∃ k : OrderEventKey, k.order = order ∧ k.encode = key := by
  refine selects .orderEvent rfl (fun key => ⟨fun h => ?_, ?_⟩) fun k =>
    OrderEventKey.orderPrefix_le_encode_iff
  · cases h with
    | orderEvent k => exact ⟨k, rfl⟩
  · rintro ⟨k, rfl⟩
    exact .orderEvent k

theorem selects_marketPrefix (market : PublicKey) :
    Selects (FillKey.marketPrefix market) fun key =>
      ∃ k : FillKey, k.order.market = market ∧ k.encodeByMarket = key := by
  refine selects .fillByMarket rfl (fun key => ⟨fun h => ?_, ?_⟩) fun k =>
    FillKey.marketPrefix_le_encode_iff
  · cases h with
    | fillByMarket k => exact ⟨k, rfl⟩
  · rintro ⟨k, rfl⟩
    exact .fillByMarket k

theorem selects_traderPrefix (trader : PublicKey) :
    Selects (FillKey.traderPrefix trader) fun key =>
      ∃ x : PublicKey × FillKey, x.1 = trader ∧ x.2.encodeByTrader x.1 = key := by
  refine selects .fillByTrader rfl (fun key => ⟨fun h => ?_, ?_⟩) fun x =>
    FillKey.traderPrefix_le_encode_iff
  · cases h with
    | fillByTrader owner k => exact ⟨(owner, k), rfl⟩
  · rintro ⟨x, rfl⟩
    exact .fillByTrader x.1 x.2

theorem selects_traderMarketPrefix (trader market : PublicKey) :
    Selects (FillKey.traderMarketPrefix trader market) fun key =>
      ∃ x : PublicKey × FillKey, (x.1 = trader ∧ x.2.order.market = market) ∧
        x.2.encodeByTraderMarket x.1 = key := by
  refine selects .fillByTraderMarket rfl (fun key => ⟨fun h => ?_, ?_⟩) fun x =>
    FillKey.traderMarketPrefix_le_encode_iff
  · cases h with
    | fillByTraderMarket owner k => exact ⟨(owner, k), rfl⟩
  · rintro ⟨x, rfl⟩
    exact .fillByTraderMarket x.1 x.2

/-- The prefix of trading accounts names no field, so that it selects all of their keys. -/
theorem selects_accountPrefix :
    Selects Ownership.keyPrefix fun key => ∃ account, Ownership.encodeKey account = key := by
  have h : Selects Ownership.keyPrefix fun key =>
      ∃ account, True ∧ Ownership.encodeKey account = key := by
    refine selects .tradingAccount rfl (fun key => ⟨fun h => ?_, ?_⟩) fun account =>
      iff_true_intro (Ownership.keyPrefix_le_encode account)
    · cases h with
      | tradingAccount account => exact ⟨account, rfl⟩
    · rintro ⟨account, rfl⟩
      exact .tradingAccount account
  simpa only [true_and] using h

end Family

/-- The keys of every family are in the order of their ranks: event keys by market, newest order
first, and within an order in the order of positions; the keys of an index by market or trader, then
newest slot first and within a slot in chain order. A prefix selects the keys with its fields among
those of all families. -/
theorem Family.keys_ranked :
    Bytes.Sorts OrderEventKey.encode OrderEventKey.rank orderEvent.keyLength ∧
    (∀ (order : OrderKey) (p q : EventPosition),
      (⟨order, p.place, p.type⟩ : OrderEventKey).encode <
        (⟨order, q.place, q.type⟩ : OrderEventKey).encode ↔ p.before q) ∧
    Bytes.Sorts FillKey.encodeByMarket FillKey.rankByMarket fillByMarket.keyLength ∧
    Bytes.Sorts (fun x : PublicKey × FillKey => x.2.encodeByTrader x.1) FillKey.rankByTrader
      fillByTrader.keyLength ∧
    Bytes.Sorts (fun x : PublicKey × FillKey => x.2.encodeByTraderMarket x.1)
      FillKey.rankByTraderMarket fillByTraderMarket.keyLength ∧
    (∀ order, Selects (OrderEventKey.orderPrefix order) fun key =>
      ∃ k : OrderEventKey, k.order = order ∧ k.encode = key) ∧
    (∀ market, Selects (FillKey.marketPrefix market) fun key =>
      ∃ k : FillKey, k.order.market = market ∧ k.encodeByMarket = key) ∧
    (∀ trader, Selects (FillKey.traderPrefix trader) fun key =>
      ∃ x : PublicKey × FillKey, x.1 = trader ∧ x.2.encodeByTrader x.1 = key) ∧
    (∀ trader market, Selects (FillKey.traderMarketPrefix trader market) fun key =>
      ∃ x : PublicKey × FillKey, (x.1 = trader ∧ x.2.order.market = market) ∧
        x.2.encodeByTraderMarket x.1 = key) ∧
    Selects Ownership.keyPrefix fun key => ∃ account, Ownership.encodeKey account = key := by
  have hpositions (order : OrderKey) (p q : EventPosition) :
      (⟨order, p.place, p.type⟩ : OrderEventKey).encode <
        (⟨order, q.place, q.type⟩ : OrderEventKey).encode ↔ p.before q :=
    OrderEventKey.encode_lt_iff rfl
  exact ⟨OrderEventKey.sorts_encode, hpositions, FillKey.sorts_encodeByMarket,
    FillKey.sorts_encodeByTrader, FillKey.sorts_encodeByTraderMarket, selects_orderPrefix,
    selects_marketPrefix, selects_traderPrefix, selects_traderMarketPrefix, selects_accountPrefix⟩

end DexIndex
