import DexIndex.Proofs.Key.Codec
import Mathlib.Data.Prod.Lex

/-!
# Bytes in the order of what they are written for

Big-endian words are in byte order as they are in the order of numbers, complemented words are in the
opposite order, and fields of fixed widths one after another are compared one after another
(`Bytes.Sorts.append`). So the keys of every family are in the lexicographic order of their fields,
their *rank* (`OrderEventKey.sorts_encode`, `FillKey.sorts_encodeByMarket` and so on).
-/

namespace DexIndex

namespace Bytes

theorem append_lt_append_iff {a b s t : Bytes} (h : a.length = b.length) :
    a ++ s < b ++ t ↔ a < b ∨ a = b ∧ s < t := by
  induction a generalizing b with
  | nil =>
    obtain rfl := List.length_eq_zero_iff.mp h.symm
    simp
  | cons x a ih =>
    cases b with
    | nil => simp at h
    | cons y b =>
      have hlen : a.length = b.length := by simpa using h
      simp only [List.cons_append, List.cons_lt_cons_iff, ih hlen, List.cons.injEq, and_or_left,
        or_assoc, and_assoc]

theorem valueLE_append (a b : Bytes) :
    valueLE (a ++ b) = valueLE a + Nat.pow 256 a.length * valueLE b := by
  induction a with
  | nil => simp [valueLE]
  | cons x a ih =>
    have hp : Nat.pow 256 (a.length + 1) = 256 * Nat.pow 256 a.length := Nat.mul_comm ..
    rw [List.cons_append, valueLE, valueLE, ih, List.length_cons, hp, Nat.mul_add, Nat.mul_assoc,
      Nat.add_assoc]

theorem valueBE_cons (x : UInt8) (a : Bytes) :
    valueBE (x :: a) = valueBE a + Nat.pow 256 a.length * x.toNat := by
  rw [valueBE, valueBE, List.reverse_cons, valueLE_append, List.length_reverse]
  rfl

theorem valueBE_lt (a : Bytes) : valueBE a < Nat.pow 256 a.length := by
  have h := valueLE_lt a.reverse
  rwa [List.length_reverse] at h

/-- Byte order is the order of the numbers that bytes stand for. -/
theorem lt_iff_valueBE_lt {a b : Bytes} (h : a.length = b.length) :
    a < b ↔ valueBE a < valueBE b := by
  induction a generalizing b with
  | nil =>
    obtain rfl := List.length_eq_zero_iff.mp h.symm
    simp
  | cons x a ih =>
    cases b with
    | nil => simp at h
    | cons y b =>
      have hlen : a.length = b.length := by simpa using h
      have ha := valueBE_lt a
      have hb := valueBE_lt b
      rw [List.cons_lt_cons_iff, ih hlen, valueBE_cons, valueBE_cons, hlen,
        UInt8.lt_iff_toNat_lt, ← UInt8.toNat_inj]
      rw [hlen] at ha
      generalize Nat.pow 256 b.length = p at ha hb
      rcases Nat.lt_trichotomy x.toNat y.toNat with hxy | hxy | hxy
      · have hp : p * (x.toNat + 1) ≤ p * y.toNat := Nat.mul_le_mul_left p hxy
        rw [Nat.mul_add_one] at hp
        omega
      · rw [hxy]
        omega
      · have hp : p * (y.toNat + 1) ≤ p * x.toNat := Nat.mul_le_mul_left p hxy
        rw [Nat.mul_add_one] at hp
        omega

theorem ofWordBE_lt_iff {m n : UInt64} : ofWordBE m < ofWordBE n ↔ m < n := by
  have hvalue (n : UInt64) : valueBE (ofWordBE n) = n.toNat := by
    rw [ofWordBE, valueBE_bigEndian]
    exact Nat.mod_eq_of_lt n.toNat_lt
  rw [lt_iff_valueBE_lt (by simp), hvalue, hvalue, UInt64.lt_iff_toNat_lt]

theorem ofWordBE_inj {m n : UInt64} : ofWordBE m = ofWordBE n ↔ m = n := by
  refine ⟨fun h => ?_, congrArg ofWordBE⟩
  have hm := Reader.word64BE_append m []
  rw [h, Reader.word64BE_append] at hm
  exact (congrArg Prod.fst (Option.some.inj hm)).symm

end Bytes

/-- Complemented words are in the opposite order. -/
theorem not_lt_not_iff {m n : UInt64} : ~~~m < ~~~n ↔ n < m := by
  have hm := m.toNat_lt
  have hn := n.toNat_lt
  rw [UInt64.lt_iff_toNat_lt, UInt64.lt_iff_toNat_lt, UInt64.toNat_not, UInt64.toNat_not,
    UInt64.size]
  omega

open OrderDual (toDual)

/-! ### Fields -/

/-- What is written are byte strings of a width, in the order of the ranks of what they are written
for. -/
structure Bytes.Sorts {α β : Type} [LT β] (write : α → Bytes) (rank : α → β) (width : Nat) :
    Prop where
  length : ∀ x, (write x).length = width
  lt_iff : ∀ x y, write x < write y ↔ rank x < rank y
  eq_iff : ∀ x y, write x = write y ↔ rank x = rank y

namespace Bytes.Sorts
variable {α β γ : Type} [LT β] [LT γ] {f g : α → Bytes} {r : α → β} {s : α → γ} {m n : Nat}

/-- Of fields one after another the first one that differs decides. -/
theorem append (hf : Sorts f r m) (hg : Sorts g s n) :
    Sorts (fun x => f x ++ g x) (fun x => toLex (r x, s x)) (m + n) := by
  have hlength (x y : α) : (f x).length = (f y).length := (hf.length x).trans (hf.length y).symm
  refine ⟨fun x => ?_, fun x y => ?_, fun x y => ?_⟩
  · rw [List.length_append, hf.length, hg.length]
  · rw [append_lt_append_iff (hlength x y), hf.lt_iff, hf.eq_iff, hg.lt_iff,
      Prod.Lex.toLex_lt_toLex]
  · have hparts : f x ++ g x = f y ++ g y ↔ f x = f y ∧ g x = g y :=
      ⟨fun h => List.append_inj h (hlength x y), fun ⟨hx, hy⟩ => by rw [hx, hy]⟩
    rw [hparts, hf.eq_iff, hg.eq_iff, toLex_inj, Prod.mk.injEq]

theorem tagged (hf : Sorts f r m) (tag : UInt8) : Sorts (fun x => tag :: f x) r (m + 1) := by
  refine ⟨fun x => ?_, fun x y => ?_, fun x y => ?_⟩
  · rw [List.length_cons, hf.length]
  · rw [List.cons_lt_cons_iff, hf.lt_iff]
    simp [UInt8.lt_irrefl]
  · rw [List.cons_inj_right, hf.eq_iff]

theorem of_eq (hf : Sorts f r m) (h : ∀ x, g x = f x) : Sorts g r m := by
  obtain rfl : g = f := funext h
  exact hf

theorem of_width (hf : Sorts f r m) (h : m = n) : Sorts f r n := h ▸ hf

theorem word (field : α → UInt64) : Sorts (fun x => ofWordBE (field x)) field 8 :=
  ⟨fun x => length_ofWordBE (field x), fun _ _ => ofWordBE_lt_iff, fun _ _ => ofWordBE_inj⟩

theorem complement (field : α → UInt64) :
    Sorts (fun x => ofWordBE (~~~(field x))) (fun x => toDual (field x)) 8 := by
  refine ⟨fun x => length_ofWordBE _, fun x y => ?_, fun x y => ?_⟩
  · rw [ofWordBE_lt_iff, not_lt_not_iff, OrderDual.toDual_lt_toDual]
  · rw [ofWordBE_inj, UInt64.not_inj, OrderDual.toDual_inj]

theorem publicKey (field : α → PublicKey) :
    Sorts (fun x => (field x).bytes) (fun x => (field x).bytes) 32 :=
  ⟨fun x => (field x).length_bytes, fun _ _ => Iff.rfl, fun _ _ => Iff.rfl⟩

theorem byte (field : α → UInt8) : Sorts (fun x => [field x]) field 1 := by
  refine ⟨fun _ => rfl, fun x y => ?_, fun x y => ?_⟩
  · rw [List.cons_lt_cons_iff]
    simp
  · rw [List.cons.injEq, and_iff_left rfl]

theorem seq (field : α → UInt64) :
    Sorts (fun x => encodeSeq (field x)) (fun x => toDual (field x)) 8 :=
  complement field

theorem ascending (field : α → Place) (hg : Sorts g s n) :
    Sorts (fun x => (field x).encodeAscending ++ g x)
      (fun x => toLex ((field x).slot, toLex ((field x).trx, toLex ((field x).inst, s x))))
      (24 + n) := by
  have h := (word fun x => (field x).slot).append <| (word fun x => (field x).trx).append <|
    (word fun x => (field x).inst).append hg
  refine (h.of_eq fun x => ?_).of_width (by omega)
  simp [Place.encodeAscending]

theorem descending (field : α → Place) (hg : Sorts g s n) :
    Sorts (fun x => (field x).encodeDescending ++ g x)
      (fun x => toLex (toDual (field x).slot, toLex ((field x).trx, toLex ((field x).inst, s x))))
      (24 + n) := by
  have h := (complement fun x => (field x).slot).append <| (word fun x => (field x).trx).append <|
    (word fun x => (field x).inst).append hg
  refine (h.of_eq fun x => ?_).of_width (by omega)
  simp [Place.encodeDescending]

end Bytes.Sorts

/-! ### Ranks -/

/-- The market, its newest order first, and the history of the order. -/
def OrderEventKey.rank (k : OrderEventKey) :
    Bytes ×ₗ UInt64ᵒᵈ ×ₗ UInt64 ×ₗ UInt64 ×ₗ UInt64 ×ₗ UInt8 :=
  toLex (k.order.market.bytes, toLex (toDual k.order.seq, toLex (k.place.slot,
    toLex (k.place.trx, toLex (k.place.inst, k.type.toByte)))))

theorem OrderEventKey.sorts_encode : Bytes.Sorts encode rank Family.orderEvent.keyLength := by
  have h := (Bytes.Sorts.publicKey fun k : OrderEventKey => k.order.market).append <|
    (Bytes.Sorts.seq fun k => k.order.seq).append <|
    Bytes.Sorts.ascending (fun k => k.place) <| Bytes.Sorts.byte fun k => k.type.toByte
  refine (h.tagged Family.orderEvent.tag).of_eq fun k => ?_
  simp [encode]

namespace FillKey

/-- The market, its newest slot first, within the slot the order of the chain, and of the fills of
an instruction the newest order first. -/
def rankByMarket (k : FillKey) : Bytes ×ₗ UInt64ᵒᵈ ×ₗ UInt64 ×ₗ UInt64 ×ₗ UInt64ᵒᵈ :=
  toLex (k.order.market.bytes, toLex (toDual k.place.slot, toLex (k.place.trx,
    toLex (k.place.inst, toDual k.order.seq))))

/-- The trader, and then as by market, but with the market only after the place. -/
def rankByTrader (x : PublicKey × FillKey) :
    Bytes ×ₗ UInt64ᵒᵈ ×ₗ UInt64 ×ₗ UInt64 ×ₗ Bytes ×ₗ UInt64ᵒᵈ :=
  toLex (x.1.bytes, toLex (toDual x.2.place.slot, toLex (x.2.place.trx, toLex (x.2.place.inst,
    toLex (x.2.order.market.bytes, toDual x.2.order.seq)))))

/-- The trader, and then as by market. -/
def rankByTraderMarket (x : PublicKey × FillKey) :
    Bytes ×ₗ Bytes ×ₗ UInt64ᵒᵈ ×ₗ UInt64 ×ₗ UInt64 ×ₗ UInt64ᵒᵈ :=
  toLex (x.1.bytes, x.2.rankByMarket)

theorem sorts_encodeByMarket :
    Bytes.Sorts encodeByMarket rankByMarket Family.fillByMarket.keyLength := by
  have h := (Bytes.Sorts.publicKey fun k : FillKey => k.order.market).append <|
    Bytes.Sorts.descending (fun k => k.place) <| Bytes.Sorts.seq fun k => k.order.seq
  refine (h.tagged Family.fillByMarket.tag).of_eq fun k => ?_
  simp [encodeByMarket]

theorem sorts_encodeByTrader :
    Bytes.Sorts (fun x : PublicKey × FillKey => x.2.encodeByTrader x.1) rankByTrader
      Family.fillByTrader.keyLength := by
  have h := (Bytes.Sorts.publicKey fun x : PublicKey × FillKey => x.1).append <|
    Bytes.Sorts.descending (fun x => x.2.place) <|
    (Bytes.Sorts.publicKey fun x => x.2.order.market).append <|
    Bytes.Sorts.seq fun x => x.2.order.seq
  refine (h.tagged Family.fillByTrader.tag).of_eq fun x => ?_
  simp [encodeByTrader]

theorem sorts_encodeByTraderMarket :
    Bytes.Sorts (fun x : PublicKey × FillKey => x.2.encodeByTraderMarket x.1) rankByTraderMarket
      Family.fillByTraderMarket.keyLength := by
  have h := (Bytes.Sorts.publicKey fun x : PublicKey × FillKey => x.1).append <|
    (Bytes.Sorts.publicKey fun x => x.2.order.market).append <|
    Bytes.Sorts.descending (fun x => x.2.place) <| Bytes.Sorts.seq fun x => x.2.order.seq
  refine (h.tagged Family.fillByTraderMarket.tag).of_eq fun x => ?_
  simp [encodeByTraderMarket]

end FillKey

end DexIndex
