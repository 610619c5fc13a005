import DexIndex.Proofs.Key.Codec
import Mathlib.Logic.Function.Basic

/-!
# One key for the fields, one reading for the key

The fields of a key fill it: whatever bytes stand where a field is due are written for some value of
the field (`Bytes.Fills`). So the keys that are read are all byte strings with the length and the tag
of their family, and each of them is what is written for the fields that are read from it
(`Canonical`, `Family.keys_canonical`).
-/

namespace DexIndex

/-! ### Fields -/

/-- What is written are all byte strings of a width. -/
def Bytes.Fills {α : Type} (write : α → Bytes) (width : Nat) : Prop :=
  ∀ bs : Bytes, (∃ x, write x = bs) ↔ bs.length = width

namespace Bytes.Fills
variable {α β : Type} {f : α → Bytes} {g : β → Bytes} {m n : Nat}

theorem append (hf : Fills f m) (hg : Fills g n) :
    Fills (fun p : α × β => f p.1 ++ g p.2) (m + n) := by
  intro bs
  constructor
  · rintro ⟨⟨x, y⟩, rfl⟩
    have hx := (hf (f x)).mp ⟨x, rfl⟩
    have hy := (hg (g y)).mp ⟨y, rfl⟩
    simp [hx, hy]
  · intro h
    obtain ⟨x, hx⟩ := (hf (bs.take m)).mpr (by rw [List.length_take]; omega)
    obtain ⟨y, hy⟩ := (hg (bs.drop m)).mpr (by rw [List.length_drop]; omega)
    refine ⟨(x, y), ?_⟩
    show f x ++ g y = bs
    rw [hx, hy, List.take_append_drop]

theorem rearrange (hf : Fills f m) (e : β → α) (he : Function.Surjective e) :
    Fills (fun y => f (e y)) m := by
  intro bs
  rw [← hf bs]
  constructor
  · rintro ⟨y, hy⟩
    exact ⟨e y, hy⟩
  · rintro ⟨x, hx⟩
    obtain ⟨y, rfl⟩ := he x
    exact ⟨y, hx⟩

theorem word : Fills ofWordBE 8 := by
  intro bs
  constructor
  · rintro ⟨n, rfl⟩
    exact length_ofWordBE n
  · intro h
    have hlt : valueBE bs < UInt64.size := by
      have hlt := valueLE_lt bs.reverse
      rw [List.length_reverse, h] at hlt
      exact hlt
    refine ⟨UInt64.ofNat (valueBE bs), ?_⟩
    rw [ofWordBE, UInt64.toNat_ofNat_of_lt' hlt, ← h]
    exact bigEndian_valueBE bs

theorem publicKey : Fills PublicKey.bytes 32 := by
  intro bs
  constructor
  · rintro ⟨k, rfl⟩
    exact k.length_bytes
  · intro h
    exact ⟨⟨bs, h⟩, rfl⟩

theorem byte : Fills (fun b : UInt8 => [b]) 1 := by
  intro bs
  rw [List.length_eq_one_iff]
  exact ⟨fun ⟨b, hb⟩ => ⟨b, hb.symm⟩, fun ⟨b, hb⟩ => ⟨b, hb.symm⟩⟩

theorem not_surjective : Function.Surjective fun n : UInt64 => ~~~n := by
  intro n
  exact ⟨~~~n, UInt64.not_not⟩

theorem seq : Fills encodeSeq 8 := word.rearrange _ not_surjective

theorem ascending : Fills Place.encodeAscending 24 := by
  refine ((word.append word).append word).rearrange (fun p : Place => ((p.slot, p.trx), p.inst)) ?_
  rintro ⟨⟨slot, trx⟩, inst⟩
  exact ⟨⟨slot, trx, inst⟩, rfl⟩

theorem descending : Fills Place.encodeDescending 24 := by
  refine ((word.append word).append word).rearrange
    (fun p : Place => ((~~~p.slot, p.trx), p.inst)) ?_
  rintro ⟨⟨slot, trx⟩, inst⟩
  exact ⟨⟨~~~slot, trx, inst⟩, by simp⟩

end Bytes.Fills

/-! ### Reading and writing -/

/-- Reading is the inverse of writing, both ways, and what can be read are the byte strings that
are `Valid`. -/
structure Canonical {α : Type} (write : α → Bytes) (read : Bytes → Except CodecError α)
    (Valid : Bytes → Prop) : Prop where
  read_write : ∀ x, read (write x) = .ok x
  write_read : ∀ bs x, read bs = .ok x → write x = bs
  reads_iff : ∀ bs, (∃ x, read bs = .ok x) ↔ Valid bs

/-- It is enough that all byte strings that may be read are written. -/
theorem Canonical.of_written {α : Type} {write : α → Bytes} {read : Bytes → Except CodecError α}
    {Valid : Bytes → Prop} (hwrite : ∀ x, read (write x) = .ok x)
    (hwritten : ∀ bs, Valid bs → ∃ x, write x = bs)
    (hvalid : ∀ bs x, read bs = .ok x → Valid bs) : Canonical write read Valid := by
  refine ⟨hwrite, fun bs x hx => ?_, fun bs => ⟨fun ⟨x, hx⟩ => hvalid bs x hx, fun h => ?_⟩⟩
  · obtain ⟨y, rfl⟩ := hwritten bs (hvalid bs x hx)
    cases (hwrite y).symm.trans hx
    rfl
  · obtain ⟨x, rfl⟩ := hwritten bs h
    exact ⟨x, hwrite x⟩

namespace Family

/-- A byte string with the length and the tag of the keys of a family. -/
def Shaped (family : Family) (key : Bytes) : Prop :=
  key.length = family.keyLength ∧ key.head? = some family.tag

variable {α : Type} {family : Family}

theorem shaped_of_decode {fields : Reader α} {key : Bytes} {x : α}
    (h : family.decode fields key = .ok x) : family.Shaped key := by
  unfold Family.decode at h
  split at h
  · cases h
  · next hlength =>
    split at h
    · cases h
    · next htag =>
      have hlength : key.length = family.keyLength := not_not.mp hlength
      have htag : key.headD 0 = family.tag := not_not.mp htag
      cases key with
      | nil => cases family <;> cases hlength
      | cons b body => exact ⟨hlength, congrArg some htag⟩

/-- A family all of whose keys are written has no other byte strings of their shape. -/
theorem exists_of_shaped {body : α → Bytes} {width : Nat} (hfills : Bytes.Fills body width)
    (hwidth : family.keyLength = width + 1) {key : Bytes} (h : family.Shaped key) :
    ∃ x, family.tag :: body x = key := by
  obtain ⟨hlength, htag⟩ := h
  cases key with
  | nil => cases htag
  | cons b bs =>
    cases Option.some.inj htag
    rw [List.length_cons] at hlength
    obtain ⟨x, rfl⟩ := (hfills bs).mpr (by omega)
    exact ⟨x, rfl⟩

theorem canonical {write : α → Bytes} {body : α → Bytes} {width : Nat} {fields : Reader α}
    (hread : ∀ x, family.decode fields (write x) = .ok x)
    (hwrite : ∀ x, write x = family.tag :: body x) (hfills : Bytes.Fills body width)
    (hwidth : family.keyLength = width + 1) :
    Canonical write (family.decode fields) family.Shaped := by
  refine .of_written hread (fun key h => ?_) fun key x h => shaped_of_decode h
  obtain ⟨x, rfl⟩ := exists_of_shaped hfills hwidth h
  exact ⟨x, hwrite x⟩

end Family

/-! ### The families -/

namespace FillKey

theorem canonical_byMarket :
    Canonical encodeByMarket decodeByMarket Family.fillByMarket.Shaped := by
  refine Family.canonical decodeByMarket_encodeByMarket (fun _ => rfl)
    (((Bytes.Fills.publicKey.append .descending).append .seq).rearrange
      (fun k : FillKey => ((k.order.market, k.place), k.order.seq)) ?_) rfl
  rintro ⟨⟨market, place⟩, seq⟩
  exact ⟨⟨⟨market, seq⟩, place⟩, rfl⟩

theorem canonical_byTrader :
    Canonical (fun x => encodeByTrader x.1 x.2) decodeByTrader Family.fillByTrader.Shaped := by
  refine Family.canonical (fun x => decodeByTrader_encodeByTrader x.1 x.2) (fun _ => rfl)
    ((((Bytes.Fills.publicKey.append .descending).append .publicKey).append .seq).rearrange
      (fun x : PublicKey × FillKey => (((x.1, x.2.place), x.2.order.market), x.2.order.seq)) ?_) rfl
  rintro ⟨⟨⟨trader, place⟩, market⟩, seq⟩
  exact ⟨(trader, ⟨⟨market, seq⟩, place⟩), rfl⟩

theorem canonical_byTraderMarket :
    Canonical (fun x => encodeByTraderMarket x.1 x.2) decodeByTraderMarket
      Family.fillByTraderMarket.Shaped := by
  refine Family.canonical (fun x => decodeByTraderMarket_encodeByTraderMarket x.1 x.2)
    (fun _ => rfl)
    ((((Bytes.Fills.publicKey.append .publicKey).append .descending).append .seq).rearrange
      (fun x : PublicKey × FillKey => (((x.1, x.2.order.market), x.2.place), x.2.order.seq)) ?_) rfl
  rintro ⟨⟨⟨trader, market⟩, place⟩, seq⟩
  exact ⟨(trader, ⟨⟨market, seq⟩, place⟩), rfl⟩

end FillKey

theorem Ownership.canonical_key :
    Canonical encodeKey decodeKey Family.tradingAccount.Shaped :=
  Family.canonical decodeKey_encodeKey (fun _ => rfl) .publicKey rfl

theorem EventType.ofByte?_eq_some_iff {b : UInt8} {t : EventType} :
    ofByte? b = some t ↔ b = t.toByte := by
  constructor
  · intro h
    unfold ofByte? at h
    split at h <;> cases h <;> rfl
  · rintro rfl
    exact ofByte?_toByte t

theorem EventType.exists_toByte_iff {b : UInt8} : (∃ t : EventType, t.toByte = b) ↔ b ≤ 4 := by
  constructor
  · rintro ⟨t, rfl⟩
    cases t <;> decide
  · intro h
    have hb : b.toNat ≤ 4 := UInt8.le_iff_toNat_le.mp h
    have hcases : b.toNat = 0 ∨ b.toNat = 1 ∨ b.toNat = 2 ∨ b.toNat = 3 ∨ b.toNat = 4 := by omega
    rcases hcases with h | h | h | h | h
    exacts [⟨.newOrder, UInt8.toNat_inj.mp h.symm⟩, ⟨.fill, UInt8.toNat_inj.mp h.symm⟩,
      ⟨.orderExecuted, UInt8.toNat_inj.mp h.symm⟩, ⟨.orderCancelled, UInt8.toNat_inj.mp h.symm⟩,
      ⟨.orderClosed, UInt8.toNat_inj.mp h.symm⟩]

namespace OrderEventKey

/-- The key of an event but for its type, of which the byte is given. -/
def encodeWith (order : OrderKey) (place : Place) (byte : UInt8) : Bytes :=
  Family.orderEvent.tag :: (order.market.bytes ++ encodeSeq order.seq ++ place.encodeAscending ++
    [byte])

theorem exists_encodeWith {key : Bytes} (h : Family.orderEvent.Shaped key) :
    ∃ order place byte, encodeWith order place byte = key := by
  obtain ⟨⟨⟨⟨market, seq⟩, place⟩, byte⟩, hkey⟩ := Family.exists_of_shaped
    (((Bytes.Fills.publicKey.append .seq).append .ascending).append .byte) rfl h
  exact ⟨⟨market, seq⟩, place, byte, hkey⟩

theorem getLast?_encodeWith (order : OrderKey) (place : Place) (byte : UInt8) :
    (encodeWith order place byte).getLast? = some byte := by
  rw [encodeWith, ← List.cons_append, List.getLast?_concat]

/-- Whatever the last byte is, it is read, and it decides. -/
theorem decode_encodeWith (order : OrderKey) (place : Place) (byte : UInt8) :
    decode (encodeWith order place byte) =
      match EventType.ofByte? byte with
      | some type => .ok ⟨order, place, type⟩
      | none => .error (.unknownEventType byte) := by
  have hdecode : Family.orderEvent.decode fields (encodeWith order place byte) =
      .ok (order, place, byte) :=
    Family.decode_of_fields (by simp [Family.keyLength, PublicKey.length_bytes])
      (fields_eval order place byte)
  rw [decode, hdecode]
  rfl

theorem canonical : Canonical encode decode fun key =>
    Family.orderEvent.Shaped key ∧ ∃ byte, key.getLast? = some byte ∧ byte ≤ 4 := by
  refine .of_written decode_encode ?_ fun key k h => ?_
  · rintro key ⟨hshaped, byte, hlast, hbyte⟩
    obtain ⟨order, place, byte', rfl⟩ := exists_encodeWith hshaped
    rw [getLast?_encodeWith] at hlast
    cases hlast
    obtain ⟨type, rfl⟩ := EventType.exists_toByte_iff.mpr hbyte
    exact ⟨⟨order, place, type⟩, rfl⟩
  · have hshaped : Family.orderEvent.Shaped key := by
      cases hdecode : Family.orderEvent.decode fields key with
      | error e =>
        rw [decode, hdecode] at h
        cases h
      | ok x => exact Family.shaped_of_decode hdecode
    obtain ⟨order, place, byte, rfl⟩ := exists_encodeWith hshaped
    refine ⟨hshaped, byte, getLast?_encodeWith order place byte, ?_⟩
    rw [decode_encodeWith] at h
    cases htype : EventType.ofByte? byte with
    | none =>
      rw [htype] at h
      cases h
    | some type =>
      exact EventType.exists_toByte_iff.mp ⟨type, (EventType.ofByte?_eq_some_iff.mp htype).symm⟩

end OrderEventKey

theorem Checkpoint.canonical : Canonical encode decode fun value =>
    8 ≤ value.length ∧ ∃ id : String, value.drop 8 = Utf8.encode id := by
  refine .of_written decode_encode ?_ fun value c h => ?_
  · rintro value ⟨hlength, id, hid⟩
    obtain ⟨slot, hslot⟩ := (Bytes.Fills.word (value.take 8)).mpr (by rw [List.length_take]; omega)
    refine ⟨⟨slot, id⟩, ?_⟩
    rw [encode, hslot, ← hid, List.take_append_drop]
  · have hlength : 8 ≤ value.length := by
      by_contra hshort
      have hnone : Reader.word64BE value = none := by
        rw [Reader.word64BE, Reader.bind_apply, Reader.take, if_neg hshort]
        rfl
      rw [decode, hnone] at h
      cases h
    refine ⟨hlength, ?_⟩
    obtain ⟨slot, hslot⟩ := (Bytes.Fills.word (value.take 8)).mpr (by rw [List.length_take]; omega)
    have hvalue : value = Bytes.ofWordBE slot ++ value.drop 8 := by
      rw [hslot, List.take_append_drop]
    rw [hvalue, decode, Reader.word64BE_append] at h
    dsimp only at h
    cases hid : Utf8.decode? (value.drop 8) with
    | none =>
      rw [hid] at h
      cases h
    | some id => exact ⟨id, Utf8.eq_encode_of_decode? hid⟩

/-! ### All keys -/

inductive Family.IsKey : Family → Bytes → Prop
  | checkpoint : IsKey .checkpoint Checkpoint.key
  | fillByMarket (k : FillKey) : IsKey .fillByMarket k.encodeByMarket
  | fillByTrader (trader : PublicKey) (k : FillKey) : IsKey .fillByTrader (k.encodeByTrader trader)
  | fillByTraderMarket (trader : PublicKey) (k : FillKey) :
      IsKey .fillByTraderMarket (k.encodeByTraderMarket trader)
  | orderEvent (k : OrderEventKey) : IsKey .orderEvent k.encode
  | tradingAccount (account : PublicKey) : IsKey .tradingAccount (Ownership.encodeKey account)

theorem Family.IsKey.head?_eq {family : Family} {key : Bytes} (h : family.IsKey key) :
    key.head? = some family.tag := by
  cases h <;> rfl

/-- In every family each key is read as the fields that it is written for and is written for the
fields that are read from it, and what is read are all byte strings of the right length with the
family's tag; the last byte of an event's key must be an event type, and the value of the checkpoint
is a word before a text. No key belongs to two families, and the event key of a fill is read as the
fill's. -/
theorem Family.keys_canonical :
    Canonical FillKey.encodeByMarket FillKey.decodeByMarket fillByMarket.Shaped ∧
    Canonical (fun x => FillKey.encodeByTrader x.1 x.2) FillKey.decodeByTrader
      fillByTrader.Shaped ∧
    Canonical (fun x => FillKey.encodeByTraderMarket x.1 x.2) FillKey.decodeByTraderMarket
      fillByTraderMarket.Shaped ∧
    Canonical OrderEventKey.encode OrderEventKey.decode (fun key =>
      orderEvent.Shaped key ∧ ∃ byte, key.getLast? = some byte ∧ byte ≤ 4) ∧
    Canonical Ownership.encodeKey Ownership.decodeKey tradingAccount.Shaped ∧
    Canonical Checkpoint.encode Checkpoint.decode (fun value =>
      8 ≤ value.length ∧ ∃ id : String, value.drop 8 = Utf8.encode id) ∧
    (∀ a b key, IsKey a key → IsKey b key → a = b) ∧
    ∀ k : FillKey, OrderEventKey.decode k.orderEvent.encode = .ok ⟨k.order, k.place, .fill⟩ := by
  refine ⟨FillKey.canonical_byMarket, FillKey.canonical_byTrader, FillKey.canonical_byTraderMarket,
    OrderEventKey.canonical, Ownership.canonical_key, Checkpoint.canonical, ?_, ?_⟩
  · intro a b key ha hb
    exact eq_of_tag_eq (Option.some.inj (ha.head?_eq.symm.trans hb.head?_eq))
  · intro k
    exact OrderEventKey.decode_encode k.orderEvent

end DexIndex
