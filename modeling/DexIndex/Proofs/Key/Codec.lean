import DexIndex.Key

/-!
# Keys read back

Every key and the values of the checkpoint and of owners are read as what was written
(`decode_encode`), so that keys of one family are told apart by their fields, and keys of different
families by their tags (`Family.eq_of_tag_eq`).
-/

namespace DexIndex

namespace Reader
variable {α β : Type}

theorem bind_apply (r : Reader α) (f : α → Reader β) (bs : Bytes) :
    (r >>= f) bs = (r bs).bind fun p => f p.1 p.2 := rfl

theorem map_apply (f : α → β) (r : Reader α) (bs : Bytes) :
    (f <$> r) bs = (r bs).map fun p => (f p.1, p.2) := by
  change (r bs).bind (fun p => some (f p.1, p.2)) = _
  rw [Option.map_eq_bind]
  rfl

end Reader

theorem Family.eq_of_tag_eq {a b : Family} (h : a.tag = b.tag) : a = b := by
  cases a <;> cases b <;> first | rfl | exact absurd h (by decide)

theorem Family.decode_of_fields {α : Type} {family : Family} {fields : Reader α} {body : Bytes}
    {x : α} (hlen : body.length + 1 = family.keyLength) (hx : fields.eval body = some x) :
    family.decode fields (family.tag :: body) = .ok x := by
  rw [Family.decode, if_neg (by simpa using hlen), if_neg (by simp), List.tail_cons, hx]

/-! ### Places and sequence numbers -/

namespace Place

@[simp] theorem length_encodeAscending (p : Place) : p.encodeAscending.length = 24 := by
  simp [encodeAscending]

@[simp] theorem length_encodeDescending (p : Place) : p.encodeDescending.length = 24 := by
  simp [encodeDescending]

theorem ascendingReader_append (p : Place) (rest : Bytes) :
    ascendingReader (p.encodeAscending ++ rest) = some (p, rest) := by
  simp [ascendingReader, encodeAscending, Reader.bind_apply, Reader.map_apply, List.append_assoc]

theorem descendingReader_append (p : Place) (rest : Bytes) :
    descendingReader (p.encodeDescending ++ rest) = some (p, rest) := by
  simp [descendingReader, encodeDescending, Reader.bind_apply, Reader.map_apply,
    List.append_assoc]

end Place

@[simp] theorem length_encodeSeq (seq : UInt64) : (encodeSeq seq).length = 8 := by
  simp [encodeSeq]

theorem seqReader_append (seq : UInt64) (rest : Bytes) :
    seqReader (encodeSeq seq ++ rest) = some (seq, rest) := by
  simp [seqReader, encodeSeq, Reader.map_apply]

theorem seqReader_self (seq : UInt64) : seqReader (encodeSeq seq) = some (seq, []) := by
  simpa using seqReader_append seq []

/-! ### Event keys -/

namespace OrderEventKey

theorem encode_eq_append (k : OrderEventKey) :
    k.encode = orderPrefix k.order ++ (k.place.encodeAscending ++ [k.type.toByte]) := by
  simp [encode, orderPrefix]

theorem fields_eval (order : OrderKey) (place : Place) (byte : UInt8) :
    fields.eval (order.market.bytes ++ encodeSeq order.seq ++ place.encodeAscending ++ [byte]) =
      some (order, place, byte) := by
  simp [fields, Reader.eval, Reader.bind_apply, Reader.map_apply, seqReader_append,
    Place.ascendingReader_append, List.append_assoc]

@[simp] theorem decode_encode (k : OrderEventKey) : decode k.encode = .ok k := by
  have h : Family.orderEvent.decode fields (Family.orderEvent.tag :: (k.order.market.bytes ++
      encodeSeq k.order.seq ++ k.place.encodeAscending ++ [k.type.toByte])) =
        .ok (k.order, k.place, k.type.toByte) :=
    Family.decode_of_fields (by simp [Family.keyLength, PublicKey.length_bytes])
      (fields_eval k.order k.place k.type.toByte)
  simp only [decode, encode, h, bind, Except.bind, EventType.ofByte?_toByte]
  rfl

theorem encode_injective {a b : OrderEventKey} (h : a.encode = b.encode) : a = b :=
  Except.ok.inj (by rw [← decode_encode a, h, decode_encode])

theorem encode_inj {a b : OrderEventKey} : a.encode = b.encode ↔ a = b :=
  ⟨encode_injective, congrArg encode⟩

end OrderEventKey

/-! ### Index keys -/

namespace FillKey

@[simp] theorem decodeByMarket_encodeByMarket (k : FillKey) :
    decodeByMarket k.encodeByMarket = .ok k := by
  refine Family.decode_of_fields (by simp [Family.keyLength, PublicKey.length_bytes]) ?_
  simp [byMarketFields, Reader.eval, Reader.bind_apply, Reader.map_apply, seqReader_self,
    Place.descendingReader_append, List.append_assoc]

@[simp] theorem decodeByTrader_encodeByTrader (trader : PublicKey) (k : FillKey) :
    decodeByTrader (k.encodeByTrader trader) = .ok (trader, k) := by
  refine Family.decode_of_fields (by simp [Family.keyLength, PublicKey.length_bytes]) ?_
  simp [byTraderFields, Reader.eval, Reader.bind_apply, Reader.map_apply, seqReader_self,
    Place.descendingReader_append, List.append_assoc]

@[simp] theorem decodeByTraderMarket_encodeByTraderMarket (trader : PublicKey) (k : FillKey) :
    decodeByTraderMarket (k.encodeByTraderMarket trader) = .ok (trader, k) := by
  refine Family.decode_of_fields (by simp [Family.keyLength, PublicKey.length_bytes]) ?_
  simp [byTraderMarketFields, Reader.eval, Reader.bind_apply, Reader.map_apply, seqReader_self,
    Place.descendingReader_append, List.append_assoc]

end FillKey

/-! ### Owners and the checkpoint -/

namespace Ownership

theorem reader_self (k : PublicKey) : PublicKey.reader.eval k.bytes = some k := by
  have h := PublicKey.reader_append k []
  rw [List.append_nil] at h
  rw [Reader.eval, h, Option.map_some]

@[simp] theorem decodeKey_encodeKey (account : PublicKey) :
    decodeKey (encodeKey account) = .ok account :=
  Family.decode_of_fields (by simp [Family.keyLength, PublicKey.length_bytes])
    (reader_self account)

@[simp] theorem decodeTrader_encodeTrader (trader : PublicKey) :
    decodeTrader (encodeTrader trader) = .ok trader := by
  simp [decodeTrader, encodeTrader]

theorem encodeKey_injective {a b : PublicKey} (h : encodeKey a = encodeKey b) : a = b :=
  PublicKey.ext_bytes (List.cons.inj h).2

end Ownership

@[simp] theorem Checkpoint.decode_encode (c : Checkpoint) : decode c.encode = .ok c := by
  simp [decode, encode, Utf8.decode?_encode]

end DexIndex
