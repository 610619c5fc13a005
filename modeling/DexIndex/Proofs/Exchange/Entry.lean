import DexIndex.Exchange.Queue
import DexIndex.Proofs.Key.Canonical

/-!
# Entries in their slots

An entry fills its slot but for a run of padding bytes. It is read from the slot whatever the
padding is, every slot is read as some entry, and writing the entry gives the slot with its padding
zero (`SlotForm`).
-/

namespace DexIndex

/-- The bytes with `length` of them, from `start` on, made zero. -/
def Bytes.blank (start length : Nat) (bs : Bytes) : Bytes :=
  bs.take start ++ List.replicate length 0 ++ bs.drop (start + length)

theorem Bytes.blank_append (a pad b : Bytes) :
    blank a.length pad.length (a ++ pad ++ b) = a ++ List.replicate pad.length 0 ++ b := by
  have hfront : (a ++ pad ++ b).take a.length = a := by
    rw [List.append_assoc, List.take_left]
  have hback : (a ++ pad ++ b).drop (a.length + pad.length) = b := by
    rw [← List.length_append, List.drop_left]
  rw [blank, hfront, hback]

theorem Bytes.blank_eq_self {bs : Bytes} {start length : Nat} (hle : start + length ≤ bs.length)
    (h : ∀ b ∈ (bs.drop start).take length, b = 0) : bs.blank start length = bs := by
  have hpad : (bs.drop start).take length = List.replicate length 0 := by
    refine List.eq_replicate_iff.mpr ⟨?_, h⟩
    rw [List.length_take, List.length_drop]
    omega
  rw [blank, ← hpad, ← List.drop_drop, List.append_assoc, List.take_append_drop,
    List.take_append_drop]

theorem Bytes.eq_zero_of_mem_blank {bs : Bytes} {start length : Nat} (hle : start ≤ bs.length)
    {b : UInt8} (h : b ∈ ((bs.blank start length).drop start).take length) : b = 0 := by
  have hfront : (bs.take start).length = start := by
    rw [List.length_take]
    exact Nat.min_eq_left hle
  rw [blank, List.append_assoc, List.drop_left' hfront, List.take_left' List.length_replicate] at h
  exact List.eq_of_mem_replicate h

namespace Bytes.Fills

theorem wordLE : Fills ofWord 8 := by
  intro bs
  constructor
  · rintro ⟨n, rfl⟩
    exact length_ofWord n
  · intro h
    have hlt : valueLE bs < UInt64.size := by
      have hlt := valueLE_lt bs
      rw [h] at hlt
      exact hlt
    refine ⟨UInt64.ofNat (valueLE bs), ?_⟩
    rw [ofWord, UInt64.toNat_ofNat_of_lt' hlt, ← h]
    exact littleEndian_valueLE bs

theorem orderId : Fills OrderId.toBytes 16 := by
  refine (wordLE.append wordLE).rearrange (fun id : OrderId => (id.low, id.price)) ?_
  rintro ⟨low, price⟩
  exact ⟨⟨price, low⟩, rfl⟩

/-- Any bytes at all, of a width. -/
theorem vector (n : Nat) : Fills (fun v : { bs : Bytes // bs.length = n } => v.1) n := by
  intro bs
  constructor
  · rintro ⟨⟨_, h⟩, rfl⟩
    exact h
  · intro h
    exact ⟨⟨bs, h⟩, rfl⟩

end Bytes.Fills

namespace Reader

theorem skip_append {n : Nat} {bs : Bytes} (rest : Bytes) (h : bs.length = n) :
    skip n (bs ++ rest) = some ((), rest) := by
  subst h
  simp [skip]

end Reader

@[simp] theorem OrderId.length_toBytes (id : OrderId) : id.toBytes.length = 16 := by
  simp [toBytes]

@[simp] theorem OrderId.reader_append (id : OrderId) (rest : Bytes) :
    reader (id.toBytes ++ rest) = some (id, rest) := by
  simp [reader, toBytes, Reader.bind_apply, Reader.map_apply, List.append_assoc]

/-- How entries of a queue stand in their slots. -/
class SlotForm (α : Type) [QueueEntry α] where
  /-- Where in a slot the padding starts. -/
  padding : Nat
  /-- How many bytes of padding there are. -/
  paddingLength : Nat
  padding_le : padding + paddingLength ≤ QueueEntry.size α
  size_pos : 0 < QueueEntry.size α
  length_encode : ∀ e : α, (QueueEntry.encode e).length = QueueEntry.size α
  read_encode : ∀ e : α, QueueEntry.reader.eval (QueueEntry.encode e) = some e
  exists_entry : ∀ slot : Bytes, slot.length = QueueEntry.size α →
    ∃ e : α, QueueEntry.reader.eval slot = some e ∧
      QueueEntry.encode e = slot.blank padding paddingLength

theorem SlotForm.eq_zero_of_mem_padding {α : Type} [QueueEntry α] [SlotForm α] {e : α} {b : UInt8}
    (h : b ∈ ((QueueEntry.encode e).drop (padding α)).take (paddingLength α)) : b = 0 := by
  -- the entry is read from what it was written to, so that this has its padding zero already
  obtain ⟨e', hread, hencode⟩ := exists_entry (QueueEntry.encode e) (length_encode e)
  rw [read_encode, Option.some_inj] at hread
  rw [← hread] at hencode
  rw [hencode] at h
  refine Bytes.eq_zero_of_mem_blank ?_ h
  rw [length_encode]
  exact Nat.le_trans (Nat.le_add_right _ _) padding_le

/-- It is enough that entries with any padding are read, and are all slots. -/
@[reducible]
def SlotForm.ofLayout {α : Type} [QueueEntry α] (layout : α → Bytes → Bytes)
    (padding paddingLength : Nat) (padding_le : padding + paddingLength ≤ QueueEntry.size α)
    (size_pos : 0 < QueueEntry.size α)
    (encode : ∀ e, QueueEntry.encode e = layout e (List.replicate paddingLength 0))
    (reads : ∀ e pad rest, pad.length = paddingLength →
      QueueEntry.reader (layout e pad ++ rest) = some (e, rest))
    (blanks : ∀ e pad, pad.length = paddingLength →
      (layout e pad).blank padding paddingLength = QueueEntry.encode e)
    (fills : Bytes.Fills
      (fun p : α × { bs : Bytes // bs.length = paddingLength } => layout p.1 p.2.1)
      (QueueEntry.size α)) : SlotForm α :=
  have evals : ∀ e pad, pad.length = paddingLength →
      QueueEntry.reader.eval (layout e pad) = some e := by
    intro e pad hpad
    have h := reads e pad [] hpad
    rw [List.append_nil] at h
    rw [Reader.eval, h]
    rfl
  { padding
    paddingLength
    padding_le
    size_pos
    length_encode := fun e =>
      (fills _).mp ⟨(e, ⟨List.replicate paddingLength 0, List.length_replicate⟩), (encode e).symm⟩
    read_encode := fun e => encode e ▸ evals e _ List.length_replicate
    exists_entry := by
      intro slot hslot
      obtain ⟨⟨e, pad, hpad⟩, rfl⟩ := (fills slot).mpr hslot
      exact ⟨e, evals e pad hpad, (blanks e pad hpad).symm⟩ }

namespace EventEntry

/-- An entry with any padding. -/
def layout (e : EventEntry) (pad : Bytes) : Bytes :=
  [e.flags] ++ [e.ownerSlot] ++ [e.feeTier] ++ pad ++ Bytes.ofWord e.nativeQtyReleased ++
    Bytes.ofWord e.nativeQtyPaid ++ Bytes.ofWord e.nativeFeeOrRebate ++ e.orderId.toBytes ++
    e.owner.bytes ++ Bytes.ofWord e.clientOrderId

theorem reader_layout (e : EventEntry) (pad rest : Bytes) (h : pad.length = 5) :
    reader (e.layout pad ++ rest) = some (e, rest) := by
  simp [reader, layout, Reader.bind_apply, Reader.map_apply, Reader.skip_append _ h]

theorem blank_layout (e : EventEntry) (pad : Bytes) (h : pad.length = 5) :
    (e.layout pad).blank 3 5 = e.encode := by
  have hblank := Bytes.blank_append [e.flags, e.ownerSlot, e.feeTier] pad
    (Bytes.ofWord e.nativeQtyReleased ++ Bytes.ofWord e.nativeQtyPaid ++
      Bytes.ofWord e.nativeFeeOrRebate ++ e.orderId.toBytes ++ e.owner.bytes ++
      Bytes.ofWord e.clientOrderId)
  rw [h] at hblank
  simpa [layout, encode] using hblank

theorem fills_layout :
    Bytes.Fills (fun p : EventEntry × { bs : Bytes // bs.length = 5 } => p.1.layout p.2.1) 88 := by
  intro slot
  have hfields := (((((((((Bytes.Fills.byte.append .byte).append .byte).append (.vector 5)).append
    .wordLE).append .wordLE).append .wordLE).append .orderId).append .publicKey).append
    .wordLE) slot
  rw [← hfields]
  constructor
  · rintro ⟨⟨e, pad⟩, rfl⟩
    exact ⟨(((((((((e.flags, e.ownerSlot), e.feeTier), pad), e.nativeQtyReleased),
      e.nativeQtyPaid), e.nativeFeeOrRebate), e.orderId), e.owner), e.clientOrderId), rfl⟩
  · rintro ⟨⟨⟨⟨⟨⟨⟨⟨⟨⟨flags, ownerSlot⟩, feeTier⟩, pad⟩, released⟩, paid⟩, fee⟩, id⟩, owner⟩,
      client⟩, rfl⟩
    exact ⟨(⟨flags, ownerSlot, feeTier, released, paid, fee, id, owner, client⟩, pad), rfl⟩

instance : SlotForm EventEntry :=
  .ofLayout layout 3 5 (by decide) (by decide) (fun _ => rfl) reader_layout blank_layout
    fills_layout

end EventEntry

namespace RequestEntry

/-- A request with any padding. -/
def layout (e : RequestEntry) (pad : Bytes) : Bytes :=
  [e.flags] ++ [e.ownerSlot] ++ [e.feeTier] ++ [e.selfTradeBehavior] ++ pad ++
    Bytes.ofWord e.maxCoinQtyOrCancelId ++ Bytes.ofWord e.nativePcQtyLocked ++
    e.orderId.toBytes ++ e.owner.bytes ++ Bytes.ofWord e.clientOrderId

theorem reader_layout (e : RequestEntry) (pad rest : Bytes) (h : pad.length = 4) :
    reader (e.layout pad ++ rest) = some (e, rest) := by
  simp [reader, layout, Reader.bind_apply, Reader.map_apply, Reader.skip_append _ h]

theorem blank_layout (e : RequestEntry) (pad : Bytes) (h : pad.length = 4) :
    (e.layout pad).blank 4 4 = e.encode := by
  have hblank := Bytes.blank_append [e.flags, e.ownerSlot, e.feeTier, e.selfTradeBehavior] pad
    (Bytes.ofWord e.maxCoinQtyOrCancelId ++ Bytes.ofWord e.nativePcQtyLocked ++
      e.orderId.toBytes ++ e.owner.bytes ++ Bytes.ofWord e.clientOrderId)
  rw [h] at hblank
  simpa [layout, encode] using hblank

theorem fills_layout :
    Bytes.Fills
      (fun p : RequestEntry × { bs : Bytes // bs.length = 4 } => p.1.layout p.2.1) 80 := by
  intro slot
  have hfields := (((((((((Bytes.Fills.byte.append .byte).append .byte).append .byte).append
    (.vector 4)).append .wordLE).append .wordLE).append .orderId).append .publicKey).append
    .wordLE) slot
  rw [← hfields]
  constructor
  · rintro ⟨⟨e, pad⟩, rfl⟩
    exact ⟨(((((((((e.flags, e.ownerSlot), e.feeTier), e.selfTradeBehavior), pad),
      e.maxCoinQtyOrCancelId), e.nativePcQtyLocked), e.orderId), e.owner), e.clientOrderId), rfl⟩
  · rintro ⟨⟨⟨⟨⟨⟨⟨⟨⟨⟨flags, ownerSlot⟩, feeTier⟩, behavior⟩, pad⟩, max⟩, locked⟩, id⟩, owner⟩,
      client⟩, rfl⟩
    exact ⟨(⟨flags, ownerSlot, feeTier, behavior, max, locked, id, owner, client⟩, pad), rfl⟩

instance : SlotForm RequestEntry :=
  .ofLayout layout 4 4 (by decide) (by decide) (fun _ => rfl) reader_layout blank_layout
    fills_layout

end RequestEntry

end DexIndex
