import DexIndex.Proofs.Exchange.Account

/-!
# Bytes that hold nothing

Of the region of a queue account, the padding of the entries, the slots that are not in use and what
is left over behind the last whole slot hold nothing (`Queue.Idle`). Accounts that differ in such
bytes alone hold the same queue (`Queue.Alike.decode_eq`).
-/

namespace DexIndex

theorem Bytes.blank_congr {a b : Bytes} {start length : Nat}
    (h : ∀ p, ¬(start ≤ p ∧ p < start + length) → a[p]? = b[p]?) :
    a.blank start length = b.blank start length := by
  have hfront : a.take start = b.take start := by
    refine List.ext_getElem? fun p => ?_
    rw [List.getElem?_take, List.getElem?_take]
    split
    · next hp => exact h p (by omega)
    · rfl
  have hback : a.drop (start + length) = b.drop (start + length) := by
    refine List.ext_getElem? fun p => ?_
    rw [List.getElem?_drop, List.getElem?_drop]
    exact h _ (by omega)
  rw [blank, blank, hfront, hback]

namespace Queue
variable {α : Type} [QueueEntry α]

theorem getElem?_slotAt {r : Bytes} {slot p : Nat} (hp : p < QueueEntry.size α) :
    (slotAt α r slot)[p]? = r[slot * QueueEntry.size α + p]? := by
  rw [slotAt, List.getElem?_take, if_pos hp, List.getElem?_drop]

variable [SlotForm α]

/-- The padding of slots is not read. -/
theorem eval_congr {a b : Bytes} (ha : a.length = QueueEntry.size α)
    (hb : b.length = QueueEntry.size α)
    (h : a.blank (SlotForm.padding α) (SlotForm.paddingLength α) =
      b.blank (SlotForm.padding α) (SlotForm.paddingLength α)) :
    (QueueEntry.reader : Reader α).eval a = QueueEntry.reader.eval b := by
  obtain ⟨x, hx, hencode⟩ := SlotForm.exists_entry (α := α) a ha
  obtain ⟨y, hy, hencode'⟩ := SlotForm.exists_entry (α := α) b hb
  have hread : some x = some y := by
    rw [← SlotForm.read_encode x, ← SlotForm.read_encode y, hencode, hencode', h]
  rw [hx, hy, hread]

/-- The byte at a position of the region belongs to the padding of an entry, to a slot that is not in
use, or to no whole slot. -/
inductive Idle (q : Queue α) (p : Nat) : Prop
  | padding : SlotForm.padding α ≤ p % QueueEntry.size α →
      p % QueueEntry.size α < SlotForm.padding α + SlotForm.paddingLength α → Idle q p
  | unused : (∀ i < q.entries.length,
      (q.header.head.toNat + i) % q.capacity ≠ p / QueueEntry.size α) → Idle q p
  | leftOver : q.capacity ≤ p / QueueEntry.size α → Idle q p

variable (α) in
/-- Account data that is the same, or the data of a queue with other bytes where nothing is held. -/
inductive Alike (data : Bytes) : Bytes → Prop
  | same : Alike data data
  | idle {q : Queue α} {r : Bytes} : decode data = .ok q →
      r.length / QueueEntry.size α = q.capacity →
      (∀ p, r[p]? ≠ (region data)[p]? → q.Idle p) → Alike data (account q.header r)

theorem Holds.of_idle {q : Queue α} {r r' : Bytes} (h : q.Holds r) (hwell : q.WellFormed)
    (hr : q.capacity = r.length / QueueEntry.size α)
    (hr' : r'.length / QueueEntry.size α = q.capacity)
    (hidle : ∀ p, r'[p]? ≠ r[p]? → q.Idle p) : q.Holds r' := by
  intro i hi
  have hle := hwell.length_le
  have hslot : (q.header.head.toNat + i) % q.capacity < q.capacity := Nat.mod_lt _ (by omega)
  have hwidth := length_slotAt (α := α) (hr ▸ Nat.div_mul_le_self ..) hslot
  have hwidth' := length_slotAt (α := α) (hr' ▸ Nat.div_mul_le_self ..) hslot
  rw [← h i hi]
  refine eval_congr hwidth' hwidth (Bytes.blank_congr fun p hp => ?_)
  by_cases hsize : p < QueueEntry.size α
  · rw [getElem?_slotAt hsize, getElem?_slotAt hsize]
    -- a byte that differs within a slot in use belongs to the padding, which is blanked
    by_contra hne
    have hdiv : ((q.header.head.toNat + i) % q.capacity * QueueEntry.size α + p) /
        QueueEntry.size α = (q.header.head.toNat + i) % q.capacity := by
      rw [Nat.mul_comm, Nat.mul_add_div (by omega), Nat.div_eq_of_lt hsize, Nat.add_zero]
    have hmod : ((q.header.head.toNat + i) % q.capacity * QueueEntry.size α + p) %
        QueueEntry.size α = p := by
      rw [Nat.mul_comm, Nat.mul_add_mod, Nat.mod_eq_of_lt hsize]
    cases hidle _ hne with
    | padding hfrom hto =>
      rw [hmod] at hfrom hto
      exact hp ⟨hfrom, hto⟩
    | unused hunused => exact hunused i hi hdiv.symm
    | leftOver hpast =>
      rw [hdiv] at hpast
      omega
  · rw [List.getElem?_eq_none (by omega), List.getElem?_eq_none (by omega)]

namespace Alike
variable {data data' : Bytes}

/-- It is enough that the slots in use are the same. -/
theorem of_slots {q : Queue α} {r : Bytes} (hdecode : decode data = .ok q)
    (hcapacity : r.length / QueueEntry.size α = q.capacity)
    (hslots : ∀ i < q.entries.length,
      slotAt α r ((q.header.head.toNat + i) % q.capacity) =
        slotAt α (region data) ((q.header.head.toNat + i) % q.capacity)) :
    Alike α data (account q.header r) := by
  refine .idle hdecode hcapacity fun p hne => .unused fun i hi hslot => hne ?_
  have hp : p % QueueEntry.size α < QueueEntry.size α := Nat.mod_lt _ (SlotForm.size_pos (α := α))
  have hbyte := congrArg (·[p % QueueEntry.size α]?) (hslots i hi)
  rw [hslot] at hbyte
  simpa only [getElem?_slotAt hp, Nat.div_add_mod'] using hbyte

theorem decode_eq (h : Alike α data data') :
    (decode data' : Except LayoutError (Queue α)) = decode data := by
  cases h with
  | same => rfl
  | idle hdecode hcapacity hidle =>
    obtain ⟨_, hcapacity', hwell, hholds⟩ := decode_eq_ok_iff.mp hdecode
    rw [hdecode, decode_account, ofRegion_eq_ok_iff]
    exact ⟨rfl, hcapacity.symm, hwell, hholds.of_idle hwell hcapacity' hcapacity hidle⟩

theorem decodeOptional_eq (h : Alike α data data') :
    (decodeOptional data' : Except LayoutError (Option (Queue α))) = decodeOptional data := by
  have hdecode := h.decode_eq
  cases h with
  | same => rfl
  | idle hok hcapacity hidle =>
    cases data with
    | nil => cases hok
    | cons b r =>
      show (decode (account _ _)).map some = (decode (b :: r)).map some
      rw [hdecode]

end Alike

end Queue

end DexIndex
