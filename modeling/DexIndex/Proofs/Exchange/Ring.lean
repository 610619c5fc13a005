import DexIndex.Proofs.Exchange.Entry
import Mathlib.Data.List.Induction
import Mathlib.Data.Nat.ModEq

/-!
# Entries in a ring of slots

The slots into which fewer entries than slots are put one after another, wrapping round at the
capacity, are all different (`Queue.slot_injective`), so that each of them keeps its entry
(`Queue.getElem?_slots_used`) and the others stay zero (`Queue.getElem?_slots_unused`). A region of
whole slots is those slots one behind the other (`Queue.flatten_slotAt`).
-/

namespace DexIndex.Queue
variable {α : Type} [QueueEntry α]

/-! ### Regions -/

/-- The bytes of a slot. -/
def slotAt (α : Type) [QueueEntry α] (region : Bytes) (slot : Nat) : Bytes :=
  (region.drop (slot * QueueEntry.size α)).take (QueueEntry.size α)

theorem length_slotAt {region : Bytes} {capacity slot : Nat}
    (h : capacity * QueueEntry.size α ≤ region.length) (hslot : slot < capacity) :
    (slotAt α region slot).length = QueueEntry.size α := by
  have hle : (slot + 1) * QueueEntry.size α ≤ region.length :=
    (Nat.mul_le_mul_right _ hslot).trans h
  rw [Nat.succ_mul] at hle
  rw [slotAt, List.length_take, List.length_drop]
  omega

theorem slotAt_cons_zero {slot : Bytes} (h : slot.length = QueueEntry.size α) (rest : Bytes) :
    slotAt α (slot ++ rest) 0 = slot := by
  rw [slotAt, Nat.zero_mul, List.drop_zero, List.take_left' h]

theorem slotAt_cons_succ {slot : Bytes} (h : slot.length = QueueEntry.size α) (rest : Bytes)
    (j : Nat) : slotAt α (slot ++ rest) (j + 1) = slotAt α rest j := by
  rw [slotAt, slotAt, Nat.succ_mul, Nat.add_comm, ← List.drop_drop, List.drop_left' h]

theorem slotAt_flatten {slots : List Bytes} (h : ∀ s ∈ slots, s.length = QueueEntry.size α)
    {j : Nat} (hj : j < slots.length) : slotAt α slots.flatten j = slots[j] := by
  induction slots generalizing j with
  | nil => simp at hj
  | cons slot slots ih =>
    obtain ⟨hslot, hslots⟩ := List.forall_mem_cons.mp h
    rw [List.flatten_cons]
    cases j with
    | zero => exact slotAt_cons_zero hslot _
    | succ j =>
      rw [slotAt_cons_succ hslot, ih hslots]
      rfl

theorem length_flatten {slots : List Bytes} (h : ∀ s ∈ slots, s.length = QueueEntry.size α) :
    slots.flatten.length = slots.length * QueueEntry.size α := by
  induction slots with
  | nil => simp
  | cons slot slots ih =>
    obtain ⟨hslot, hslots⟩ := List.forall_mem_cons.mp h
    rw [List.flatten_cons, List.length_append, hslot, ih hslots, List.length_cons, Nat.succ_mul,
      Nat.add_comm]

theorem flatten_slotAt {region : Bytes} {capacity : Nat}
    (h : region.length = capacity * QueueEntry.size α) :
    ((List.range capacity).map (slotAt α region)).flatten = region := by
  induction capacity generalizing region with
  | zero =>
    rw [Nat.zero_mul, List.length_eq_zero_iff] at h
    rw [h]
    rfl
  | succ capacity ih =>
    rw [Nat.succ_mul] at h
    have hfront : (region.take (QueueEntry.size α)).length = QueueEntry.size α := by
      rw [List.length_take]
      omega
    have hback : (region.drop (QueueEntry.size α)).length = capacity * QueueEntry.size α := by
      rw [List.length_drop]
      omega
    rw [← List.take_append_drop (QueueEntry.size α) region]
    generalize region.take (QueueEntry.size α) = slot at hfront
    generalize region.drop (QueueEntry.size α) = rest at hback
    rw [List.range_succ_eq_map, List.map_cons, List.map_map, List.flatten_cons,
      slotAt_cons_zero hfront]
    have hrest : (List.range capacity).map (slotAt α (slot ++ rest) ∘ Nat.succ) =
        (List.range capacity).map (slotAt α rest) :=
      List.map_congr_left fun j _ => slotAt_cons_succ hfront rest j
    rw [hrest, ih hback]

/-! ### Slots -/

theorem slot_injective {capacity head i j : Nat} (hi : i < capacity) (hj : j < capacity)
    (h : (head + i) % capacity = (head + j) % capacity) : i = j := by
  have hmod : i ≡ j [MOD capacity] := Nat.ModEq.add_left_cancel' head h
  rwa [Nat.ModEq, Nat.mod_eq_of_lt hi, Nat.mod_eq_of_lt hj] at hmod

variable {capacity head : Nat} {entries : List α}

theorem slots_append (capacity head : Nat) (entries : List α) (e : α) :
    slots capacity head (entries ++ [e]) =
      (slots capacity head entries).set ((head + entries.length) % max capacity 1)
        (QueueEntry.encode e) := by
  rw [slots, List.zipIdx_append, List.foldl_append]
  simp [slots]

@[simp] theorem length_slots (capacity head : Nat) (entries : List α) :
    (slots capacity head entries).length = capacity := by
  induction entries using List.reverseRecOn with
  | nil => exact List.length_replicate
  | append_singleton entries e ih => rw [slots_append, List.length_set, ih]

theorem getElem?_slots_used {i : Nat} (h : entries.length ≤ capacity) (hi : i < entries.length) :
    (slots capacity head entries)[(head + i) % capacity]? =
      some (QueueEntry.encode entries[i]) := by
  induction entries using List.reverseRecOn with
  | nil => simp at hi
  | append_singleton entries e ih =>
    rw [List.length_append, List.length_singleton] at h hi
    have hmax : max capacity 1 = capacity := by omega
    have hslot : (head + i) % capacity < capacity := Nat.mod_lt _ (by omega)
    rw [slots_append, hmax]
    by_cases hlast : i = entries.length
    · subst hlast
      rw [List.getElem?_set_self (by rwa [length_slots])]
      simp
    · have hother : (head + entries.length) % capacity ≠ (head + i) % capacity := by
        intro heq
        exact hlast (slot_injective (by omega) (by omega) heq).symm
      rw [List.getElem?_set_ne hother, ih (by omega) (by omega), List.getElem_append_left]

theorem getElem?_slots_unused {j : Nat} (hj : j < capacity)
    (h : ∀ i < entries.length, (head + i) % capacity ≠ j) :
    (slots capacity head entries)[j]? = some (List.replicate (QueueEntry.size α) 0) := by
  induction entries using List.reverseRecOn with
  | nil => exact List.getElem?_replicate_of_lt hj
  | append_singleton entries e ih =>
    have hmax : max capacity 1 = capacity := by omega
    rw [slots_append, hmax, List.getElem?_set_ne (h entries.length (by simp))]
    refine ih fun i hi => h i ?_
    rw [List.length_append]
    omega

variable [SlotForm α]

theorem length_of_mem_slots {slot : Bytes} (h : slot ∈ slots capacity head entries) :
    slot.length = QueueEntry.size α := by
  induction entries using List.reverseRecOn with
  | nil => rw [List.eq_of_mem_replicate h, List.length_replicate]
  | append_singleton entries e ih =>
    rw [slots_append] at h
    rcases List.mem_or_eq_of_mem_set h with h | rfl
    · exact ih h
    · exact SlotForm.length_encode e

end DexIndex.Queue
