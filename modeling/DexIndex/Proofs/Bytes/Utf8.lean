import DexIndex.Bytes.Utf8
import Mathlib.Data.List.Basic

/-!
# UTF-8 character by character

A text is encoded character by character, and a character below 128 is one byte of this value that
stands in no other character (`Utf8.mem_encodeChar_iff`). So bytes that are put together from texts
without a line feed are such a text again (`Utf8.OneLine`).
-/

namespace DexIndex.Utf8

theorem encode_ofList (cs : List Char) :
    encode (String.ofList cs) = cs.flatMap String.utf8EncodeChar := by
  rw [encode, show (String.ofList cs).toUTF8 = cs.utf8Encode from String.toByteArray_ofList,
    List.utf8Encode, List.toList_data_toByteArray]

theorem encode_eq (s : String) : encode s = s.toList.flatMap String.utf8EncodeChar := by
  rw [← encode_ofList, String.ofList_toList]

theorem encode_append (s t : String) : encode (s ++ t) = encode s ++ encode t := by
  simp [encode_eq]

/-- A character is one byte below 128, or bytes from 128 on. -/
theorem encodeChar_cases (c : Char) :
    (c.toNat < 128 ∧ String.utf8EncodeChar c = [UInt8.ofNat c.toNat]) ∨
      (128 ≤ c.toNat ∧ ∀ b ∈ String.utf8EncodeChar c, 128 ≤ b.toNat) := by
  have hc : c.val.toNat = c.toNat := rfl
  unfold String.utf8EncodeChar
  simp only [hc]
  split
  · exact .inl ⟨by omega, rfl⟩
  refine .inr ⟨by omega, ?_⟩
  split
  · simp only [List.forall_mem_cons]
    simp
    omega
  split
  · simp only [List.forall_mem_cons]
    simp
    omega
  · simp only [List.forall_mem_cons]
    simp
    omega

theorem mem_encodeChar_iff {c d : Char} (hd : d.toNat < 128) :
    UInt8.ofNat d.toNat ∈ String.utf8EncodeChar c ↔ c = d := by
  have hvalue : (UInt8.ofNat d.toNat).toNat = d.toNat := by
    rw [UInt8.toNat_ofNat']
    omega
  rcases encodeChar_cases c with ⟨hc, hbytes⟩ | ⟨hc, hbytes⟩
  · rw [hbytes, List.mem_singleton, ← UInt8.toNat_inj, hvalue, UInt8.toNat_ofNat',
      Nat.mod_eq_of_lt (by omega), Char.toNat_inj, eq_comm]
  · refine ⟨fun h => ?_, fun h => ?_⟩
    · have := hbytes _ h
      omega
    · subst h
      omega

theorem mem_encode_iff {s : String} {d : Char} (hd : d.toNat < 128) :
    UInt8.ofNat d.toNat ∈ encode s ↔ d ∈ s.toList := by
  rw [encode_eq, List.mem_flatMap]
  simp only [mem_encodeChar_iff hd, exists_eq_right]

/-! ### Bytes within one line -/

/-- The bytes of a text without control characters, so that it is all on one line. -/
def OneLine (bs : Bytes) : Prop := ∃ s : String, bs = encode s ∧ ∀ c ∈ s.toList, 32 ≤ c.toNat

namespace OneLine
variable {a b : Bytes}

theorem nil : OneLine [] := ⟨"", rfl, by simp⟩

theorem append (ha : OneLine a) (hb : OneLine b) : OneLine (a ++ b) := by
  obtain ⟨s, rfl, hs⟩ := ha
  obtain ⟨t, rfl, ht⟩ := hb
  refine ⟨s ++ t, (encode_append s t).symm, ?_⟩
  rw [String.toList_append, List.forall_mem_append]
  exact ⟨hs, ht⟩

theorem char {c : Char} (hc : 32 ≤ c.toNat) : OneLine (String.utf8EncodeChar c) := by
  refine ⟨String.ofList [c], ?_, ?_⟩
  · rw [encode_ofList, List.flatMap_singleton]
  · rw [String.toList_ofList, List.forall_mem_singleton]
    exact hc

theorem byte {x : UInt8} (hlow : 32 ≤ x.toNat) (hhigh : x.toNat < 128) : OneLine [x] := by
  have hchar : ∀ n < 128, (Char.ofNat n).toNat = n ∧
      String.utf8EncodeChar (Char.ofNat n) = [UInt8.ofNat n] := by decide
  obtain ⟨hn, hbytes⟩ := hchar x.toNat hhigh
  rw [UInt8.ofNat_toNat] at hbytes
  rw [← hbytes]
  exact char (by omega)

theorem cons {x : UInt8} (hlow : 32 ≤ x.toNat) (hhigh : x.toNat < 128) (hb : OneLine b) :
    OneLine (x :: b) :=
  (byte hlow hhigh).append hb

theorem ascii {bs : Bytes} (h : bs.all fun x => 32 ≤ x.toNat && x.toNat < 128) : OneLine bs := by
  induction bs with
  | nil => exact nil
  | cons x bs ih =>
    simp only [List.all_cons, Bool.and_eq_true, decide_eq_true_eq] at h
    obtain ⟨⟨hlow, hhigh⟩, hbs⟩ := h
    exact cons hlow hhigh (ih hbs)

theorem flatMap {α : Type} {f : α → Bytes} {xs : List α} (h : ∀ x ∈ xs, OneLine (f x)) :
    OneLine (xs.flatMap f) := by
  induction xs with
  | nil => exact nil
  | cons x xs ih =>
    obtain ⟨hx, hxs⟩ := List.forall_mem_cons.mp h
    rw [List.flatMap_cons]
    exact hx.append (ih hxs)

end OneLine

end DexIndex.Utf8
