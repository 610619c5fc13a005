import DexIndex.Proofs.Bytes.Utf8
import DexIndex.Proofs.Json.RoundTrip

/-!
# A value on one line

Control characters are escaped, so that a value that is made of truth values, words and texts is
printed as text without control characters, whatever stands in its texts (`Json.Written.oneLine`).
-/

namespace DexIndex.Json

open Utf8 (OneLine)

theorem oneLine_escapeByte {b : UInt8} (h : b.toNat < 128) : OneLine (escapeByte b) := by
  have hascii : ∀ n < 128,
      (escapeByte (UInt8.ofNat n)).all fun x => 32 ≤ x.toNat && x.toNat < 128 := by
    decide +kernel
  have hbytes := hascii b.toNat h
  rw [UInt8.ofNat_toNat] at hbytes
  exact .ascii hbytes

theorem escapeByte_of_le {b : UInt8} (h : 128 ≤ b.toNat) : escapeByte b = [b] := by
  rcases escapeByte_cases b with ⟨e, _, he, _⟩ | ⟨_, _, _, _, hlt, _⟩ | ⟨_, _, _, hb⟩
  · have hescaped : ∀ n < 256, ∀ c ∈ escaped? (UInt8.ofNat n), c.toNat < 128 := by
      decide +kernel
    have hlt := hescaped e.toNat e.toNat_lt
    rw [UInt8.ofNat_toNat] at hlt
    have := hlt b he
    omega
  · omega
  · exact hb

/-- Escaping a character leaves no control character. -/
theorem oneLine_escape_char (c : Char) : OneLine (escape (String.utf8EncodeChar c)) := by
  rcases Utf8.encodeChar_cases c with ⟨hc, hbytes⟩ | ⟨hc, hbytes⟩
  · rw [hbytes, escape, List.flatMap_singleton]
    refine oneLine_escapeByte ?_
    rw [UInt8.toNat_ofNat']
    omega
  · have hself : escape (String.utf8EncodeChar c) = String.utf8EncodeChar c := by
      rw [escape, List.flatMap_congr fun b hb => escapeByte_of_le (hbytes b hb)]
      exact List.flatMap_singleton' _
    rw [hself]
    exact .char (by omega)

theorem oneLine_escape (s : String) : OneLine (escape (Utf8.encode s)) := by
  have hchars : escape (Utf8.encode s) =
      s.toList.flatMap fun c => escape (String.utf8EncodeChar c) := by
    rw [Utf8.encode_eq, escape, List.flatMap_assoc]
    rfl
  rw [hchars]
  exact .flatMap fun c _ => oneLine_escape_char c

theorem oneLine_printString (s : String) : OneLine (printString (escape (Utf8.encode s))) :=
  .cons (by decide) (by decide)
    ((oneLine_escape s).append (.byte (by decide) (by decide)))

theorem oneLine_decimal (n : Nat) : OneLine (Numeral.decimal n) := by
  refine .ascii (List.all_eq_true.mpr fun b hb => ?_)
  have hdigit := Numeral.isDigit_of_mem_decimal hb
  simp only [isDigit, Bool.and_eq_true, decide_eq_true_eq, UInt8.le_iff_toNat_le] at hdigit
  obtain ⟨hlow, hhigh⟩ := hdigit
  have hlow : 48 ≤ b.toNat := hlow
  have hhigh : b.toNat ≤ 57 := hhigh
  simp only [Bool.and_eq_true, decide_eq_true_eq]
  omega

theorem oneLine_printItems {items : List Json} (h : ∀ v ∈ items, OneLine v.print) :
    OneLine (printItems items) := by
  induction items with
  | nil => exact .byte (by decide) (by decide)
  | cons v items ih =>
    obtain ⟨hv, hitems⟩ := List.forall_mem_cons.mp h
    exact .cons (by decide) (by decide) (hv.append (ih hitems))

theorem oneLine_printNamed {f : String × Json} {fields : List (String × Json)}
    (hf : OneLine f.2.print) (hfields : ∀ g ∈ fields, OneLine g.2.print) :
    OneLine (printNamed f fields) := by
  have hsplit (rest : Bytes) : 0x22 :: (escape (Utf8.encode f.1) ++ 0x22 :: 0x3a :: rest) =
      printString (escape (Utf8.encode f.1)) ++ 0x3a :: rest := by
    simp [printString]
  induction fields generalizing f with
  | nil =>
    rw [printNamed, hsplit]
    exact (oneLine_printString f.1).append (.cons (by decide) (by decide)
      (hf.append (.byte (by decide) (by decide))))
  | cons g fields ih =>
    obtain ⟨hg, hrest⟩ := List.forall_mem_cons.mp hfields
    have hnext := ih hg hrest fun rest => by simp [printString]
    rw [printNamed, printFields_named, hsplit]
    exact (oneLine_printString f.1).append (.cons (by decide) (by decide)
      (hf.append (.cons (by decide) (by decide) hnext)))

/-- A written value is printed on one line. -/
theorem Written.oneLine {j : Json} (h : Written j) : OneLine j.print := by
  induction h with
  | bool b => cases b <;> exact .ascii (by decide)
  | nat =>
    rw [print_ofNat]
    exact oneLine_decimal _
  | text s =>
    rw [ofText, print]
    exact oneLine_printString s
  | @array items _ ih =>
    cases items with
    | nil => exact .ascii (by decide)
    | cons v items =>
      obtain ⟨hv, hitems⟩ := List.forall_mem_cons.mp ih
      exact .cons (by decide) (by decide) (hv.append (oneLine_printItems hitems))
  | @object fields _ ih =>
    cases fields with
    | nil => exact .ascii (by decide)
    | cons f fields =>
      obtain ⟨hf, hfields⟩ := List.forall_mem_cons.mp ih
      rw [print_ofFields]
      exact .cons (by decide) (by decide) (oneLine_printNamed hf hfields)

end DexIndex.Json
