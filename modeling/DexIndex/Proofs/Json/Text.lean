import DexIndex.Json.Parser

/-!
# Strings in JSON

What is written for a text is read as this text: escaping can be undone (`unescape?_escape`), and the
parser takes what was escaped up to the closing quote (`parseString_escape`).
-/

namespace DexIndex.Json

/-! ### One byte -/

theorem unescape?_cons {b : UInt8} (h : b ≠ 0x5c) (r : Bytes) :
    unescape? (b :: r) = (unescape? r).map (b :: ·) := by
  rw [unescape?.eq_def]
  split
  · next heq => cases heq
  · next heq => exact absurd (List.cons.inj heq).1 h
  · next heq => exact absurd (List.cons.inj heq).1 h
  · next heq =>
    cases heq
    cases unescape? r <;> rfl

theorem parseString_cons {b : UInt8} (hq : b ≠ 0x22) (h : b ≠ 0x5c) (hc : ¬ b < 0x20) (r : Bytes) :
    parseString (b :: r) = (parseString r).map fun p => (b :: p.1, p.2) := by
  rw [parseString.eq_def]
  split
  · simp_all
  · simp_all
  · simp_all
  · simp_all
  · next heq =>
    obtain ⟨rfl, rfl⟩ := List.cons.inj heq
    rw [if_neg hc]

/-- A control character without a name of its own has four digits. -/
theorem hexQuad?_hexByte : ∀ n < 32, ∃ c d, hexByte (UInt8.ofNat n) = [c, d] ∧
    hexQuad? 0x30 0x30 c d = some n ∧ utf8 n = [UInt8.ofNat n] := by
  intro n hn
  refine ⟨_, _, rfl, ?_⟩
  revert n
  decide

theorem escapeByte_cases (b : UInt8) :
    (∃ e, escapeByte b = [0x5c, e] ∧ escaped? e = some b ∧ e ≠ 0x75) ∨
    (∃ c d, escapeByte b = [0x5c, 0x75, 0x30, 0x30, c, d] ∧
      hexQuad? 0x30 0x30 c d = some b.toNat ∧ b.toNat < 32 ∧ utf8 b.toNat = [b]) ∨
    (b ≠ 0x22 ∧ b ≠ 0x5c ∧ ¬ b < 0x20 ∧ escapeByte b = [b]) := by
  unfold escapeByte
  split
  case h_8 =>
    split
    · next h =>
      have hn : b.toNat < 32 := UInt8.lt_iff_toNat_lt.mp h
      obtain ⟨c, d, hbyte, hquad, hutf⟩ := hexQuad?_hexByte b.toNat hn
      rw [UInt8.ofNat_toNat] at hbyte hutf
      exact .inr (.inl ⟨c, d, by rw [hbyte]; rfl, hquad, hn, hutf⟩)
    · next h => exact .inr (.inr ⟨by simp_all, by simp_all, h, rfl⟩)
  all_goals exact .inl ⟨_, rfl, rfl, by decide⟩

theorem unescape?_escapeByte (b : UInt8) (r : Bytes) :
    unescape? (escapeByte b ++ r) = (unescape? r).map (b :: ·) := by
  rcases escapeByte_cases b with ⟨e, h, he, hu⟩ | ⟨c, d, h, hquad, hlt, hutf⟩ | ⟨_, hb, _, h⟩
  · rw [h, List.cons_append, List.cons_append, List.nil_append, unescape?]
    · rw [he]
      cases unescape? r <;> rfl
    · exact fun _ _ _ _ _ heq _ => hu heq
  · rw [h]
    simp only [List.cons_append, List.nil_append]
    rw [unescape?, hquad]
    simp only [Option.bind_eq_bind, Option.bind_some]
    rw [if_neg (by omega), if_neg (by omega), hutf]
    cases unescape? r <;> rfl
  · rw [h]
    exact unescape?_cons hb r

theorem unescape?_escape (bs : Bytes) : unescape? (escape bs) = some bs := by
  induction bs with
  | nil => rfl
  | cons b bs ih =>
    rw [escape, List.flatMap_cons, unescape?_escapeByte]
    rw [escape] at ih
    rw [ih, Option.map_some]

theorem parseString_escapeByte (b : UInt8) (r : Bytes) :
    parseString (escapeByte b ++ r) = (parseString r).map fun p => (escapeByte b ++ p.1, p.2) := by
  rcases escapeByte_cases b with ⟨e, h, he, hu⟩ | ⟨c, d, h, hquad, _⟩ | ⟨hq, hb, hc, h⟩
  · rw [h, List.cons_append, List.cons_append, List.nil_append, parseString]
    · rw [he]
      rfl
    · exact fun _ _ _ _ _ heq _ => hu heq
  · rw [h]
    simp only [List.cons_append, List.nil_append]
    rw [parseString, hquad]
  · rw [h]
    exact parseString_cons hq hb hc r

/-- A written text ends at its closing quote. -/
theorem parseString_escape (bs rest : Bytes) :
    parseString (escape bs ++ 0x22 :: rest) = some (escape bs, rest) := by
  induction bs with
  | nil => rfl
  | cons b bs ih =>
    rw [escape, List.flatMap_cons, List.append_assoc, parseString_escapeByte]
    rw [escape] at ih
    rw [ih, Option.map_some]

theorem textOf?_escape (s : String) : textOf? (escape (Utf8.encode s)) = some s := by
  rw [textOf?, unescape?_escape, Option.bind_some, Utf8.decode?_encode]

end DexIndex.Json
