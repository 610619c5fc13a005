import DexIndex.Json.Printer
import DexIndex.Proofs.Json.Text
import Mathlib.Data.List.Basic

/-!
# Values printed and parsed

A value that is made of truth values, words and texts (`Json.Written`) is parsed as what was printed
(`parse?_print`), and whatever may follow it is left over (`Written.parseValue`).
-/

namespace DexIndex

/-! ### Numbers -/

namespace Numeral

theorem toNat_ofNat_digit {c : Char} (h : c.isDigit) :
    (UInt8.ofNat c.toNat).toNat = c.toNat ∧ 0x30 ≤ c.toNat ∧ c.toNat ≤ 0x39 := by
  obtain ⟨hlow, hhigh⟩ := Char.isDigit_iff_toNat.mp h
  have hlow : 48 ≤ c.toNat := hlow
  have hhigh : c.toNat ≤ 57 := hhigh
  rw [UInt8.toNat_ofNat']
  omega

theorem isDigit_of_mem_toDigits {n : Nat} {c : Char} (h : c ∈ Nat.toDigits 10 n) : c.isDigit :=
  Nat.isDigit_of_mem_toDigits (by decide) (by decide) h

theorem decimal_eq (n : Nat) :
    decimal n = (Nat.toDigits 10 n).map fun c => UInt8.ofNat c.toNat := by
  rw [decimal, Bytes.ofAscii, Nat.toList_repr]

theorem isDigit_of_mem_decimal {n : Nat} {b : UInt8} (h : b ∈ decimal n) : Json.isDigit b := by
  rw [decimal_eq] at h
  obtain ⟨c, hc, rfl⟩ := List.mem_map.mp h
  obtain ⟨heq, hlow, hhigh⟩ := toNat_ofNat_digit (isDigit_of_mem_toDigits hc)
  simp only [Json.isDigit, Bool.and_eq_true, decide_eq_true_eq, UInt8.le_iff_toNat_le, heq]
  exact ⟨hlow, hhigh⟩

theorem decimal_ne_nil (n : Nat) : decimal n ≠ [] := by
  simp [decimal_eq]

/-- There is no zero in front of other digits. -/
theorem head?_toDigits {n : Nat} (h : 0 < n) : (Nat.toDigits 10 n).head? ≠ some '0' := by
  induction n using Nat.strongRecOn with
  | ind n ih =>
    rw [Nat.toDigits_eq_if (by decide)]
    split
    · next hlt =>
      have hall : ∀ n < 10, 0 < n → Nat.digitChar n ≠ '0' := by decide
      simpa using hall n hlt h
    · next hle =>
      rw [List.head?_append, Option.or_of_isSome (by simp)]
      exact ih (n / 10) (by omega) (by omega)

theorem head?_decimal {n : Nat} (h : 1 < (decimal n).length) : (decimal n).head? ≠ some 0x30 := by
  have hpos : 0 < n := by
    rcases Nat.eq_zero_or_pos n with rfl | hpos
    · simp [decimal_eq] at h
    · exact hpos
  rw [decimal_eq, List.head?_map]
  intro heq
  obtain ⟨c, hc, hb⟩ := Option.map_eq_some_iff.mp heq
  obtain ⟨hnat, _⟩ := toNat_ofNat_digit (isDigit_of_mem_toDigits (List.mem_of_head? hc))
  rw [hb] at hnat
  have hzero : c = '0' := Char.toNat_inj.mp hnat.symm
  exact head?_toDigits hpos (hzero ▸ hc)

theorem decimalValue_map {cs : List Char} (h : ∀ c ∈ cs, c.isDigit) :
    Json.decimalValue (cs.map fun c => UInt8.ofNat c.toNat) = Nat.ofDigitChars 10 cs 0 := by
  unfold Json.decimalValue Nat.ofDigitChars
  rw [List.foldl_map]
  refine List.foldl_ext _ _ _ fun n c hc => ?_
  rw [(toNat_ofNat_digit (h c hc)).1]
  rfl

theorem decimalValue_decimal (n : Nat) : Json.decimalValue (decimal n) = n := by
  rw [decimal_eq, decimalValue_map fun c hc => isDigit_of_mem_toDigits hc,
    Nat.ofDigitChars_ten_toDigits]

end Numeral

namespace Json

/-- What may follow a value: nothing, a comma or a closing bracket or brace. -/
def Follows (rest : Bytes) : Prop :=
  ∀ b ∈ rest.head?, b = 0x2c ∨ b = 0x5d ∨ b = 0x7d

theorem spanDigits_append {ds rest : Bytes} (hd : ∀ b ∈ ds, isDigit b) (hr : Follows rest) :
    spanDigits (ds ++ rest) = (ds, rest) := by
  have hrest : ∀ b ∈ rest.head?, isDigit b = false := fun b hb => by
    rcases hr b hb with rfl | rfl | rfl <;> decide
  unfold spanDigits
  rw [List.takeWhile_append_of_pos hd, List.dropWhile_append_of_pos hd]
  cases rest with
  | nil => simp
  | cons b r => simp [hrest b rfl]

theorem parseFraction_of_follows {rest : Bytes} (h : Follows rest) :
    parseFraction rest = some (none, rest) := by
  unfold parseFraction
  split
  · exact absurd (h 0x2e rfl) (by decide)
  · rfl

theorem parseExponent_of_follows {rest : Bytes} (h : Follows rest) :
    parseExponent rest = some (none, rest) := by
  cases rest with
  | nil => rfl
  | cons b r =>
    rcases h b rfl with rfl | rfl | rfl <;> rfl

theorem parseNumber_decimal (n : Nat) {rest : Bytes} (h : Follows rest) :
    parseNumber (Numeral.decimal n ++ rest) = some (.ofNat n, rest) := by
  have hd : ∀ b ∈ Numeral.decimal n, isDigit b := fun b hb => Numeral.isDigit_of_mem_decimal hb
  have hspan := spanDigits_append hd h
  have hvalue := Numeral.decimalValue_decimal n
  have hhead := Numeral.head?_decimal (n := n)
  have hne := Numeral.decimal_ne_nil n
  generalize Numeral.decimal n = ds at *
  cases ds with
  | nil => exact absurd rfl hne
  | cons d ds =>
    have hminus : d ≠ 0x2d := fun hd' => absurd (hd d List.mem_cons_self) (by rw [hd']; decide)
    have hwhole : ((d :: ds).isEmpty || ((d :: ds).length > 1 && (d :: ds).head? == some 0x30)) =
        false := by
      simpa using hhead
    unfold parseNumber
    split
    next heq =>
      split at heq
      · next hc => exact absurd (List.cons.inj hc).1 hminus
      · obtain ⟨rfl, rfl⟩ := Prod.mk.inj heq
        rw [hspan]
        dsimp only
        rw [hwhole, parseFraction_of_follows h]
        simp [parseExponent_of_follows h, hvalue, Numeral.ofNat]

/-! ### Values -/

/-- Values made of truth values, words and texts. -/
inductive Written : Json → Prop
  | bool (b : Bool) : Written (.bool b)
  | nat {n : Nat} (h : n < UInt64.size) : Written (.ofNat n)
  | text (s : String) : Written (.ofText s)
  | array {items : List Json} (h : ∀ v ∈ items, Written v) : Written (.array items)
  | object {fields : List (String × Json)} (h : ∀ f ∈ fields, Written f.2) :
      Written (.ofFields fields)

theorem ne_of_isDigit {b c : UInt8} (h : isDigit b) (hc : isDigit c = false) : b ≠ c := by
  rintro rfl
  rw [h] at hc
  cases hc

theorem isBlank_of_isDigit {b : UInt8} (h : isDigit b) : isBlank b = false := by
  simp only [isBlank, Bool.or_eq_false_iff, beq_eq_false_iff_ne]
  exact ⟨⟨⟨ne_of_isDigit h (by decide), ne_of_isDigit h (by decide)⟩, ne_of_isDigit h (by decide)⟩,
    ne_of_isDigit h (by decide)⟩

theorem print_ofNat (n : Nat) : (ofNat n).print = Numeral.decimal n := by
  simp [ofNat, print, Numeral.ofNat, Numeral.print]

theorem exists_decimal_cons (n : Nat) : ∃ b r, Numeral.decimal n = b :: r ∧ isDigit b := by
  cases h : Numeral.decimal n with
  | nil => exact absurd h (Numeral.decimal_ne_nil n)
  | cons b r => exact ⟨b, r, rfl, Numeral.isDigit_of_mem_decimal (h ▸ List.mem_cons_self)⟩

/-- A value starts neither with a blank nor with a closing bracket or brace. -/
theorem Written.head_print {j : Json} (h : Written j) :
    ∃ b r, j.print = b :: r ∧ isBlank b = false ∧ b ≠ 0x5d := by
  cases h with
  | bool b => cases b <;> exact ⟨_, _, rfl, by decide⟩
  | @nat n =>
    obtain ⟨b, r, hn, hb⟩ := exists_decimal_cons n
    exact ⟨b, r, (print_ofNat n).trans hn, isBlank_of_isDigit hb, ne_of_isDigit hb (by decide)⟩
  | text s => exact ⟨_, _, rfl, by decide⟩
  | @array items => cases items <;> exact ⟨_, _, rfl, by decide⟩
  | @object fields => cases fields <;> exact ⟨_, _, rfl, by decide⟩

theorem Written.skipBlank_print {j : Json} (h : Written j) (rest : Bytes) :
    skipBlank (j.print ++ rest) = j.print ++ rest := by
  obtain ⟨b, r, hp, hb, _⟩ := h.head_print
  rw [hp, List.cons_append, skipBlank, List.dropWhile_cons_of_neg (by simp [hb])]

/-- Parsing takes all of a printed value and no more, with fuel enough. -/
def Parses (j : Json) : Prop :=
  ∀ fuel, 2 * j.print.length ≤ fuel → ∀ rest, Follows rest →
    parseValue fuel (j.print ++ rest) = some (j, rest)

theorem parses_ofNat (n : Nat) : Parses (ofNat n) := by
  intro fuel hfuel rest hrest
  rw [print_ofNat] at hfuel ⊢
  obtain ⟨b, r, hn, hb⟩ := exists_decimal_cons n
  have hnumber := parseNumber_decimal n hrest
  rw [hn] at hfuel hnumber ⊢
  obtain ⟨fuel, rfl⟩ : ∃ f, fuel = f + 1 := ⟨fuel - 1, by rw [List.length_cons] at hfuel; omega⟩
  have hskip : skipBlank (b :: r ++ rest) = b :: r ++ rest := by
    rw [List.cons_append, skipBlank, List.dropWhile_cons_of_neg (by simp [isBlank_of_isDigit hb])]
  have hscalar : parseScalar (b :: r ++ rest) = some (.ofNat n, rest) := by
    unfold parseScalar
    split
    · next h => exact absurd (List.cons.inj h).1 (ne_of_isDigit hb (by decide))
    · next h => exact absurd (List.cons.inj h).1 (ne_of_isDigit hb (by decide))
    · next h => exact absurd (List.cons.inj h).1 (ne_of_isDigit hb (by decide))
    · rw [hnumber]
      rfl
  rw [parseValue, hskip]
  split
  · next h => exact absurd (List.cons.inj h).1 (ne_of_isDigit hb (by decide))
  · next h => exact absurd (List.cons.inj h).1 (ne_of_isDigit hb (by decide))
  · next h => exact absurd (List.cons.inj h).1 (ne_of_isDigit hb (by decide))
  · exact hscalar

theorem parses_ofText (s : String) : Parses (ofText s) := by
  intro fuel hfuel rest _
  obtain ⟨fuel, rfl⟩ : ∃ f, fuel = f + 1 := ⟨fuel - 1, by
    rw [ofText, print, printString, List.length_cons] at hfuel; omega⟩
  rw [parseValue, (Written.text s).skipBlank_print]
  simp only [ofText, print, printString, List.cons_append, List.append_assoc, List.nil_append]
  rw [parseString_escape, Option.map_some]

theorem follows_cons {b : UInt8} (h : b = 0x2c ∨ b = 0x5d ∨ b = 0x7d) (r : Bytes) :
    Follows (b :: r) := by
  rintro _ ⟨⟩
  exact h

theorem parseItems_print {v : Json} {items : List Json} (hv : Parses v)
    (hitems : ∀ w ∈ items, Parses w) (fuel : Nat)
    (hfuel : 2 * (v.print ++ printItems items).length ≤ fuel) (rest : Bytes) :
    parseItems fuel (v.print ++ printItems items ++ rest) = some (v :: items, rest) := by
  induction items generalizing v fuel with
  | nil =>
    rw [printItems, List.length_append, List.length_singleton] at hfuel
    obtain ⟨fuel, rfl⟩ : ∃ f, fuel = f + 1 := ⟨fuel - 1, by omega⟩
    have hvalue := hv fuel (by omega) (0x5d :: rest) (follows_cons (by decide) rest)
    rw [parseItems, printItems, List.append_assoc, List.singleton_append, hvalue]
    rfl
  | cons w items ih =>
    rw [printItems, List.length_append, List.length_cons] at hfuel
    obtain ⟨fuel, rfl⟩ : ∃ f, fuel = f + 1 := ⟨fuel - 1, by omega⟩
    have hvalue := hv fuel (by omega) (0x2c :: (w.print ++ printItems items ++ rest))
      (follows_cons (by decide) _)
    have hrest := ih (hitems w List.mem_cons_self)
      (fun x hx => hitems x (List.mem_cons_of_mem _ hx)) fuel (by omega)
    rw [parseItems, printItems, List.append_assoc, List.cons_append, hvalue]
    change (parseItems fuel (w.print ++ printItems items ++ rest)).map _ = _
    rw [hrest, Option.map_some]

/-- The fields of a record, as they stand in a value. -/
def namedFields (fields : List (String × Json)) : List (Bytes × Json) :=
  fields.map fun f => (escape (Utf8.encode f.1), f.2)

/-- What is printed for fields after the brace or the comma. -/
def printNamed (f : String × Json) (fields : List (String × Json)) : Bytes :=
  0x22 :: (escape (Utf8.encode f.1) ++ 0x22 :: 0x3a :: (f.2.print ++ printFields (namedFields fields)))

theorem printFields_named (f : String × Json) (fields : List (String × Json)) :
    printFields (namedFields (f :: fields)) = 0x2c :: printNamed f fields := by
  simp [namedFields, printNamed, printFields, printString]

theorem print_ofFields (f : String × Json) (fields : List (String × Json)) :
    (ofFields (f :: fields)).print = 0x7b :: printNamed f fields := by
  simp [ofFields, namedFields, printNamed, print, printString]

theorem parseFields_print {f : String × Json} {fields : List (String × Json)} (hf : Parses f.2)
    (hfields : ∀ g ∈ fields, Parses g.2) (fuel : Nat)
    (hfuel : 2 * (printNamed f fields).length ≤ fuel) (rest : Bytes) :
    parseFields fuel (printNamed f fields ++ rest) = some (namedFields (f :: fields), rest) := by
  have hopen (r : Bytes) : skipBlank (0x22 :: r) = 0x22 :: r := rfl
  have hcolon (r : Bytes) : skipBlank (0x3a :: r) = 0x3a :: r := rfl
  induction fields generalizing f fuel with
  | nil =>
    simp only [printNamed, List.length_cons, List.length_append] at hfuel
    obtain ⟨fuel, rfl⟩ : ∃ n, fuel = n + 1 := ⟨fuel - 1, by omega⟩
    have hvalue := hf fuel (by omega) (0x7d :: rest) (follows_cons (by decide) rest)
    rw [parseFields, printNamed, List.cons_append, hopen]
    simp only [List.append_assoc, List.cons_append, parseString_escape, hcolon]
    simp only [namedFields, List.map_nil, printFields, List.singleton_append, hvalue]
    rfl
  | cons g fields ih =>
    simp only [printNamed, List.length_cons, List.length_append, printFields_named] at hfuel
    obtain ⟨fuel, rfl⟩ : ∃ n, fuel = n + 1 := ⟨fuel - 1, by omega⟩
    have hvalue := hf fuel (by omega) (0x2c :: (printNamed g fields ++ rest))
      (follows_cons (by decide) _)
    have hrest := ih (hfields g List.mem_cons_self)
      (fun x hx => hfields x (List.mem_cons_of_mem _ hx)) fuel
      (by simp only [printNamed, List.length_cons, List.length_append]; omega)
    have hcomma (r : Bytes) : skipBlank (0x2c :: r) = 0x2c :: r := rfl
    rw [parseFields, printNamed, List.cons_append, hopen]
    simp only [List.append_assoc, List.cons_append, parseString_escape, hcolon, printFields_named,
      hvalue, hcomma, hrest, Option.map_some]
    rfl

theorem parseValue_array {fuel : Nat} {r t : Bytes} {b : UInt8} (h : skipBlank r = b :: t)
    (hb : b ≠ 0x5d) : parseValue (fuel + 1) (0x5b :: r) =
      (parseItems fuel (b :: t)).map fun p => (.array p.1, p.2) := by
  have hopen : skipBlank (0x5b :: r) = 0x5b :: r := rfl
  rw [parseValue, hopen]
  split
  · next heq => cases heq
  · next heq =>
    cases heq
    rw [h]
    split
    · next heq => exact absurd (List.cons.inj heq).1 hb
    · rfl
  · next heq => cases heq
  · next _ hne _ => exact absurd rfl (hne r)

theorem Written.parses {j : Json} (h : Written j) : Parses j := by
  induction h with
  | bool b =>
    intro fuel hfuel rest _
    obtain ⟨fuel, rfl⟩ : ∃ f, fuel = f + 1 := ⟨fuel - 1, by
      cases b <;> exact (Nat.succ_pred (by rintro rfl; exact absurd hfuel (by decide))).symm⟩
    cases b <;> rfl
  | nat => exact parses_ofNat _
  | text s => exact parses_ofText s
  | @array items h ih =>
    intro fuel hfuel rest _
    cases items with
    | nil =>
      obtain ⟨fuel, rfl⟩ : ∃ f, fuel = f + 1 := ⟨fuel - 1, by
        rw [print, List.length_cons] at hfuel; omega⟩
      rfl
    | cons v items =>
      rw [print, List.length_cons] at hfuel
      obtain ⟨fuel, rfl⟩ : ∃ f, fuel = f + 1 := ⟨fuel - 1, by omega⟩
      have hitems := parseItems_print (ih v List.mem_cons_self)
        (fun w hw => ih w (List.mem_cons_of_mem _ hw)) fuel (by omega) rest
      have hv := h v List.mem_cons_self
      obtain ⟨b, r, hp, _, hclose⟩ := hv.head_print
      have hskip := hv.skipBlank_print (printItems items ++ rest)
      rw [hp, List.cons_append] at hskip
      rw [hp, List.append_assoc, List.cons_append] at hitems
      rw [print, List.cons_append, List.append_assoc, hp, List.cons_append,
        parseValue_array hskip hclose, hitems, Option.map_some]
  | @object fields h ih =>
    intro fuel hfuel rest _
    cases fields with
    | nil =>
      obtain ⟨fuel, rfl⟩ : ∃ f, fuel = f + 1 := ⟨fuel - 1, by
        rw [ofFields, List.map_nil, print, List.length_cons] at hfuel; omega⟩
      rfl
    | cons f fields =>
      rw [print_ofFields, List.length_cons] at hfuel
      obtain ⟨fuel, rfl⟩ : ∃ n, fuel = n + 1 := ⟨fuel - 1, by omega⟩
      have hfields := parseFields_print (ih f List.mem_cons_self)
        (fun g hg => ih g (List.mem_cons_of_mem _ hg)) fuel (by omega) rest
      have hopen (r : Bytes) : skipBlank (0x7b :: 0x22 :: r) = 0x7b :: 0x22 :: r := rfl
      rw [print_ofFields, List.cons_append, parseValue]
      rw [printNamed, List.cons_append] at hfields ⊢
      rw [hopen]
      change (parseFields fuel (0x22 :: _)).map _ = _
      rw [hfields]
      rfl

/-- What is printed for a value is the text of this value. -/
theorem parse?_print {j : Json} (h : Written j) : parse? j.print = some j := by
  have hparses := h.parses (2 * j.print.length + 1) (by omega) [] (by rintro _ ⟨⟩)
  rw [List.append_nil] at hparses
  rw [parse?, hparses]
  rfl

end Json

end DexIndex
