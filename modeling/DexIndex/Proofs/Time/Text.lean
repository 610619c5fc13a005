import DexIndex.Proofs.Lists
import DexIndex.Time.Timestamp
import Mathlib.Algebra.Group.Nat.Defs

/-!
# Timestamps read back

The text of an instant is read as this instant (`Timestamp.ofText?_toText`), in every supported year
and within leap seconds. Each part of the text is taken by its reader, whatever follows it.
-/

namespace DexIndex

namespace Text

theorem decimal?_eq {cs : List Char} (hne : cs ≠ []) (h : ∀ c ∈ cs, c.isDigit) :
    decimal? cs = some (Nat.ofDigitChars 10 cs 0) := by
  have hfold (n : Nat) : cs.foldlM
      (fun n c => if c.isDigit then some (10 * n + (c.toNat - 48)) else none) n =
        some (Nat.ofDigitChars 10 cs n) := by
    clear hne
    induction cs generalizing n with
    | nil => rfl
    | cons c cs ih =>
      obtain ⟨hc, hcs⟩ := List.forall_mem_cons.mp h
      rw [List.foldlM_cons, if_pos hc, Nat.ofDigitChars_cons]
      exact ih hcs _
  rw [decimal?, if_neg (by simpa using hne)]
  exact hfold 0

theorem toList_padded (width n : Nat) :
    (padded width n).toList =
      List.replicate (width - (Nat.toDigits 10 n).length) '0' ++ Nat.toDigits 10 n := by
  have hzeros (k : Nat) : ("".pushn '0' k).toList = List.replicate k '0' := by
    rw [String.pushn_eq_repeat_push]
    induction k with
    | zero => rfl
    | succ k ih => rw [Nat.repeat, String.toList_push, ih, List.replicate_succ']
  rw [padded, String.toList_append, hzeros, Nat.toList_repr, ← String.length_toList, Nat.toList_repr]

theorem isDigit_of_mem_padded {width n : Nat} {c : Char} (h : c ∈ (padded width n).toList) :
    c.isDigit := by
  rw [toList_padded] at h
  rcases List.mem_append.mp h with h | h
  · rw [List.eq_of_mem_replicate h]
    rfl
  · exact Nat.isDigit_of_mem_toDigits (by decide) (by decide) h

theorem padded_ne_nil (width n : Nat) : (padded width n).toList ≠ [] := by
  simp [toList_padded]

theorem decimal?_padded (width n : Nat) : decimal? (padded width n).toList = some n := by
  rw [decimal?_eq (padded_ne_nil width n) fun c hc => isDigit_of_mem_padded hc, toList_padded,
    Nat.ofDigitChars_append, Nat.ofDigitChars_replicate_zero, Nat.mul_zero,
    Nat.ofDigitChars_ten_toDigits]

theorem length_padded {width n : Nat} (hw : 0 < width) (h : n < 10 ^ width) :
    (padded width n).toList.length = width := by
  have hle := (Nat.length_toDigits_le_iff (b := 10) (by decide) hw).mpr h
  rw [toList_padded, List.length_append, List.length_replicate]
  omega

end Text

theorem Date.daysInMonth_le (year : Int) (month : Nat) : daysInMonth year month ≤ 31 := by
  unfold daysInMonth
  split
  · split <;> omega
  · split <;> omega

namespace Timestamp
namespace Scan

theorem bind_apply {α β : Type} (r : Scan α) (f : α → Scan β) (cs : List Char) :
    (r >>= f) cs = (r cs).bind fun p => f p.1 p.2 := rfl

theorem bind_of_eq {α β : Type} {r : Scan α} {f : α → Scan β} {cs rest : List Char} {a : α}
    (h : r cs = some (a, rest)) : (r >>= f) cs = f a rest := by
  rw [bind_apply, h, Option.bind_some]

theorem blanks_cons {c : Char} (h : Text.isBlank c = false) (rest : List Char) :
    blanks (c :: rest) = some ((), c :: rest) := by
  rw [blanks, Text.trimStart, List.dropWhile_cons_of_neg (by simp [h])]

theorem isBlank_of_isDigit {c : Char} (h : c.isDigit) : Text.isBlank c = false := by
  obtain ⟨hlow, hhigh⟩ := Char.isDigit_iff_toNat.mp h
  have hlow : 48 ≤ c.toNat := hlow
  have hhigh : c.toNat ≤ 57 := hhigh
  simp only [Text.isBlank, Bool.or_eq_false_iff, Bool.and_eq_false_iff, decide_eq_false_iff_not,
    beq_eq_false_iff_ne]
  omega

theorem digits_append {limit : Option Nat} {cs rest : List Char} (h : ∀ c ∈ cs, c.isDigit)
    (hne : cs ≠ [])
    (hend : limit = some cs.length ∨ limit = none ∧ ∀ c ∈ rest.head?, c.isDigit = false) :
    digits limit (cs ++ rest) = some (cs, rest) := by
  unfold digits
  rw [List.takeWhile_append_of_pos h]
  rcases hend with rfl | ⟨rfl, hrest⟩
  · dsimp only
    rw [List.take_left, if_neg (by simpa using hne), List.drop_left]
  · have hstop : rest.takeWhile Char.isDigit = [] := by
      cases rest with
      | nil => rfl
      | cons c r => rw [List.takeWhile_cons_of_neg (by simp [hrest c rfl])]
    dsimp only
    rw [hstop, List.append_nil, if_neg (by simpa using hne), List.drop_left]

/-- A numeral is taken up to a character that is no digit, or as many digits as may be taken. -/
theorem number_append {limit : Option Nat} {cs rest : List Char} {n : Nat}
    (h : ∀ c ∈ cs, c.isDigit) (hn : Text.decimal? cs = some n)
    (hend : limit = some cs.length ∨ limit = none ∧ ∀ c ∈ rest.head?, c.isDigit = false) :
    number limit (cs ++ rest) = some (n, rest) := by
  have hne : cs ≠ [] := by
    rintro rfl
    cases hn
  rw [number, bind_apply, digits_append h hne hend, Option.bind_some, hn]
  rfl

theorem number_padded {width n : Nat} (hw : 0 < width) (h : n < 10 ^ width) (rest : List Char) :
    number (some width) ((Text.padded width n).toList ++ rest) = some (n, rest) :=
  number_append (fun _ hc => Text.isDigit_of_mem_padded hc) (Text.decimal?_padded width n)
    (.inl (congrArg some (Text.length_padded hw h).symm))

theorem blanks_padded (width n : Nat) (rest : List Char) :
    blanks ((Text.padded width n).toList ++ rest) =
      some ((), (Text.padded width n).toList ++ rest) := by
  cases h : (Text.padded width n).toList with
  | nil => exact absurd h (Text.padded_ne_nil width n)
  | cons c cs =>
    exact blanks_cons (isBlank_of_isDigit (Text.isDigit_of_mem_padded (h ▸ List.mem_cons_self))) _

theorem pair_padded {n : Nat} (h : n < 100) (rest : List Char) :
    pair ((Text.padded 2 n).toList ++ rest) = some (n, rest) := by
  rw [pair, bind_of_eq (blanks_padded _ _ _)]
  exact number_padded (by decide) h rest

theorem separator_cons {c : Char} (h : Text.isBlank c = false) (rest : List Char) :
    separator c (c :: rest) = some ((), rest) := by
  rw [separator, bind_of_eq (blanks_cons h _), bind_apply]
  simp only [char, beq_self_eq_true, if_true]
  rfl

theorem blanks_nil : blanks [] = some ((), []) := rfl

theorem char_cons {ok : Char → Bool} {c : Char} (h : ok c) (rest : List Char) :
    char ok (c :: rest) = some (c, rest) := by
  rw [char, if_pos h]

theorem year_minus (cs : List Char) :
    year ('-' :: cs) = (number none cs).map fun p => (-(p.1 : Int), p.2) := by
  rw [year, bind_of_eq (blanks_cons (by decide) _)]
  change (number none cs).bind (fun p => some (-(p.1 : Int), p.2)) = _
  rw [Option.map_eq_bind]
  rfl

theorem year_plus (cs : List Char) :
    year ('+' :: cs) = (number none cs).map fun p => ((p.1 : Int), p.2) := by
  rw [year, bind_of_eq (blanks_cons (by decide) _)]
  change (number none cs).bind (fun p => some ((p.1 : Int), p.2)) = _
  rw [Option.map_eq_bind]
  rfl

theorem year_digit {c : Char} (h : c.isDigit) (cs : List Char) :
    year (c :: cs) = (number (some 4) (c :: cs)).map fun p => ((p.1 : Int), p.2) := by
  have hminus : c ≠ '-' := by rintro rfl; exact absurd h (by decide)
  have hplus : c ≠ '+' := by rintro rfl; exact absurd h (by decide)
  have hget : (get : Scan (List Char)) (c :: cs) = some (c :: cs, c :: cs) := rfl
  rw [year, bind_of_eq (blanks_cons (isBlank_of_isDigit h) _), bind_of_eq hget,
    Option.map_eq_bind]
  refine congrFun (?_ : _ = (do return ((← number (some 4)) : Int) : Scan Int)) (c :: cs)
  split
  · next heq => exact absurd (List.cons.inj heq).1 hminus
  · next heq => exact absurd (List.cons.inj heq).1 hplus
  · rfl

theorem year_yearText (y : Int) {rest : List Char} (h : ∀ c ∈ rest.head?, c.isDigit = false) :
    year ((yearText y).toList ++ rest) = some (y, rest) := by
  have hdigit : ∀ c ∈ (Text.padded 4 y.natAbs).toList, c.isDigit := fun _ hc =>
    Text.isDigit_of_mem_padded hc
  have hlong : number none ((Text.padded 4 y.natAbs).toList ++ rest) = some (y.natAbs, rest) :=
    number_append hdigit (Text.decimal?_padded 4 _) (.inr ⟨rfl, h⟩)
  unfold yearText
  split
  · next hy =>
    have hshort := number_padded (by decide) (show y.natAbs < 10 ^ 4 by omega) rest
    have hne := Text.padded_ne_nil 4 y.natAbs
    generalize (Text.padded 4 y.natAbs).toList = cs at *
    cases cs with
    | nil => exact absurd rfl hne
    | cons c cs =>
      rw [List.cons_append, year_digit (hdigit c List.mem_cons_self), ← List.cons_append, hshort]
      simp only [Option.map_some, Option.some.injEq, Prod.mk.injEq, and_true]
      omega
  · rw [String.toList_append, List.append_assoc]
    split
    · rw [show "-".toList = ['-'] from rfl, List.singleton_append, year_minus, hlong]
      simp only [Option.map_some, Option.some.injEq, Prod.mk.injEq, and_true]
      omega
    · rw [show "+".toList = ['+'] from rfl, List.singleton_append, year_plus, hlong]
      simp only [Option.map_some, Option.some.injEq, Prod.mk.injEq, and_true]
      omega

theorem fraction_dot (cs : List Char) : fraction ('.' :: cs) = (digits none cs).bind fun p =>
    some ((Text.decimal? (p.1.take 9)).getD 0 * Nat.pow 10 (9 - (p.1.take 9).length), p.2) := rfl

theorem fraction_zulu (cs : List Char) : fraction ('Z' :: cs) = some (0, 'Z' :: cs) := rfl

/-- A fraction of fewer than nine digits stands for so many nanoseconds times a power of ten. -/
theorem fraction_padded {width n : Nat} (hw : 0 < width) (hle : width ≤ 9) (h : n < 10 ^ width)
    (rest : List Char) :
    fraction ('.' :: ((Text.padded width n).toList ++ 'Z' :: rest)) =
      some (n * Nat.pow 10 (9 - width), 'Z' :: rest) := by
  have hlen := Text.length_padded hw h
  have hdigits : digits none ((Text.padded width n).toList ++ 'Z' :: rest) =
      some ((Text.padded width n).toList, 'Z' :: rest) := by
    refine digits_append (fun _ hc => Text.isDigit_of_mem_padded hc) (Text.padded_ne_nil width n)
      (.inr ⟨rfl, ?_⟩)
    rintro _ ⟨⟩
    rfl
  have htake : (Text.padded width n).toList.take 9 = (Text.padded width n).toList :=
    List.take_of_length_le (le_of_eq_of_le hlen hle)
  rw [fraction_dot, hdigits, Option.bind_some]
  show some (_, _) = _
  rw [htake, hlen, Text.decimal?_padded, Option.getD_some]

theorem fraction_fractionText {nano : Nat} (h : nano < 1000000000) (rest : List Char) :
    fraction ((fractionText nano).toList ++ 'Z' :: rest) = some (nano, 'Z' :: rest) := by
  have hdot : ".".toList = ['.'] := rfl
  unfold fractionText
  split
  · next hzero => exact hzero ▸ fraction_zulu rest
  split
  · next hmilli =>
    have hn := fraction_padded (by decide) (by decide) (show nano / 1000000 < 10 ^ 3 by omega) rest
    rw [String.toList_append, hdot, List.singleton_append, List.cons_append, hn]
    have hnano : nano / 1000000 * 1000000 = nano := by omega
    exact congrArg (fun n => some (n, 'Z' :: rest)) hnano
  split
  · next hmicro =>
    have hn := fraction_padded (by decide) (by decide) (show nano / 1000 < 10 ^ 6 by omega) rest
    rw [String.toList_append, hdot, List.singleton_append, List.cons_append, hn]
    have hnano : nano / 1000 * 1000 = nano := by omega
    exact congrArg (fun n => some (n, 'Z' :: rest)) hnano
  · have hn := fraction_padded (by decide) (by decide) (show nano < 10 ^ 9 by omega) rest
    rw [String.toList_append, hdot, List.singleton_append, List.cons_append, hn]
    exact congrArg (fun n => some (n, 'Z' :: rest)) (Nat.mul_one nano)

theorem offset_utc : offset ['Z'] = some (0, []) := by
  rfl

end Scan

theorem ofLocal?_utc {t : Timestamp} :
    ofLocal? t.date t.hour t.minute t.second t.nano 0 = some t := by
  have hhour := t.hour_lt
  have hminute := t.minute_lt
  have hdate : (if ((t.hour * 60 + t.minute : Nat) : Int) - 0 < 0 then t.date.previous?
      else if 1440 ≤ ((t.hour * 60 + t.minute : Nat) : Int) - 0 then t.date.next?
      else some t.date) = some t.date := by
    rw [if_neg (by omega), if_neg (by omega)]
  unfold ofLocal?
  rw [dif_pos ⟨t.second_lt, t.nano_lt, t.second_eq⟩]
  simp only [hdate, Option.map_some, Option.some.injEq]
  obtain ⟨date, hour, minute, second, nano, _, _, _, _, _⟩ := t
  simp only [Timestamp.mk.injEq, true_and, and_true]
  dsimp only at hhour hminute
  omega

theorem scan_toText (t : Timestamp) : scan t.toText.toList = some (t, []) := by
  have hdash : "-".toList = ['-'] := rfl
  have hcolon : ":".toList = [':'] := rfl
  have ht : "T".toList = ['T'] := rfl
  have hz : "Z".toList = ['Z'] := rfl
  have hmonth := t.date.month_mem
  have hday := t.date.day_mem
  have hlast := Date.daysInMonth_le t.date.year t.date.month
  have hhour := t.hour_lt
  have hminute := t.minute_lt
  have hsecond := t.second_lt
  have hnano := t.nano_lt
  simp only [toText, String.toList_append, List.append_assoc, hdash, hcolon, ht, hz,
    List.cons_append, List.nil_append]
  unfold scan
  rw [Scan.bind_of_eq (Scan.year_yearText _ (by rintro _ ⟨⟩; rfl)),
    Scan.bind_of_eq (Scan.separator_cons (by decide) _),
    Scan.bind_of_eq (Scan.pair_padded (by omega) _),
    Scan.bind_of_eq (Scan.separator_cons (by decide) _),
    Scan.bind_of_eq (Scan.pair_padded (by omega) _),
    Scan.bind_of_eq (Scan.char_cons (by decide) _),
    Scan.bind_of_eq (Scan.pair_padded (by omega) _),
    Scan.bind_of_eq (Scan.separator_cons (by decide) _),
    Scan.bind_of_eq (Scan.pair_padded (by omega) _),
    Scan.bind_of_eq (Scan.separator_cons (by decide) _),
    Scan.bind_of_eq (Scan.pair_padded (by omega) _),
    Scan.bind_of_eq (Scan.fraction_fractionText (by omega) _),
    Scan.bind_of_eq Scan.offset_utc, Scan.bind_of_eq Scan.blanks_nil]
  have hrange : (decide (24 ≤ t.hour) || decide (60 ≤ t.minute) ||
      decide (61 ≤ t.second + t.nano / 1000000000)) = false := by
    simp only [Bool.or_eq_false_iff, decide_eq_false_iff_not]
    omega
  have hfold : (if t.second + t.nano / 1000000000 = 60
      then (59, t.nano % 1000000000 + 1000000000)
      else (t.second + t.nano / 1000000000, t.nano % 1000000000)) = (t.second, t.nano) := by
    have hleap := t.second_eq
    split
    · simp only [Prod.mk.injEq]
      omega
    · simp only [Prod.mk.injEq]
      omega
  simp only [hrange, Bool.false_eq_true, if_false, Date.ofParts?_parts, hfold, ofLocal?_utc]
  rfl

theorem ofText?_toText (t : Timestamp) : ofText? t.toText = some t := by
  rw [ofText?, scan_toText]

end Timestamp

end DexIndex
