import DexIndex.Chain.BlockFile
import DexIndex.Proofs.Chain.Json
import DexIndex.Proofs.Json.Line
import Mathlib.Data.List.TakeWhile

/-!
# Block files read

A text is divided into lines as its bytes are (`BlockFile.lines_encode`), so that what is read from
a text is told by its lines: the wanted blocks of those that are not blank, up to the first line
that holds no block, which is named by its number (`BlockFile.Reading`). Blocks that are written one
a line are all read back (`BlockFile.reads_wanted`).
-/

namespace DexIndex

/-! ### Lines of a text -/

namespace Text

/-- A line without the carriage return before its line feed. -/
def dropReturn (cs : List Char) : List Char := if cs.getLast? = some '\r' then cs.dropLast else cs

/-- What stands before each line feed, and what is left after the last one unless it is nothing. -/
def lines (s : String) : List String :=
  let pieces := s.toList.splitOn '\n'
  (pieces.dropLast.map dropReturn ++ (pieces.getLast?.filter (!·.isEmpty)).toList).map String.ofList

theorem lines_of_not_mem {cs : List Char} (h : '\n' ∉ cs) (hne : cs ≠ []) :
    lines (String.ofList cs) = [String.ofList cs] := by
  simp [lines, List.splitOn_eq_singleton h, hne]

theorem lines_append {a : List Char} (h : '\n' ∉ a) (rest : List Char) :
    lines (String.ofList (a ++ '\n' :: rest)) =
      String.ofList (dropReturn a) :: lines (String.ofList rest) := by
  have hpieces := List.splitOn_ne_nil '\n' rest
  simp [lines, List.splitOn_append_cons_self_of_not_mem h, List.dropLast_cons_of_ne_nil hpieces,
    List.getLast?_cons_of_ne_nil hpieces]

theorem trim_eq_nil_iff {cs : List Char} : trim cs = [] ↔ ∀ c ∈ cs, isBlank c := by
  constructor
  · intro h c hc
    have hrest : ∀ c ∈ trimStart cs, isBlank c := by
      simpa [trim, trimStart, List.dropWhile_eq_nil_iff] using h
    rw [← List.takeWhile_append_dropWhile (p := isBlank) (l := cs)] at hc
    rcases List.mem_append.mp hc with hc | hc
    · exact List.mem_takeWhile_imp hc
    · exact hrest c hc
  · intro h
    have hstart : trimStart cs = [] := List.dropWhile_eq_nil_iff.mpr h
    rw [trim, hstart]
    rfl

end Text

namespace BlockFile

theorem lines_nil : lines [] = [] := by
  rw [lines]
  exact if_pos rfl

theorem lines_of_not_mem {bs : Bytes} (h : 0x0a ∉ bs) (hne : bs ≠ []) : lines bs = [bs] := by
  have hall : ∀ b ∈ bs, (b != 0x0a) = true := fun b hb => by
    rw [bne_iff_ne]
    rintro rfl
    exact h hb
  have hrest : bs.dropWhile (· != 0x0a) = [] := List.dropWhile_eq_nil_iff.mpr hall
  rw [lines, if_neg (by simpa using hne)]
  split
  · rw [List.takeWhile_eq_self_iff.mpr hall]
  · next heq => rw [hrest] at heq; cases heq

theorem lines_append {a : Bytes} (h : 0x0a ∉ a) (rest : Bytes) :
    lines (a ++ 0x0a :: rest) = dropReturn a :: lines rest := by
  have hall : ∀ b ∈ a, (b != 0x0a) = true := fun b hb => by
    rw [bne_iff_ne]
    rintro rfl
    exact h hb
  have hrest : (a ++ 0x0a :: rest).dropWhile (· != 0x0a) = 0x0a :: rest := by
    rw [List.dropWhile_append_of_pos hall, List.dropWhile_cons_of_neg (by simp)]
  have hline : (a ++ 0x0a :: rest).takeWhile (· != 0x0a) = a := by
    rw [List.takeWhile_append_of_pos hall, List.takeWhile_cons_of_neg (by simp), List.append_nil]
  rw [lines, if_neg (by simp)]
  split
  · next heq => rw [hrest] at heq; cases heq
  · next heq =>
    rw [hrest] at heq
    obtain ⟨rfl, rfl⟩ := List.cons.inj heq
    rw [hline]

theorem dropReturn_flatMap (cs : List Char) :
    dropReturn (cs.flatMap String.utf8EncodeChar) =
      (Text.dropReturn cs).flatMap String.utf8EncodeChar := by
  rcases List.eq_nil_or_concat cs with rfl | ⟨init, c, rfl⟩
  · rfl
  rw [List.concat_eq_append, List.flatMap_append, List.flatMap_singleton]
  by_cases hc : c = '\r'
  · subst hc
    have hbytes : String.utf8EncodeChar '\r' = [0x0d] := by decide
    simp [Text.dropReturn, dropReturn, hbytes]
  · -- the last byte of another character is no carriage return
    have hlast : (init.flatMap String.utf8EncodeChar ++ String.utf8EncodeChar c).getLast? ≠
        some 0x0d := by
      rw [List.getLast?_append_of_ne_nil _ String.utf8EncodeChar_ne_nil]
      intro heq
      exact hc ((Utf8.mem_encodeChar_iff (d := '\r') (by decide)).mp (List.mem_of_getLast? heq))
    rw [dropReturn, if_neg (by simpa using hlast), Text.dropReturn, if_neg (by simpa using hc),
      List.flatMap_append, List.flatMap_singleton]

/-- The bytes of a text have the lines of the text. -/
theorem lines_encode (s : String) : lines (Utf8.encode s) = (Text.lines s).map Utf8.encode := by
  suffices hchars : ∀ cs : List Char, lines (cs.flatMap String.utf8EncodeChar) =
      (Text.lines (String.ofList cs)).map Utf8.encode by
    rw [Utf8.encode_eq, hchars, String.ofList_toList]
  intro cs
  have hfeed (cs : List Char) : 0x0a ∈ cs.flatMap String.utf8EncodeChar ↔ '\n' ∈ cs := by
    have hmem := Utf8.mem_encode_iff (s := String.ofList cs) (d := '\n') (by decide)
    rwa [Utf8.encode_ofList, String.toList_ofList] at hmem
  generalize hn : cs.length = n
  induction n using Nat.strongRecOn generalizing cs with
  | ind n ih =>
    by_cases hmem : '\n' ∈ cs
    · obtain ⟨a, rest, rfl, ha⟩ := List.eq_append_cons_of_mem hmem
      have hlt : rest.length < n := by
        rw [← hn, List.length_append, List.length_cons]
        omega
      have hbytes : (a ++ '\n' :: rest).flatMap String.utf8EncodeChar =
          a.flatMap String.utf8EncodeChar ++ 0x0a :: rest.flatMap String.utf8EncodeChar := by
        rw [List.flatMap_append, List.flatMap_cons]
        rfl
      rw [hbytes, lines_append ((hfeed a).not.mpr ha), Text.lines_append ha, List.map_cons,
        ih rest.length hlt rest rfl, dropReturn_flatMap, Utf8.encode_ofList]
    · cases cs with
      | nil => rw [List.flatMap_nil, lines_nil]; rfl
      | cons c cs =>
        have hne : (c :: cs).flatMap String.utf8EncodeChar ≠ [] := by simp
        rw [lines_of_not_mem ((hfeed _).not.mpr hmem) hne,
          Text.lines_of_not_mem hmem (List.cons_ne_nil c cs), List.map_singleton,
          Utf8.encode_ofList]

/-! ### What is read -/

variable {after : Option UInt64}

/-- The block that a line holds. -/
def blockOf? (line : String) : Option Block := (Json.parse? (Utf8.encode line)).bind Block.ofJson?

theorem isBlank_iff {line : String} : isBlank line ↔ Text.trim line.toList = [] := by
  rw [isBlank, List.all_eq_true, Text.trim_eq_nil_iff]

/-- Whether a line may stand in a block file. -/
def IsSound (line : String) : Prop := Text.trim line.toList = [] ∨ (blockOf? line).isSome

/-- The blocks of the lines that are not blank. -/
def blocksOf (lines : List String) : List Block :=
  (lines.filter fun line => Text.trim line.toList ≠ []).filterMap blockOf?

/-- The blocks after a number, or all. -/
def wanted (after : Option UInt64) (blocks : List Block) : List Block :=
  blocks.filter fun b => after.all (· < b.number)

theorem wanted_cons (after : Option UInt64) (b : Block) (blocks : List Block) :
    wanted after (b :: blocks) =
      if after.any (b.number ≤ ·) then wanted after blocks else b :: wanted after blocks := by
  cases after with
  | none => rfl
  | some n =>
    simp only [wanted, List.filter_cons, Option.all_some, Option.any_some, decide_eq_true_eq]
    by_cases h : b.number ≤ n
    · rw [if_pos h, if_neg (UInt64.not_lt.mpr h)]
    · rw [if_neg h, if_pos (UInt64.not_le.mp h)]

theorem results_blank {line : String} (h : Text.trim line.toList = []) (read : Nat)
    (rest : List Bytes) :
    results after read (Utf8.encode line :: rest) = results after (read + 1) rest := by
  rw [results, Utf8.decode?_encode]
  exact if_pos (isBlank_iff.mpr h)

theorem results_block {line : String} {b : Block} (h : Text.trim line.toList ≠ [])
    (hb : blockOf? line = some b) (read : Nat) (rest : List Bytes) :
    results after read (Utf8.encode line :: rest) =
      (wanted after [b]).map .ok ++ results after (read + 1) rest := by
  have hblock : (Json.parse? (Utf8.encode line)).bind Block.ofJson? = some b := hb
  rw [results, Utf8.decode?_encode]
  simp only [if_neg (isBlank_iff.not.mpr h), hblock, wanted_cons]
  split <;> rfl

theorem results_broken {line : String} (h : Text.trim line.toList ≠ []) (hb : blockOf? line = none)
    (read : Nat) (rest : List Bytes) :
    results after read (Utf8.encode line :: rest) =
      .error (.invalidBlock (read + 1)) :: results after (read + 1) rest := by
  have hblock : (Json.parse? (Utf8.encode line)).bind Block.ofJson? = none := hb
  rw [results, Utf8.decode?_encode]
  simp only [if_neg (isBlank_iff.not.mpr h), hblock]

/-- Lines that are sound give their wanted blocks, and all of them are counted. -/
theorem results_sound (after : Option UInt64) {sound : List String}
    (h : ∀ line ∈ sound, IsSound line) (read : Nat) (rest : List Bytes) :
    results after read (sound.map Utf8.encode ++ rest) =
      (wanted after (blocksOf sound)).map .ok ++ results after (read + sound.length) rest := by
  induction sound generalizing read with
  | nil => rfl
  | cons line sound ih =>
    obtain ⟨hline, hsound⟩ := List.forall_mem_cons.mp h
    have hrest := ih hsound (read + 1)
    rw [show read + 1 + sound.length = read + (line :: sound).length by simp; omega] at hrest
    rw [List.map_cons, List.cons_append]
    by_cases hblank : Text.trim line.toList = []
    · have hblocks : blocksOf (line :: sound) = blocksOf sound := by simp [blocksOf, hblank]
      rw [results_blank hblank, hrest, hblocks]
    · obtain ⟨b, hb⟩ := Option.isSome_iff_exists.mp (hline.resolve_left hblank)
      have hblocks : wanted after (blocksOf (line :: sound)) =
          wanted after [b] ++ wanted after (blocksOf sound) := by
        simp [blocksOf, wanted, hblank, hb, List.filter_cons]
        split <;> rfl
      rw [results_block hblank hb, hrest, hblocks, List.map_append, List.append_assoc]

/-- What is read from the lines of a text: the wanted blocks, in order, up to the end or to the
first line that is not sound. -/
inductive Reading (after : Option UInt64) : List String → List (Except BlockFileError Block) → Prop
  | whole {lines : List String} (sound : ∀ line ∈ lines, IsSound line) :
      Reading after lines ((wanted after (blocksOf lines)).map .ok)
  | broken {front : List String} {line : String} {behind : List String}
      {more : List (Except BlockFileError Block)} (sound : ∀ line ∈ front, IsSound line)
      (bad : ¬ IsSound line) :
      Reading after (front ++ line :: behind)
        ((wanted after (blocksOf front)).map .ok ++
          .error (.invalidBlock (front.length + 1)) :: more)

theorem reading_results (after : Option UInt64) (lines : List String) :
    Reading after lines (results after 0 (lines.map Utf8.encode)) := by
  classical
  have hfront : ∀ line ∈ lines.takeWhile (IsSound ·), IsSound line := fun line hline => by
    simpa using List.mem_takeWhile_imp hline
  have hsplit := List.takeWhile_append_dropWhile (p := (IsSound ·)) (l := lines)
  cases hbehind : lines.dropWhile (IsSound ·) with
  | nil =>
    rw [hbehind, List.append_nil] at hsplit
    rw [hsplit] at hfront
    have hresults := results_sound after hfront 0 []
    rw [List.append_nil] at hresults
    rw [hresults, results, List.append_nil]
    exact .whole hfront
  | cons line behind =>
    have hbad : ¬ IsSound line := by
      have hhead := List.head_dropWhile_not (l := lines) (IsSound ·) (by simp [hbehind])
      simpa [hbehind] using hhead
    rw [hbehind] at hsplit
    obtain ⟨hblank, hnone⟩ := not_or.mp hbad
    rw [← hsplit, List.map_append, List.map_cons, results_sound after hfront,
      results_broken hblank (by simpa using hnone), Nat.zero_add]
    exact .broken hfront hbad

/-! ### Blocks that were written -/

/-- Blocks written one a line. -/
def write (blocks : List Block) : Bytes := blocks.flatMap fun b => b.toJson.print ++ [0x0a]

theorem exists_line (b : Block) : ∃ line, b.toJson.print = Utf8.encode line ∧
    (∀ c ∈ line.toList, 32 ≤ c.toNat) ∧ Text.trim line.toList ≠ [] ∧ blockOf? line = some b := by
  obtain ⟨line, hline, hplain⟩ := b.written_toJson.oneLine
  refine ⟨line, hline, hplain, fun hblank => ?_, ?_⟩
  · have hbrace : '{' ∈ line.toList := by
      refine (Utf8.mem_encode_iff (by decide)).mp ?_
      rw [← hline]
      exact List.mem_cons_self
    exact absurd (Text.trim_eq_nil_iff.mp hblank _ hbrace) (by decide)
  · rw [blockOf?, ← hline, Json.parse?_print b.written_toJson, Option.bind_some,
      Block.ofJson?_toJson]

theorem not_mem_print (b : Block) {d : Char} (hd : d.toNat < 32) :
    UInt8.ofNat d.toNat ∉ b.toJson.print := by
  obtain ⟨line, hline, hplain, _⟩ := exists_line b
  rw [hline, Utf8.mem_encode_iff (by omega)]
  intro hmem
  have := hplain d hmem
  omega

theorem lines_print_append (b : Block) (rest : Bytes) :
    lines (b.toJson.print ++ 0x0a :: rest) = b.toJson.print :: lines rest := by
  have hreturn : dropReturn b.toJson.print = b.toJson.print := by
    refine if_neg fun heq => not_mem_print b (d := '\r') (by decide) ?_
    exact List.mem_of_getLast? (eq_of_beq heq)
  rw [lines_append (not_mem_print b (d := '\n') (by decide)), hreturn]

theorem lines_write (blocks : List Block) :
    lines (write blocks) = blocks.map fun b => b.toJson.print := by
  induction blocks with
  | nil => exact lines_nil
  | cons b blocks ih =>
    rw [write, List.flatMap_cons, List.append_assoc, List.singleton_append, lines_print_append]
    exact congrArg _ ih

theorem lines_dropLast_write (blocks : List Block) :
    lines (write blocks).dropLast = blocks.map fun b => b.toJson.print := by
  induction blocks with
  | nil => exact lines_nil
  | cons b blocks ih =>
    have hwrite : write (b :: blocks) = b.toJson.print ++ 0x0a :: write blocks := by
      simp [write]
    cases blocks with
    | nil =>
      have hprint : b.toJson.print ≠ [] := List.cons_ne_nil _ _
      rw [hwrite, show write [] = [] from rfl, List.dropLast_concat,
        lines_of_not_mem (not_mem_print b (d := '\n') (by decide)) hprint]
      rfl
    | cons b' blocks =>
      have hne : write (b' :: blocks) ≠ [] := by simp [write]
      rw [hwrite, List.dropLast_append_of_ne_nil (List.cons_ne_nil _ _),
        List.dropLast_cons_of_ne_nil hne, lines_print_append, ih]
      rfl

theorem results_print (after : Option UInt64) (read : Nat) (blocks : List Block) :
    results after read (blocks.map fun b => b.toJson.print) = (wanted after blocks).map .ok := by
  induction blocks generalizing read with
  | nil => rfl
  | cons b blocks ih =>
    obtain ⟨line, hline, _, hblank, hb⟩ := exists_line b
    rw [List.map_cons, hline, results_block hblank hb, ih, ← List.map_append, wanted, wanted,
      ← List.filter_append]
    rfl

/-- From a text the blocks after a number are read, in order, those of the lines that are not blank,
up to the end or to the first line that is neither blank nor holds a block, whatever its number; the
error names its line, counted from 1 with all lines before it. Of blocks that were written one a
line, with a line feed at the end or without, just those after the number are read, each as it was.
-/
theorem reads_wanted (after : Option UInt64) :
    (∀ text : String, Reading after (Text.lines text) (read after (Utf8.encode text))) ∧
    ∀ blocks : List Block,
      read after (write blocks) = (wanted after blocks).map .ok ∧
      read after (write blocks).dropLast = (wanted after blocks).map .ok := by
  refine ⟨fun text => ?_, fun blocks => ⟨?_, ?_⟩⟩
  · rw [read, lines_encode]
    exact reading_results after _
  · rw [read, lines_write, results_print]
  · rw [read, lines_dropLast_write, results_print]

end BlockFile

end DexIndex
