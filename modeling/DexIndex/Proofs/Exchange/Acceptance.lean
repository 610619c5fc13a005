import DexIndex.Proofs.Exchange.Account

/-!
# Accounts that are accepted

An account is read just if it passes four checks, one after another: it is long enough, it stands
between the marks, its flags are set, and its head and its count fit the number of slots
(`Queue.Acceptable`). Any other account is refused with the fault of the first check that it fails
(`Queue.Fault`), so that the reader never runs out of bytes behind the first check. The positions
that are computed for the entries fit 64 bits: with arithmetic that stops at an overflow, the
reading is the same (`Queue.decode64`).
-/

namespace DexIndex.Queue

/-! ### The header in its place -/

def wordAt (data : Bytes) (offset : Nat) : UInt64 :=
  UInt64.ofNat (Bytes.valueLE ((data.drop offset).take 8))

/-- The four words behind the first mark. -/
def headerOf (data : Bytes) : QueueHeader :=
  ⟨wordAt data 5, wordAt data 13, wordAt data 21, wordAt data 29⟩

theorem wordAt_append (front rest : Bytes) (n : UInt64) :
    wordAt (front ++ Bytes.ofWord n ++ rest) front.length = n := by
  have hvalue : Bytes.valueLE (Bytes.ofWord n) = n.toNat := by
    rw [Bytes.ofWord, Bytes.valueLE_littleEndian]
    exact Nat.mod_eq_of_lt n.toNat_lt
  rw [wordAt, List.append_assoc, List.drop_left, List.take_left' (Bytes.length_ofWord n), hvalue,
    UInt64.ofNat_toNat]

theorem headerOf_account (h : QueueHeader) (r : Bytes) : headerOf (account h r) = h := by
  have hflags := wordAt_append headMark
    (Bytes.ofWord h.head ++ Bytes.ofWord h.count ++ Bytes.ofWord h.seq ++ r ++ tailMark) h.flags
  have hhead := wordAt_append (headMark ++ Bytes.ofWord h.flags)
    (Bytes.ofWord h.count ++ Bytes.ofWord h.seq ++ r ++ tailMark) h.head
  have hcount := wordAt_append (headMark ++ Bytes.ofWord h.flags ++ Bytes.ofWord h.head)
    (Bytes.ofWord h.seq ++ r ++ tailMark) h.count
  have hseq := wordAt_append
    (headMark ++ Bytes.ofWord h.flags ++ Bytes.ofWord h.head ++ Bytes.ofWord h.count)
    (r ++ tailMark) h.seq
  simp only [List.length_append, Bytes.length_ofWord, List.append_assoc] at hflags hhead hcount hseq
  simp only [headerOf, account, encodeHeader, List.append_assoc]
  exact congr (congr (congr (congrArg QueueHeader.mk hflags) hhead) hcount) hseq

/-! ### What is checked -/

def Framed (data : Bytes) : Prop := headMark <+: data ∧ tailMark <:+ data

instance (data : Bytes) : Decidable (Framed data) := inferInstanceAs (Decidable (_ ∧ _))

/-- There are neither slots nor entries, or the head is in a slot and there are slots for all
entries. -/
def InRange (header : QueueHeader) (capacity : Nat) : Prop :=
  capacity = 0 ∧ header.count = 0 ∨ header.head.toNat < capacity ∧ header.count.toNat ≤ capacity

instance (header : QueueHeader) (capacity : Nat) : Decidable (InRange header capacity) :=
  inferInstanceAs (Decidable (_ ∨ _))

variable (α : Type) [QueueEntry α]

def capacityOf (data : Bytes) : Nat := (data.length - 44) / QueueEntry.size α

/-- An account that passes all checks. -/
structure Acceptable (data : Bytes) : Prop where
  long : 44 ≤ data.length
  framed : Framed data
  flags : (headerOf data).flags &&& requiredFlags α = requiredFlags α
  inRange : InRange (headerOf data) (capacityOf α data)

/-- The fault of an account: that of the first check which it does not pass. -/
inductive Fault (data : Bytes) : LayoutError → Prop
  | short : data.length < 44 → Fault data (.tooShort 44 data.length)
  | unframed : 44 ≤ data.length → ¬Framed data → Fault data .missingPadding
  | flags : 44 ≤ data.length → Framed data →
      (headerOf data).flags &&& requiredFlags α ≠ requiredFlags α →
      Fault data (.unexpectedAccountFlags (headerOf data).flags (requiredFlags α))
  | outOfRange : 44 ≤ data.length → Framed data →
      (headerOf data).flags &&& requiredFlags α = requiredFlags α →
      ¬InRange (headerOf data) (capacityOf α data) →
      Fault data
        (.headerOutOfRange (headerOf data).head (headerOf data).count (capacityOf α data))

/-- The queue has the header of the account, and the entries in its slots from the head on. -/
structure ReadFrom (data : Bytes) (q : Queue α) : Prop where
  header : q.header = headerOf data
  capacity : q.capacity = capacityOf α data
  length_entries : q.entries.length = (headerOf data).count.toNat
  entries : q.Holds (region data)

theorem length_region (data : Bytes) : (region data).length = data.length - 44 := by
  have hmarks : headMark.length + headerLength = 37 := rfl
  have hmin : minLength = 44 := rfl
  rw [region, List.length_take, List.length_drop]
  omega

theorem capacityOf_eq (data : Bytes) :
    capacityOf α data = (region data).length / QueueEntry.size α := by
  rw [capacityOf, length_region]

theorem acceptable_or_fault (data : Bytes) : Acceptable α data ∨ ∃ e, Fault α data e := by
  by_cases hlong : 44 ≤ data.length
  · by_cases hframed : Framed data
    · by_cases hflags : (headerOf data).flags &&& requiredFlags α = requiredFlags α
      · by_cases hrange : InRange (headerOf data) (capacityOf α data)
        · exact .inl ⟨hlong, hframed, hflags, hrange⟩
        · exact .inr ⟨_, .outOfRange hlong hframed hflags hrange⟩
      · exact .inr ⟨_, .flags hlong hframed hflags⟩
    · exact .inr ⟨_, .unframed hlong hframed⟩
  · exact .inr ⟨_, .short (Nat.lt_of_not_le hlong)⟩

variable {α} {data : Bytes}

/-! ### The checks in turn -/

theorem account_of_framed (hlong : 44 ≤ data.length) (h : Framed data) :
    data = account (headerOf data) (region data) := by
  obtain ⟨header, r, rfl⟩ := exists_account_of_marks hlong h.1 h.2
  rw [headerOf_account, region_account]

theorem decode_of_framed (hlong : 44 ≤ data.length) (h : Framed data) :
    (decode data : Except LayoutError (Queue α)) = ofRegion (headerOf data) (region data) := by
  conv_lhs => rw [account_of_framed hlong h]
  exact decode_account _ _

theorem body?_of_not_framed (h : ¬Framed data) : body? data = none := by
  refine if_neg fun hmarks => h ⟨?_, ?_⟩
  · exact List.isPrefixOf_iff_prefix.mp hmarks.1
  · exact List.isSuffixOf_iff_suffix.mp hmarks.2

theorem decode_of_not_framed (hlong : 44 ≤ data.length) (h : ¬Framed data) :
    (decode data : Except LayoutError (Queue α)) = .error .missingPadding := by
  have hlength : ¬data.length < minLength := Nat.not_lt.mpr hlong
  rw [decode, if_neg hlength, body?_of_not_framed h]

theorem ofRegion_of_not_inRange {header : QueueHeader} {r : Bytes}
    (hflags : header.flags &&& requiredFlags α = requiredFlags α)
    (hrange : ¬InRange header (r.length / QueueEntry.size α)) :
    (ofRegion header r : Except LayoutError (Queue α)) =
      .error (.headerOutOfRange header.head header.count (r.length / QueueEntry.size α)) := by
  rw [ofRegion_eq, if_neg (not_not.mpr hflags)]
  generalize r.length / QueueEntry.size α = capacity at *
  rw [InRange, not_or, not_and, not_and, Nat.not_le] at hrange
  obtain ⟨hempty, hfull⟩ := hrange
  by_cases hcapacity : capacity = 0
  · rw [if_pos hcapacity, if_neg (hempty hcapacity)]
  · rw [if_neg hcapacity, if_pos]
    by_cases hhead : header.head.toNat < capacity
    · exact .inr (hfull hhead)
    · exact .inl (Nat.not_lt.mp hhead)

theorem Fault.decode_eq {e : LayoutError} (h : Fault α data e) :
    (decode data : Except LayoutError (Queue α)) = .error e := by
  cases h with
  | short hshort => exact if_pos hshort
  | unframed hlong hframed => exact decode_of_not_framed hlong hframed
  | flags hlong hframed hflags => rw [decode_of_framed hlong hframed, ofRegion_eq, if_pos hflags]
  | outOfRange hlong hframed hflags hrange =>
    rw [capacityOf_eq] at hrange ⊢
    rw [decode_of_framed hlong hframed, ofRegion_of_not_inRange hflags hrange]

/-! ### Positions in 64 bits -/

/-- A reading that its arithmetic may stop: `none` stands for an overflow or a division by zero. -/
abbrev Checked := ExceptT LayoutError Option

/-- A sum or product of positions, if it fits 64 bits. -/
def fit (n : Nat) : Checked Nat := ExceptT.lift (if n < UInt64.size then some n else none)

def remainder (n m : Nat) : Checked Nat := ExceptT.lift (if m = 0 then none else some (n % m))

variable (α) in
/-- The entry `i` places behind the head, one position after another. -/
def entry64 (r : Bytes) (head capacity i : Nat) : Checked α := do
  let place ← fit (head + i)
  let slot ← remainder place capacity
  let start ← fit (slot * QueueEntry.size α)
  let stop ← fit (start + QueueEntry.size α)
  match QueueEntry.reader.eval ((r.drop start).take (stop - start)) with
  | some e => return e
  | none => throw (.tooShort stop r.length)

def ofRegion64 (header : QueueHeader) (r : Bytes) : Checked (Queue α) := do
  let capacity := r.length / QueueEntry.size α
  let outOfRange := LayoutError.headerOutOfRange header.head header.count capacity
  if header.flags &&& requiredFlags α ≠ requiredFlags α then
    throw (.unexpectedAccountFlags header.flags (requiredFlags α))
  if capacity = 0 then
    if header.count = 0 then return { header, capacity, entries := [] }
    throw outOfRange
  if capacity ≤ header.head.toNat ∨ capacity < header.count.toNat then throw outOfRange
  let entries ← (List.range header.count.toNat).mapM (entry64 α r header.head.toNat capacity)
  return { header, capacity, entries }

/-- `decode` with the arithmetic of 64-bit positions. -/
def decode64 (data : Bytes) : Checked (Queue α) :=
  if data.length < minLength then throw (.tooShort minLength data.length)
  else
    match body? data with
    | none => throw .missingPadding
    | some body =>
      match headerReader body with
      | none => throw (.tooShort minLength data.length)
      | some (header, r) => ofRegion64 header r

theorem fit_of_lt {n : Nat} (h : n < UInt64.size) : fit n = pure n := by
  rw [fit, if_pos h]
  rfl

theorem remainder_of_pos {n m : Nat} (h : 0 < m) : remainder n m = pure (n % m) := by
  rw [remainder, if_neg (Nat.pos_iff_ne_zero.mp h)]
  rfl

theorem entry64_eq {r : Bytes} {head capacity i : Nat} (hsize : 2 ≤ QueueEntry.size α)
    (hr : r.length < UInt64.size) (hcapacity : capacity * QueueEntry.size α ≤ r.length)
    (hhead : head < capacity) (hi : i < capacity) :
    (entry64 α r head capacity i).run = some (entryAt r ((head + i) % capacity)) := by
  have hpos : 0 < capacity := Nat.zero_lt_of_lt hhead
  -- slots are at least two bytes long, so that twice the capacity is within the region
  have htwice : capacity * 2 ≤ r.length := (Nat.mul_le_mul_left _ hsize).trans hcapacity
  have hstop : ((head + i) % capacity + 1) * QueueEntry.size α ≤ r.length :=
    (Nat.mul_le_mul_right _ (Nat.mod_lt _ hpos)).trans hcapacity
  rw [Nat.succ_mul] at hstop
  rw [entry64, fit_of_lt (by omega), pure_bind, remainder_of_pos hpos, pure_bind,
    fit_of_lt (by omega), pure_bind, fit_of_lt (by omega), pure_bind, Nat.add_sub_cancel_left,
    entryAt]
  cases (QueueEntry.reader : Reader α).eval
    ((r.drop ((head + i) % capacity * QueueEntry.size α)).take (QueueEntry.size α)) with
  | none => rfl
  | some e => rfl

theorem mapM_run {β γ : Type} {f : β → Except LayoutError γ} {g : β → Checked γ} {xs : List β}
    (h : ∀ x ∈ xs, (g x).run = some (f x)) : (xs.mapM g).run = some (xs.mapM f) := by
  induction xs with
  | nil => rfl
  | cons x xs ih =>
    obtain ⟨hx, hxs⟩ := List.forall_mem_cons.mp h
    rw [List.mapM_cons, List.mapM_cons, ExceptT.run_bind, hx]
    cases f x with
    | error e => rfl
    | ok y =>
      show (xs.mapM g >>= fun ys => pure (y :: ys)).run = some (xs.mapM f >>= fun ys => pure (y :: ys))
      rw [ExceptT.run_bind, ih hxs]
      cases xs.mapM f with
      | error e => rfl
      | ok ys => rfl

theorem ofRegion64_eq {header : QueueHeader} {r : Bytes} (hsize : 2 ≤ QueueEntry.size α)
    (hr : r.length < UInt64.size) :
    (ofRegion64 header r : Checked (Queue α)).run = some (ofRegion header r) := by
  rw [ofRegion_eq]
  simp only [ofRegion64]
  have hle : r.length / QueueEntry.size α * QueueEntry.size α ≤ r.length := Nat.div_mul_le_self ..
  generalize r.length / QueueEntry.size α = capacity at *
  split
  · rfl
  · split
    · split
      · rfl
      · rfl
    · split
      · rfl
      · next hcapacity hrange =>
        have hentries : ((List.range header.count.toNat).mapM
            (entry64 α r header.head.toNat capacity)).run =
              some ((List.range header.count.toNat).mapM fun i =>
                entryAt r ((header.head.toNat + i) % capacity)) := by
          refine mapM_run fun i hi => entry64_eq hsize hr hle (by omega) ?_
          rw [List.mem_range] at hi
          omega
        rw [ExceptT.run_bind, hentries]
        cases (List.range header.count.toNat).mapM
          fun i => (entryAt r ((header.head.toNat + i) % capacity) : Except LayoutError α) with
        | error e => rfl
        | ok entries => rfl

theorem decode64_eq (hsize : 2 ≤ QueueEntry.size α) (hdata : data.length < UInt64.size) :
    (decode64 data : Checked (Queue α)).run = some (decode data) := by
  by_cases hlong : 44 ≤ data.length
  · have hlength : ¬data.length < minLength := Nat.not_lt.mpr hlong
    by_cases hframed : Framed data
    · have hregion : (region data).length < UInt64.size := by
        rw [length_region]
        omega
      have hbody : body? data = some (encodeHeader (headerOf data) ++ region data) := by
        conv_lhs => rw [account_of_framed hlong hframed, account, List.append_assoc headMark]
        exact body?_append _
      rw [decode_of_framed hlong hframed, decode64, if_neg hlength, hbody]
      dsimp only
      rw [headerReader_append]
      exact ofRegion64_eq hsize hregion
    · rw [decode_of_not_framed hlong hframed, decode64, if_neg hlength,
        body?_of_not_framed hframed]
      rfl
  · have hshort : data.length < minLength := Nat.lt_of_not_le hlong
    rw [decode64, decode, if_pos hshort, if_pos hshort]
    rfl

/-! ### The accounts that pass -/

theorem readFrom_of_decode {q : Queue α} (h : decode data = .ok q) : ReadFrom α data q := by
  obtain ⟨hdata, hcapacity, hwell, hholds⟩ := decode_eq_ok_iff.mp h
  have hheader : headerOf data = q.header := by
    rw [hdata, headerOf_account]
  refine ⟨hheader.symm, ?_, ?_, hholds⟩
  · rw [capacityOf_eq, hcapacity]
  · rw [hheader, hwell.count]

variable [SlotForm α]

theorem exists_entryAt {r : Bytes} {capacity slot : Nat}
    (h : capacity * QueueEntry.size α ≤ r.length) (hslot : slot < capacity) :
    ∃ e : α, entryAt r slot = .ok e := by
  obtain ⟨e, he, _⟩ := SlotForm.exists_entry (α := α) _ (length_slotAt h hslot)
  exact ⟨e, entryAt_eq_ok.mpr he⟩

theorem exists_ofRegion {header : QueueHeader} {r : Bytes}
    (hflags : header.flags &&& requiredFlags α = requiredFlags α)
    (hrange : InRange header (r.length / QueueEntry.size α)) :
    ∃ q : Queue α, ofRegion header r = .ok q := by
  rw [ofRegion_eq, if_neg (not_not.mpr hflags)]
  have hle : r.length / QueueEntry.size α * QueueEntry.size α ≤ r.length := Nat.div_mul_le_self ..
  generalize r.length / QueueEntry.size α = capacity at *
  rcases hrange with ⟨hcapacity, hcount⟩ | ⟨hhead, hcount⟩
  · rw [if_pos hcapacity, if_pos hcount]
    exact ⟨_, rfl⟩
  · obtain ⟨entries, hentries⟩ : ∃ entries : List α,
        ((List.range header.count.toNat).mapM fun i =>
          entryAt r ((header.head.toNat + i) % capacity)) = .ok entries :=
      Results.exists_mapM_eq_ok fun i _ => exists_entryAt hle (Nat.mod_lt _ (by omega))
    rw [if_neg (by omega), if_neg (by omega), hentries]
    exact ⟨_, rfl⟩

theorem Acceptable.exists_decode (h : Acceptable α data) : ∃ q : Queue α, decode data = .ok q := by
  rw [decode_of_framed h.long h.framed]
  refine exists_ofRegion h.flags ?_
  rw [← capacityOf_eq]
  exact h.inRange

theorem decode_eq_error_iff {e : LayoutError} :
    (decode data : Except LayoutError (Queue α)) = .error e ↔ Fault α data e := by
  refine ⟨fun h => ?_, Fault.decode_eq⟩
  rcases acceptable_or_fault α data with hok | ⟨e', hfault⟩
  · obtain ⟨q, hq⟩ := hok.exists_decode
    rw [hq] at h
    cases h
  · cases hfault.decode_eq.symm.trans h
    exact hfault

theorem exists_decode_iff : (∃ q : Queue α, decode data = .ok q) ↔ Acceptable α data := by
  refine ⟨fun ⟨q, hq⟩ => ?_, Acceptable.exists_decode⟩
  rcases acceptable_or_fault α data with hok | ⟨e, hfault⟩
  · exact hok
  · rw [hfault.decode_eq] at hq
    cases hq

/-- Which accounts a kind of queue is read from, what is read from them, and which faults the others
have. Only data that is short of a header is too short, and on a machine with 64-bit sizes no
arithmetic gets in the way. -/
structure DecodesExactly (α : Type) [QueueEntry α] : Prop where
  accepts : ∀ data, (∃ q : Queue α, decode data = .ok q) ↔ Acceptable α data
  reads : ∀ data (q : Queue α), decode data = .ok q → ReadFrom α data q
  refuses : ∀ data e, (decode data : Except LayoutError (Queue α)) = .error e ↔ Fault α data e
  tooShort : ∀ data needed actual,
    (decode data : Except LayoutError (Queue α)) = .error (.tooShort needed actual) →
      data.length < 44
  fits : ∀ data, data.length < UInt64.size →
    (decode64 data : Checked (Queue α)).run = some (decode data)

theorem decodesExactly (hsize : 2 ≤ QueueEntry.size α) : DecodesExactly α := by
  refine ⟨fun _ => exists_decode_iff, fun _ _ => readFrom_of_decode, fun _ _ => decode_eq_error_iff,
    fun data needed actual h => ?_, fun _ => decode64_eq hsize⟩
  cases decode_eq_error_iff.mp h with
  | short hshort => exact hshort

theorem accounts_accepted : DecodesExactly EventEntry ∧ DecodesExactly RequestEntry :=
  ⟨decodesExactly (by decide), decodesExactly (by decide)⟩

open Wrapped in
set_option maxRecDepth 4000 in
/-- A ring that wraps round is read from an account with other bytes in its unused slot, and refused
once its head is past the last slot. -/
theorem accounts_accepted_of_littered :
    Acceptable EventEntry littered ∧ littered.length < UInt64.size ∧
      (decode64 littered : Checked EventQueue).run = some (.ok queue) ∧
      (decode (account ⟨0x11, 3, 2, 5⟩ (region littered)) : Except LayoutError EventQueue) =
        .error (.headerOutOfRange 3 2 3) := by
  have hlittered : decode littered = .ok queue := by decide
  have hlength : littered.length < UInt64.size := by decide
  have hfault : Fault EventEntry (account ⟨0x11, 3, 2, 5⟩ (region littered))
      (.headerOutOfRange 3 2 3) :=
    .outOfRange (by decide) (by decide) (by decide) (by decide)
  refine ⟨(accounts_accepted.1.accepts _).mp ⟨queue, hlittered⟩, hlength, ?_,
    (accounts_accepted.1.refuses _ _).mpr hfault⟩
  rw [accounts_accepted.1.fits _ hlength, hlittered]

end DexIndex.Queue
