import DexIndex.Proofs.Exchange.Ring
import DexIndex.Proofs.Results

/-!
# Queue accounts read back

An account is a header and a region between two marks (`Queue.account`), and the queue in it has the
entries that are read from the slots in use (`Queue.ofRegion_eq_ok_iff`). So a well-formed queue is
read back as it was written, and so is every queue that was read; the account from which it was read
is written again if nothing but the entries stands in its region (`Queue.Clean`).
-/

namespace DexIndex.Queue

/-! ### Between the marks -/

/-- The account data with this header and region. -/
def account (header : QueueHeader) (region : Bytes) : Bytes :=
  headMark ++ encodeHeader header ++ region ++ tailMark

/-- The bytes between the header and the mark at the back. -/
def region (data : Bytes) : Bytes :=
  (data.drop (headMark.length + headerLength)).take (data.length - minLength)

theorem length_encodeHeader (h : QueueHeader) : (encodeHeader h).length = headerLength := by
  simp [encodeHeader, headerLength]

theorem length_account (h : QueueHeader) (r : Bytes) :
    (account h r).length = minLength + r.length := by
  rw [account, List.length_append, List.length_append, List.length_append, length_encodeHeader,
    minLength]
  omega

@[simp] theorem region_account (h : QueueHeader) (r : Bytes) : region (account h r) = r := by
  have hfront : (headMark ++ encodeHeader h).length = headMark.length + headerLength := by
    rw [List.length_append, length_encodeHeader]
  rw [region, length_account, Nat.add_sub_cancel_left, account, List.append_assoc,
    List.drop_left' hfront, List.take_left]

theorem headerReader_append (h : QueueHeader) (rest : Bytes) :
    headerReader (encodeHeader h ++ rest) = some (h, rest) := by
  simp [headerReader, encodeHeader, Reader.bind_apply, Reader.map_apply, List.append_assoc]

theorem fills_encodeHeader : Bytes.Fills encodeHeader 32 := by
  have hwords := ((Bytes.Fills.wordLE.append .wordLE).append .wordLE).append .wordLE
  refine hwords.rearrange (fun h : QueueHeader => (((h.flags, h.head), h.count), h.seq)) ?_
  rintro ⟨⟨⟨flags, head⟩, count⟩, seq⟩
  exact ⟨⟨flags, head, count, seq⟩, rfl⟩

theorem body?_append (body : Bytes) : body? (headMark ++ body ++ tailMark) = some body := by
  have hhead : headMark.isPrefixOf (headMark ++ body ++ tailMark) := by
    rw [List.isPrefixOf_iff_prefix, List.append_assoc]
    exact List.prefix_append _ _
  have htail : tailMark.isSuffixOf (headMark ++ body ++ tailMark) := by
    rw [List.isSuffixOf_iff_suffix]
    exact List.suffix_append _ _
  have hlength : (headMark ++ body ++ tailMark).length - headMark.length - tailMark.length =
      body.length := by
    rw [List.length_append, List.length_append]
    omega
  rw [body?, if_pos ⟨hhead, htail⟩, hlength, List.append_assoc, List.drop_left, List.take_left]

/-- In data that is long enough for both marks and a header, the marks do not overlap. -/
theorem exists_body {data : Bytes} (hmin : minLength ≤ data.length) (hhead : headMark <+: data)
    (htail : tailMark <:+ data) : ∃ body, data = headMark ++ body ++ tailMark := by
  obtain ⟨rest, rfl⟩ := hhead
  have hlength : tailMark.length ≤ rest.length := by
    rw [List.length_append, minLength] at hmin
    omega
  obtain ⟨body, rfl⟩ := List.suffix_of_suffix_length_le htail (List.suffix_append _ _) hlength
  exact ⟨body, (List.append_assoc ..).symm⟩

theorem exists_account_of_marks {data : Bytes} (hmin : minLength ≤ data.length)
    (hhead : headMark <+: data) (htail : tailMark <:+ data) :
    ∃ header r, data = account header r := by
  obtain ⟨body, rfl⟩ := exists_body hmin hhead htail
  have hbody : headerLength ≤ body.length := by
    rw [List.length_append, List.length_append, minLength] at hmin
    omega
  obtain ⟨header, hheader⟩ := (fills_encodeHeader (body.take headerLength)).mpr (by
    rw [List.length_take]
    exact Nat.min_eq_left hbody)
  refine ⟨header, body.drop headerLength, ?_⟩
  rw [account, hheader, List.append_assoc headMark (body.take _), List.take_append_drop]

variable {α : Type} [QueueEntry α]

@[simp] theorem decode_account (h : QueueHeader) (r : Bytes) :
    decode (account h r) = (ofRegion h r : Except LayoutError (Queue α)) := by
  have hlength : ¬(account h r).length < minLength := by
    rw [length_account]
    omega
  have hbody : body? (account h r) = some (encodeHeader h ++ r) := by
    rw [account, List.append_assoc headMark]
    exact body?_append _
  rw [decode, if_neg hlength, hbody]
  dsimp only
  rw [headerReader_append]

theorem exists_account {data : Bytes} {q : Queue α} (h : decode data = .ok q) :
    ∃ header r, data = account header r := by
  unfold decode at h
  split at h
  · cases h
  · next hmin =>
    split at h
    · cases h
    · next body hbody =>
      unfold body? at hbody
      split at hbody
      · next hmarks =>
        exact exists_account_of_marks (by omega) (List.isPrefixOf_iff_prefix.mp hmarks.1)
          (List.isSuffixOf_iff_suffix.mp hmarks.2)
      · cases hbody

theorem encode_eq_account (q : Queue α) :
    q.encode = account q.header (slots q.capacity q.header.head.toNat q.entries).flatten := by
  simp [encode, account]

/-! ### Queues in a region -/

/-- A queue that an account can hold: the flags of its kind are set, the count is that of the
entries, and the ring has room for them and a slot for the head, unless it has no slots at all. -/
structure WellFormed (q : Queue α) : Prop where
  flags : q.header.flags &&& requiredFlags α = requiredFlags α
  count : q.header.count.toNat = q.entries.length
  inRange : q.capacity = 0 ∧ q.entries = [] ∨
    q.header.head.toNat < q.capacity ∧ q.entries.length ≤ q.capacity

theorem WellFormed.length_le {q : Queue α} (h : q.WellFormed) : q.entries.length ≤ q.capacity := by
  rcases h.inRange with ⟨_, hentries⟩ | ⟨_, hle⟩
  · simp [hentries]
  · exact hle

theorem entryAt_eq_ok {r : Bytes} {slot : Nat} {e : α} :
    entryAt r slot = .ok e ↔ QueueEntry.reader.eval (slotAt α r slot) = some e := by
  rw [entryAt, ← slotAt]
  cases (QueueEntry.reader : Reader α).eval (slotAt α r slot) with
  | none => simp
  | some e' => simp

/-- The entries of a region are those that are read from the slots in use. -/
def Holds (r : Bytes) (q : Queue α) : Prop :=
  ∀ i (hi : i < q.entries.length),
    QueueEntry.reader.eval (slotAt α r ((q.header.head.toNat + i) % q.capacity)) =
      some q.entries[i]

theorem mapM_entryAt {r : Bytes} {capacity head count : Nat} {entries : List α} :
    ((List.range count).mapM fun i => entryAt r ((head + i) % capacity)) = .ok entries ↔
      count = entries.length ∧ ∀ i (hi : i < entries.length),
        QueueEntry.reader.eval (slotAt α r ((head + i) % capacity)) = some entries[i] := by
  rw [Results.mapM_eq_ok, List.ext_getElem_iff]
  simp only [List.length_map, List.length_range, List.getElem_map, List.getElem_range,
    entryAt_eq_ok]
  refine and_congr_right fun hcount => ?_
  subst hcount
  exact ⟨fun h i hi => h i hi hi, fun h i hi _ => h i hi⟩

/-- The checks of a header, one after another. -/
theorem ofRegion_eq (header : QueueHeader) (r : Bytes) :
    (ofRegion header r : Except LayoutError (Queue α)) =
      if header.flags &&& requiredFlags α ≠ requiredFlags α then
        .error (.unexpectedAccountFlags header.flags (requiredFlags α))
      else if r.length / QueueEntry.size α = 0 then
        if header.count = 0 then .ok ⟨header, r.length / QueueEntry.size α, []⟩
        else .error (.headerOutOfRange header.head header.count (r.length / QueueEntry.size α))
      else if r.length / QueueEntry.size α ≤ header.head.toNat ∨
          r.length / QueueEntry.size α < header.count.toNat then
        .error (.headerOutOfRange header.head header.count (r.length / QueueEntry.size α))
      else
        ((List.range header.count.toNat).mapM fun i =>
          entryAt r ((header.head.toNat + i) % (r.length / QueueEntry.size α))).map
          fun entries => ⟨header, r.length / QueueEntry.size α, entries⟩ := by
  simp only [ofRegion]
  split
  · rfl
  · split
    · split
      · rfl
      · rfl
    · split
      · rfl
      · rfl

theorem ofRegion_eq_ok_iff {header : QueueHeader} {r : Bytes} {q : Queue α} :
    ofRegion header r = .ok q ↔
      q.header = header ∧ q.capacity = r.length / QueueEntry.size α ∧ q.WellFormed ∧
        q.Holds r := by
  rw [ofRegion_eq]
  generalize r.length / QueueEntry.size α = capacity
  constructor
  · intro h
    split at h
    · cases h
    · next hflags =>
      rw [ne_eq, not_not] at hflags
      split at h
      · next hcapacity =>
        split at h
        · next hcount =>
          cases h
          refine ⟨rfl, rfl, ⟨hflags, ?_, .inl ⟨hcapacity, rfl⟩⟩, fun i hi => ?_⟩
          · rw [hcount]
            rfl
          · cases hi
        · cases h
      · split at h
        · cases h
        · next hcapacity hrange =>
          cases hentries : (List.range header.count.toNat).mapM fun i =>
              (entryAt r ((header.head.toNat + i) % capacity) : Except LayoutError α) with
          | error e =>
            rw [hentries] at h
            cases h
          | ok entries =>
            rw [hentries] at h
            cases h
            obtain ⟨hcount, hholds⟩ := mapM_entryAt.mp hentries
            have hhead : header.head.toNat < capacity := by omega
            have hle : entries.length ≤ capacity := by omega
            exact ⟨rfl, rfl, ⟨hflags, hcount, .inr ⟨hhead, hle⟩⟩, hholds⟩
  · rintro ⟨rfl, rfl, hwell, hholds⟩
    obtain ⟨header, capacity, entries⟩ := q
    have hcount : header.count.toNat = entries.length := hwell.count
    rw [if_neg (not_not.mpr hwell.flags)]
    rcases hwell.inRange with ⟨hcapacity, hentries⟩ | ⟨hhead, hle⟩
    · have hentries : entries = [] := hentries
      have hzero : header.count = 0 := by
        rw [hentries] at hcount
        exact UInt64.toNat_inj.mp hcount
      rw [if_pos hcapacity, if_pos hzero, hentries]
    · have hhead : header.head.toNat < capacity := hhead
      have hle : entries.length ≤ capacity := hle
      dsimp only
      rw [if_neg (by omega), if_neg (by omega), mapM_entryAt.mpr ⟨hcount, hholds⟩]
      rfl

/-! ### Reading what was written -/

theorem decode_eq_ok_iff {data : Bytes} {q : Queue α} :
    decode data = .ok q ↔ data = account q.header (region data) ∧
      q.capacity = (region data).length / QueueEntry.size α ∧ q.WellFormed ∧
        q.Holds (region data) := by
  constructor
  · intro h
    obtain ⟨header, r, rfl⟩ := exists_account h
    rw [decode_account, ofRegion_eq_ok_iff] at h
    obtain ⟨rfl, hcapacity, hwell, hholds⟩ := h
    rw [region_account]
    exact ⟨rfl, hcapacity, hwell, hholds⟩
  · rintro ⟨hdata, hcapacity, hwell, hholds⟩
    rw [hdata, decode_account, ofRegion_eq_ok_iff]
    exact ⟨rfl, hcapacity, hwell, hholds⟩

variable [SlotForm α]

theorem holds_slots {q : Queue α} (h : q.WellFormed) :
    q.Holds (slots q.capacity q.header.head.toNat q.entries).flatten := by
  intro i hi
  have hle := h.length_le
  have hslot : (q.header.head.toNat + i) % q.capacity < q.capacity := Nat.mod_lt _ (by omega)
  rw [slotAt_flatten (fun s => length_of_mem_slots) (by rwa [length_slots])]
  have hused : (slots q.capacity q.header.head.toNat q.entries)[_]? = _ :=
    getElem?_slots_used hle hi
  rw [List.getElem?_eq_getElem (by rwa [length_slots]), Option.some_inj] at hused
  rw [hused]
  exact SlotForm.read_encode _

theorem decode_encode {q : Queue α} (h : q.WellFormed) : decode q.encode = .ok q := by
  rw [encode_eq_account, decode_account, ofRegion_eq_ok_iff]
  refine ⟨rfl, ?_, h, holds_slots h⟩
  rw [length_flatten fun s => length_of_mem_slots, length_slots,
    Nat.mul_div_cancel _ (SlotForm.size_pos (α := α))]

/-- Nothing but the entries of the queue stands in the region: no part of a slot is left over, and
unused slots and the padding of entries are zero. -/
structure Clean (q : Queue α) (r : Bytes) : Prop where
  whole : QueueEntry.size α ∣ r.length
  unused : ∀ slot < q.capacity,
    (∀ i < q.entries.length, (q.header.head.toNat + i) % q.capacity ≠ slot) →
      ∀ b ∈ slotAt α r slot, b = 0
  padding : ∀ i < q.entries.length,
    ∀ b ∈ ((slotAt α r ((q.header.head.toNat + i) % q.capacity)).drop
      (SlotForm.padding α)).take (SlotForm.paddingLength α), b = 0

theorem slots_eq {q : Queue α} {r : Bytes} (hcapacity : q.capacity = r.length / QueueEntry.size α)
    (h : q.WellFormed) (hholds : q.Holds r) (hclean : q.Clean r) :
    slots q.capacity q.header.head.toNat q.entries =
      (List.range q.capacity).map (slotAt α r) := by
  have hlength : q.capacity * QueueEntry.size α = r.length := by
    rw [hcapacity]
    exact Nat.div_mul_cancel hclean.whole
  refine List.ext_getElem? fun slot => ?_
  by_cases hslot : slot < q.capacity
  · have hwidth := length_slotAt hlength.le hslot
    rw [List.getElem?_map, List.getElem?_range hslot, Option.map_some]
    by_cases hused : ∃ i < q.entries.length, (q.header.head.toNat + i) % q.capacity = slot
    · obtain ⟨i, hi, rfl⟩ := hused
      obtain ⟨e, hread, hencode⟩ := SlotForm.exists_entry (α := α) _ hwidth
      rw [hholds i hi, Option.some_inj] at hread
      rw [getElem?_slots_used h.length_le hi, hread, hencode,
        Bytes.blank_eq_self (hwidth ▸ SlotForm.padding_le) (hclean.padding i hi)]
    · have hunused : ∀ i < q.entries.length, (q.header.head.toNat + i) % q.capacity ≠ slot :=
        fun i hi heq => hused ⟨i, hi, heq⟩
      rw [getElem?_slots_unused hslot hunused, Option.some_inj, eq_comm, List.eq_replicate_iff]
      exact ⟨hwidth, hclean.unused slot hslot hunused⟩
  · have hslots : (slots q.capacity q.header.head.toNat q.entries).length ≤ slot := by
      rw [length_slots]
      omega
    rw [List.getElem?_eq_none hslots, List.getElem?_eq_none (by simpa using hslot)]

theorem clean_slots {q : Queue α} (h : q.WellFormed) :
    q.Clean (slots q.capacity q.header.head.toNat q.entries).flatten := by
  have hmem : ∀ s ∈ slots q.capacity q.header.head.toNat q.entries,
      s.length = QueueEntry.size α := fun s => length_of_mem_slots
  have hslotAt (slot : Nat) (hslot : slot < q.capacity) :
      some (slotAt α (slots q.capacity q.header.head.toNat q.entries).flatten slot) =
        (slots q.capacity q.header.head.toNat q.entries)[slot]? := by
    have hslot : slot < (slots q.capacity q.header.head.toNat q.entries).length := by
      rwa [length_slots]
    rw [slotAt_flatten hmem hslot, List.getElem?_eq_getElem hslot]
  refine ⟨?_, fun slot hslot hunused b hb => ?_, fun i hi b hb => ?_⟩
  · rw [length_flatten hmem]
    exact Nat.dvd_mul_left ..
  · have hzero := hslotAt slot hslot
    rw [getElem?_slots_unused hslot hunused, Option.some_inj] at hzero
    rw [hzero] at hb
    exact List.eq_of_mem_replicate hb
  · have hle := h.length_le
    have hentry := hslotAt ((q.header.head.toNat + i) % q.capacity) (Nat.mod_lt _ (by omega))
    rw [getElem?_slots_used hle hi, Option.some_inj] at hentry
    rw [hentry] at hb
    exact SlotForm.eq_zero_of_mem_padding hb

/-- The accounts that are written again are those that hold nothing but the queue. -/
theorem encode_eq_iff {data : Bytes} {q : Queue α} (h : decode data = .ok q) :
    q.encode = data ↔ q.Clean (region data) := by
  obtain ⟨hdata, hcapacity, hwell, hholds⟩ := decode_eq_ok_iff.mp h
  constructor
  · rintro rfl
    rw [encode_eq_account, region_account]
    exact clean_slots hwell
  · intro hclean
    have hlength : (region data).length = q.capacity * QueueEntry.size α := by
      rw [hcapacity]
      exact (Nat.div_mul_cancel hclean.whole).symm
    rw [encode_eq_account, slots_eq hcapacity hwell hholds hclean, flatten_slotAt hlength, ← hdata]

/-- Reading and writing the queues of a kind are inverse to each other, for the queues that an
account can hold and for the accounts that hold nothing but a queue. -/
structure RoundTrips (α : Type) [QueueEntry α] [SlotForm α] : Prop where
  decode_encode : ∀ q : Queue α, q.WellFormed → decode q.encode = .ok q
  decode_reencode : ∀ data (q : Queue α), decode data = .ok q → decode q.encode = .ok q
  encode_decode : ∀ data (q : Queue α), decode data = .ok q →
    (q.encode = data ↔ q.Clean (region data))

theorem roundTrips (α : Type) [QueueEntry α] [SlotForm α] : RoundTrips α := by
  refine ⟨fun q => decode_encode, fun data q h => ?_, fun data q => encode_eq_iff⟩
  exact decode_encode (decode_eq_ok_iff.mp h).2.2.1

theorem accounts_round_trip : RoundTrips EventEntry ∧ RoundTrips RequestEntry :=
  ⟨roundTrips _, roundTrips _⟩

namespace Wrapped

def entry (n : UInt64) : EventEntry :=
  ⟨1, 0, 0, n, 0, 0, ⟨7, 6⟩, ⟨List.replicate 32 40, rfl⟩, 0⟩

/-- Two entries, in the last and the first of three slots. -/
def queue : EventQueue := ⟨⟨0x11, 2, 2, 5⟩, 3, [entry 1, entry 2]⟩

theorem wellFormed : queue.WellFormed := ⟨by decide, rfl, .inr ⟨by decide, by decide⟩⟩

/-- The same queue, with other bytes in the unused slot and behind the slots. -/
def littered : Bytes :=
  account queue.header
    ((entry 2).encode ++ List.replicate 88 9 ++ (entry 1).encode ++ [9, 9])

end Wrapped

open Wrapped in
set_option maxRecDepth 4000 in
/-- The same queue is read from both accounts, and one of them is written for it. -/
theorem accounts_round_trip_of_littered :
    decode queue.encode = .ok queue ∧ decode littered = .ok queue ∧ queue.encode ≠ littered := by
  have hlittered : decode littered = .ok queue := by decide
  refine ⟨accounts_round_trip.1.decode_encode queue wellFormed, hlittered, fun heq => ?_⟩
  have hclean := (accounts_round_trip.1.encode_decode littered queue hlittered).mp heq
  exact absurd hclean.whole (by decide)

end DexIndex.Queue
