import DexIndex.Extraction
import DexIndex.Proofs.Exchange.Account
import Mathlib.Data.List.Count

/-!
# What was appended to a queue

An event queue counts what is pushed, so that of two of its accounts the pushed events are told from
the counters as long as all of them are still there, whatever was taken from the front
(`EventQueue.appended_between`). A request queue is compared entry by entry: the last occurrences of
each entry that the reading before does not account for are the appended ones
(`RequestQueue.appended_surplus`).
-/

namespace DexIndex

/-! ### Events -/

namespace EventQueue

/-- The events appended from one state of the account data to the next. -/
def appendedBetween (before after : Bytes) : Except LayoutError (List EventEntry) := do
  let prev ← Queue.decodeOptional before
  let new ← Queue.decode after
  appended prev new

theorem queueEvents_eq (site : Site) (accounts : Accounts) (i : Instruction)
    (change : AccountChange) :
    Extraction.queueEvents site accounts i change =
      (Extraction.readQueue site .eventQueue change.key
        (appendedBetween change.before change.after)).map
        (·.filterMap (Extraction.entryEvent? site accounts.market.key i.purpose)) := by
  rw [Extraction.queueEvents, appendedBetween]
  cases Queue.decodeOptional (α := EventEntry) change.before with
  | error e => rfl
  | ok prev =>
    show (do
      let new ← Extraction.readQueue site .eventQueue change.key (Queue.decode change.after)
      let entries ← Extraction.readQueue site .eventQueue change.key (appended prev new)
      pure (entries.filterMap _)) =
        Except.map _ (Extraction.readQueue site .eventQueue change.key
          (Queue.decode change.after >>= appended prev))
    cases Queue.decode (α := EventEntry) change.after with
    | error e => rfl
    | ok new =>
      show (do
        let entries ← Extraction.readQueue site .eventQueue change.key (appended prev new)
        pure (entries.filterMap _)) =
          Except.map _ (Extraction.readQueue site .eventQueue change.key (appended prev new))
      cases appended prev new with
      | error e => rfl
      | ok entries => rfl

theorem appendedBetween_encode {prev new : EventQueue} (hprev : prev.WellFormed)
    (hnew : new.WellFormed) :
    appendedBetween prev.encode new.encode = appended (some prev) new := by
  have hdata : prev.encode.isEmpty = false := rfl
  rw [appendedBetween, Queue.decodeOptional, hdata, Queue.decode_encode hprev,
    Queue.decode_encode hnew]
  rfl

theorem appendedBetween_nil {new : EventQueue} (hnew : new.WellFormed) :
    appendedBetween [] new.encode = .ok new.entries := by
  rw [appendedBetween, Queue.decode_encode hnew]
  rfl

/-- The ring goes over to `new` when events are pushed behind its entries and as many as `popped`
are taken from the front. -/
structure Moves (prev new : EventQueue) (pushed : List EventEntry) (popped : Nat) : Prop where
  flags : new.header.flags &&& Queue.requiredFlags EventEntry = Queue.requiredFlags EventEntry
  capacity : new.capacity = prev.capacity
  popped_le : popped ≤ (prev.entries ++ pushed).length
  entries : new.entries = (prev.entries ++ pushed).drop popped
  count : new.header.count.toNat = new.entries.length
  room : new.entries.length ≤ new.capacity
  head : new.header.head.toNat = (prev.header.head.toNat + popped) % prev.capacity
  seq : new.header.seq.toNat = prev.header.seq.toNat + pushed.length

namespace Moves
variable {prev new : EventQueue} {pushed : List EventEntry} {popped : Nat}

theorem wellFormed (h : prev.Moves new pushed popped) : new.WellFormed := by
  refine ⟨h.flags, h.count, ?_⟩
  have hroom := h.room
  rcases Nat.eq_zero_or_pos new.capacity with hzero | hpos
  · refine .inl ⟨hzero, List.length_eq_zero_iff.mp ?_⟩
    omega
  · refine .inr ⟨?_, hroom⟩
    rw [h.head, ← h.capacity]
    exact Nat.mod_lt _ hpos

theorem length_entries (h : prev.Moves new pushed popped) :
    new.entries.length + popped = prev.entries.length + pushed.length := by
  have hle := h.popped_le
  rw [h.entries, List.length_drop]
  rw [List.length_append] at hle ⊢
  omega

theorem seq_le (h : prev.Moves new pushed popped) : prev.header.seq ≤ new.header.seq := by
  rw [UInt64.le_iff_toNat_le, h.seq]
  omega

theorem toNat_seq_sub (h : prev.Moves new pushed popped) :
    (new.header.seq - prev.header.seq).toNat = pushed.length := by
  rw [UInt64.toNat_sub_of_le _ _ h.seq_le, h.seq]
  omega

theorem seq_sub (h : prev.Moves new pushed popped) :
    new.header.seq - prev.header.seq = UInt64.ofNat pushed.length := by
  rw [← h.toNat_seq_sub, UInt64.ofNat_toNat]

theorem not_lt (h : prev.Moves new pushed popped) : ¬new.header.seq < prev.header.seq :=
  UInt64.not_lt.mpr h.seq_le

theorem appended_of_le (h : prev.Moves new pushed popped) (hle : popped ≤ prev.entries.length) :
    appended (some prev) new = .ok pushed := by
  have hentries : new.entries = prev.entries.drop popped ++ pushed := by
    rw [h.entries, List.drop_append_of_le_length hle]
  have hlength := h.length_entries
  have hback : new.entries.length - pushed.length = (prev.entries.drop popped).length := by
    rw [List.length_drop]
    omega
  simp only [appended]
  rw [if_neg h.not_lt, h.toNat_seq_sub, if_pos (by omega), hback, hentries, List.drop_left]

theorem appended_of_lt (h : prev.Moves new pushed popped) (hlt : prev.entries.length < popped) :
    appended (some prev) new =
      .error (.overrun (UInt64.ofNat pushed.length) new.entries.length) := by
  have hlength := h.length_entries
  simp only [appended]
  rw [if_neg h.not_lt, h.toNat_seq_sub, if_neg (by omega), h.seq_sub]

end Moves

/-- Between two accounts of an event queue, exactly the pushed events are found unless one of them
was taken already. A counter that went back is noticed, and without an account before, all entries
count as pushed. -/
theorem appended_between {prev : EventQueue} (hprev : prev.WellFormed) :
    (∀ new pushed popped, prev.Moves new pushed popped →
      appendedBetween prev.encode new.encode =
        if popped ≤ prev.entries.length then .ok pushed
        else .error (.overrun (UInt64.ofNat pushed.length) new.entries.length)) ∧
    (∀ new : EventQueue, new.WellFormed → new.header.seq < prev.header.seq →
      appendedBetween prev.encode new.encode =
        .error (.seqNumRegressed prev.header.seq new.header.seq)) ∧
    ∀ new : EventQueue, new.WellFormed → appendedBetween [] new.encode = .ok new.entries := by
  refine ⟨fun new pushed popped h => ?_, fun new hnew hlt => ?_, fun new => appendedBetween_nil⟩
  · rw [appendedBetween_encode hprev h.wellFormed]
    split
    · next hle => exact h.appended_of_le hle
    · next hle => exact h.appended_of_lt (Nat.lt_of_not_le hle)
  · rw [appendedBetween_encode hprev hnew]
    simp only [appended]
    rw [if_pos hlt]

open Queue.Wrapped in
/-- The last event of the ring is pushed again while the first is taken. -/
theorem appended_between_of_repeat :
    queue.WellFormed ∧
      queue.Moves ⟨⟨0x11, 0, 2, 6⟩, 3, [entry 2, entry 2]⟩ [entry 2] 1 ∧
      appendedBetween queue.encode
        (Queue.encode (⟨⟨0x11, 0, 2, 6⟩, 3, [entry 2, entry 2]⟩ : EventQueue)) = .ok [entry 2] := by
  have hmoves : queue.Moves ⟨⟨0x11, 0, 2, 6⟩, 3, [entry 2, entry 2]⟩ [entry 2] 1 :=
    ⟨by decide, rfl, by decide, rfl, rfl, by decide, rfl, rfl⟩
  exact ⟨wellFormed, hmoves, (appended_between wellFormed).1 _ _ _ hmoves⟩

end EventQueue

/-! ### Requests -/

section MultisetDiff
variable {α : Type} [DecidableEq α]

theorem multisetDiff_eq_diff (xs seen : List α) : multisetDiff xs seen = xs.diff seen := by
  induction xs generalizing seen with
  | nil => rw [multisetDiff, List.nil_diff]
  | cons x xs ih =>
    rw [multisetDiff, List.cons_diff, ih, ih]

theorem diff_append_left (xs ys seen : List α) :
    (xs ++ ys).diff seen = xs.diff seen ++ ys.diff (seen.diff xs) := by
  induction xs generalizing seen with
  | nil => rw [List.nil_append, List.nil_diff, List.diff_nil, List.nil_append]
  | cons x xs ih =>
    rw [List.cons_append, List.cons_diff, List.cons_diff, List.diff_cons]
    split
    · exact ih _
    · next hx => rw [ih, List.erase_of_not_mem hx, List.cons_append]

/-- The entries at the positions that are kept. -/
def keepAt (keep : Nat → Bool) (xs : List α) : List α :=
  (xs.zipIdx.filter fun p => keep p.2).map (·.1)

/-- Of each entry of `xs` only the last occurrences are left in `ys`. -/
def LastKept (xs ys : List α) : Prop :=
  ∃ keep, ys = keepAt keep xs ∧
    ∀ i j x, i < j → xs[i]? = some x → xs[j]? = some x → keep i = true → keep j = true

/-- Whether the entries before a position account for all occurrences of its entry in `seen`. -/
def isSurplus (seen xs : List α) (i : Nat) : Bool :=
  xs[i]?.any fun x => seen.count x ≤ (xs.take i).count x

theorem isSurplus_append_of_lt {seen xs : List α} {i : Nat} (hi : i < xs.length) (x : α) :
    isSurplus seen (xs ++ [x]) i = isSurplus seen xs i := by
  rw [isSurplus, isSurplus, List.getElem?_append_left hi, List.take_append_of_le_length hi.le]

theorem isSurplus_append_length (seen xs : List α) (x : α) :
    isSurplus seen (xs ++ [x]) xs.length = decide (seen.count x ≤ xs.count x) := by
  rw [isSurplus, List.getElem?_concat_length, List.take_left]
  rfl

theorem diff_eq_keepAt (xs seen : List α) : xs.diff seen = keepAt (isSurplus seen xs) xs := by
  induction xs using List.reverseRecOn with
  | nil => exact List.nil_diff seen
  | append_singleton xs x ih =>
    have hbefore : (xs.zipIdx.filter fun p => isSurplus seen (xs ++ [x]) p.2) =
        xs.zipIdx.filter fun p => isSurplus seen xs p.2 := by
      refine List.filter_congr ?_
      rintro ⟨y, i⟩ hy
      exact isSurplus_append_of_lt (List.snd_lt_of_mem_zipIdx hy) x
    have hmem : x ∈ seen.diff xs ↔ ¬seen.count x ≤ xs.count x := by
      rw [← List.count_pos_iff, List.count_diff]
      omega
    rw [diff_append_left, ih, keepAt, keepAt, List.zipIdx_append, List.filter_append,
      List.map_append, hbefore, Nat.zero_add, List.zipIdx_singleton, List.filter_singleton,
      isSurplus_append_length, List.cons_diff, List.nil_diff]
    by_cases hcount : seen.count x ≤ xs.count x
    · simp [hmem, hcount]
    · simp [hmem, hcount]

theorem lastKept_diff (xs seen : List α) : LastKept xs (xs.diff seen) := by
  refine ⟨isSurplus seen xs, diff_eq_keepAt xs seen, fun i j x hij hi hj hkeep => ?_⟩
  rw [isSurplus, hi, Option.any_some, decide_eq_true_iff] at hkeep
  rw [isSurplus, hj, Option.any_some, decide_eq_true_iff]
  exact hkeep.trans ((List.take_sublist_take_left hij.le).count_le x)

theorem diff_eq_self {xs seen : List α} (h : ∀ x ∈ xs, x ∉ seen) : xs.diff seen = xs := by
  induction xs with
  | nil => exact List.nil_diff seen
  | cons x xs ih =>
    obtain ⟨hx, hxs⟩ := List.forall_mem_cons.mp h
    rw [List.cons_diff_of_not_mem hx, ih hxs]

theorem diff_of_moves {first rest pushed : List α} (h : ∀ x ∈ pushed, x ∉ first) :
    (rest ++ pushed).diff (first ++ rest) = pushed := by
  have hrest : rest.diff (first ++ rest) = [] := by
    refine List.eq_nil_iff_forall_not_mem.mpr fun x hx => ?_
    rw [← List.count_pos_iff, List.count_diff, List.count_append] at hx
    omega
  have hpushed : ∀ x ∈ pushed, x ∉ (first ++ rest).diff rest := by
    intro x hx hmem
    rw [← List.count_pos_iff, List.count_diff, List.count_append, Nat.add_sub_cancel,
      List.count_pos_iff] at hmem
    exact h x hx hmem
  rw [diff_append_left, hrest, List.nil_append, diff_eq_self hpushed]

end MultisetDiff

namespace RequestQueue

theorem appended_eq_diff (prev new : RequestQueue) :
    appended (some prev) new = new.entries.diff prev.entries :=
  multisetDiff_eq_diff _ _

/-- The appended requests are those of the new reading that the one before does not account for,
the last occurrences of each. So they are the pushed ones whatever was taken from the front, unless
one of these is equal to one that was taken. -/
theorem appended_surplus (prev new : RequestQueue) :
    (appended (some prev) new).Sublist new.entries ∧
    (∀ e, (appended (some prev) new).count e = new.entries.count e - prev.entries.count e) ∧
    LastKept new.entries (appended (some prev) new) ∧
    (∀ pushed popped, (∀ e ∈ pushed, e ∉ prev.entries.take popped) →
      new.entries = prev.entries.drop popped ++ pushed → appended (some prev) new = pushed) ∧
    (∀ pushed, new.entries = prev.entries ++ pushed → appended (some prev) new = pushed) ∧
    ∀ popped, new.entries = prev.entries.drop popped → appended (some prev) new = [] := by
  rw [appended_eq_diff]
  have hmoves : ∀ pushed popped, (∀ e ∈ pushed, e ∉ prev.entries.take popped) →
      new.entries = prev.entries.drop popped ++ pushed →
        new.entries.diff prev.entries = pushed := by
    intro pushed popped h hnew
    -- what is left of the entries before is at the front of the new ones and accounts for itself
    have hdiff : (prev.entries.drop popped ++ pushed).diff
        (prev.entries.take popped ++ prev.entries.drop popped) = pushed := diff_of_moves h
    rwa [List.take_append_drop, ← hnew] at hdiff
  refine ⟨List.diff_sublist _ _, fun e => List.count_diff e _ _, lastKept_diff _ _, hmoves, ?_, ?_⟩
  · intro pushed hnew
    exact hmoves pushed 0 (by simp) hnew
  · intro popped hnew
    exact hmoves [] popped (by simp) (by rw [hnew, List.append_nil])

/-- A request like one that is live is pushed while another is taken. -/
theorem appended_surplus_of_repeat :
    let request (n : UInt64) : RequestEntry :=
      ⟨1, 0, 0, 0, n, 0, ⟨7, 6⟩, ⟨List.replicate 32 40, rfl⟩, 0⟩
    appended (some ⟨⟨9, 0, 2, 6⟩, 4, [request 1, request 2]⟩)
      ⟨⟨9, 1, 3, 8⟩, 4, [request 2, request 2, request 3]⟩ = [request 2, request 3] := by
  intro request
  have hkept : ∀ e ∈ [request 2, request 3], e ∉ [request 1] := by decide
  exact (appended_surplus ⟨⟨9, 0, 2, 6⟩, 4, [request 1, request 2]⟩ _).2.2.2.1 _ 1 hkept rfl

end RequestQueue

end DexIndex
