import DexIndex.Proofs.Exchange.Appended
import DexIndex.Proofs.Extraction.Harvest
import DexIndex.Proofs.Extraction.Resolution

/-!
# When the extraction fails

A block is refused just if the change of a queue that one of its instructions may write cannot be
read (`Unreadable`), and with the first such fault in the order of execution
(`Block.FirstFault`). Instructions that are passed over only add to the number of those
(`Block.fails_exactly`).
-/

namespace DexIndex

/-! ### Changes that cannot be read -/

/-- An image of a queue cannot be decoded: the one before the instruction, unless there was no
account yet, or else the one after it. -/
inductive Undecodable (α : Type) [QueueEntry α] (change : AccountChange) : LayoutError → Prop
  | before {cause : LayoutError} : change.before ≠ [] →
      (Queue.decode change.before : Except LayoutError (Queue α)) = .error cause →
      Undecodable α change cause
  | after {cause : LayoutError} :
      (change.before = [] ∨ ∃ q : Queue α, Queue.decode change.before = .ok q) →
      (Queue.decode change.after : Except LayoutError (Queue α)) = .error cause →
      Undecodable α change cause

/-- Why nothing can be told from the change of a queue: an image cannot be decoded, or the counter of
an event queue went back, or it went on by more events than are visible. -/
inductive Unreadable (change : AccountChange) : QueueRole → LayoutError → Prop
  | requests {cause : LayoutError} : Undecodable RequestEntry change cause →
      Unreadable change .requestQueue cause
  | events {cause : LayoutError} : Undecodable EventEntry change cause →
      Unreadable change .eventQueue cause
  | regressed {prev new : EventQueue} : Queue.decode change.before = .ok prev →
      Queue.decode change.after = .ok new → new.header.seq < prev.header.seq →
      Unreadable change .eventQueue (.seqNumRegressed prev.header.seq new.header.seq)
  | overrun {prev new : EventQueue} : Queue.decode change.before = .ok prev →
      Queue.decode change.after = .ok new → prev.header.seq ≤ new.header.seq →
      new.entries.length < (new.header.seq - prev.header.seq).toNat →
      Unreadable change .eventQueue
        (.overrun (new.header.seq - prev.header.seq) new.entries.length)

namespace Queue
variable {α : Type} [QueueEntry α] {data : Bytes}

theorem decodeOptional_eq_error_iff {cause : LayoutError} :
    (decodeOptional data : Except LayoutError (Option (Queue α))) = .error cause ↔
      data ≠ [] ∧ (decode data : Except LayoutError (Queue α)) = .error cause := by
  cases data with
  | nil => simp [decodeOptional]
  | cons b r => simp [decodeOptional, Results.map_eq_error]

theorem decodeOptional_eq_ok_some_iff {q : Queue α} :
    decodeOptional data = .ok (some q) ↔ decode data = .ok q := by
  cases data with
  | nil =>
    constructor
    · intro h
      cases h
    · intro h
      cases h
  | cons b r =>
    show (decode (b :: r)).map some = .ok (some q) ↔ _
    cases (decode (b :: r) : Except LayoutError (Queue α)) with
    | error e => simp [Except.map]
    | ok q' => simp [Except.map]

theorem decodeOptional_eq_ok_none_iff :
    (decodeOptional data : Except LayoutError (Option (Queue α))) = .ok none ↔ data = [] := by
  cases data with
  | nil => simp [decodeOptional]
  | cons b r =>
    show (decode (b :: r) : Except LayoutError (Queue α)).map some = .ok none ↔ _
    cases (decode (b :: r) : Except LayoutError (Queue α)) with
    | error e => simp [Except.map]
    | ok q' => simp [Except.map]

theorem exists_decodeOptional_iff :
    (∃ prev : Option (Queue α), decodeOptional data = .ok prev) ↔
      data = [] ∨ ∃ q : Queue α, decode data = .ok q := by
  rw [Option.exists, decodeOptional_eq_ok_none_iff]
  simp only [decodeOptional_eq_ok_some_iff]

end Queue

namespace AccountChange
variable {α : Type} [QueueEntry α] {change : AccountChange}

/-- The queue before, if there was an account, and the queue after. -/
def images (α : Type) [QueueEntry α] (change : AccountChange) :
    Except LayoutError (Option (Queue α) × Queue α) := do
  let prev ← Queue.decodeOptional change.before
  let new ← Queue.decode change.after
  return (prev, new)

theorem images_eq_ok_iff {prev : Option (Queue α)} {new : Queue α} :
    change.images α = .ok (prev, new) ↔
      Queue.decodeOptional change.before = .ok prev ∧ Queue.decode change.after = .ok new := by
  simp only [images, Results.bind_eq_ok]
  constructor
  · rintro ⟨_, hprev, _, hnew, h⟩
    cases h
    exact ⟨hprev, hnew⟩
  · rintro ⟨hprev, hnew⟩
    exact ⟨prev, hprev, new, hnew, rfl⟩

theorem images_eq_error_iff {cause : LayoutError} :
    change.images α = .error cause ↔ Undecodable α change cause := by
  rw [images, Results.bind_eq_error, Queue.decodeOptional_eq_error_iff]
  constructor
  · rintro (⟨hne, hbefore⟩ | ⟨prev, hprev, h⟩)
    · exact .before hne hbefore
    · rcases Results.bind_eq_error.mp h with hafter | ⟨_, _, h⟩
      · exact .after (Queue.exists_decodeOptional_iff.mp ⟨prev, hprev⟩) hafter
      · cases h
  · rintro (⟨hne, hbefore⟩ | ⟨hprev, hafter⟩)
    · exact .inl ⟨hne, hbefore⟩
    · obtain ⟨prev, hprev⟩ := Queue.exists_decodeOptional_iff.mpr hprev
      exact .inr ⟨prev, hprev, Results.bind_eq_error.mpr (.inl hafter)⟩

end AccountChange

theorem EventQueue.appended_eq_error_iff {prev : Option EventQueue} {new : EventQueue}
    {cause : LayoutError} :
    appended prev new = .error cause ↔ ∃ q, prev = some q ∧
      (new.header.seq < q.header.seq ∧ cause = .seqNumRegressed q.header.seq new.header.seq ∨
        q.header.seq ≤ new.header.seq ∧ new.entries.length < (new.header.seq - q.header.seq).toNat ∧
          cause = .overrun (new.header.seq - q.header.seq) new.entries.length) := by
  cases prev with
  | none => simp [appended]
  | some q =>
    simp only [appended, Option.some.injEq, exists_eq_left']
    split
    · next hlt =>
      have hle : ¬q.header.seq ≤ new.header.seq := UInt64.not_le.mpr hlt
      simp [hlt, hle, eq_comm]
    · next hlt =>
      have hle : q.header.seq ≤ new.header.seq := UInt64.not_lt.mp hlt
      split
      · next hlength => simp [hlt, Nat.not_lt.mpr hlength]
      · next hlength =>
        have hlength := Nat.lt_of_not_le hlength
        rw [Except.error.injEq, eq_comm]
        constructor
        · rintro rfl
          exact .inr ⟨hle, hlength, rfl⟩
        · rintro (⟨hlt', _⟩ | ⟨_, _, hcause⟩)
          · exact absurd hlt' hlt
          · exact hcause

theorem EventQueue.appendedBetween_eq (change : AccountChange) :
    appendedBetween change.before change.after =
      change.images EventEntry >>= fun p => appended p.1 p.2 := by
  rw [appendedBetween, AccountChange.images]
  cases Queue.decodeOptional (α := EventEntry) change.before with
  | error e => rfl
  | ok prev =>
    show Queue.decode change.after >>= appended prev = _
    cases Queue.decode (α := EventEntry) change.after with
    | error e => rfl
    | ok new => rfl

theorem unreadable_requestQueue_iff {change : AccountChange} {cause : LayoutError} :
    Unreadable change .requestQueue cause ↔ change.images RequestEntry = .error cause := by
  rw [AccountChange.images_eq_error_iff]
  refine ⟨fun h => ?_, .requests⟩
  cases h with
  | requests h => exact h

theorem unreadable_eventQueue_iff {change : AccountChange} {cause : LayoutError} :
    Unreadable change .eventQueue cause ↔
      EventQueue.appendedBetween change.before change.after = .error cause := by
  rw [EventQueue.appendedBetween_eq, Results.bind_eq_error, AccountChange.images_eq_error_iff]
  constructor
  · intro h
    cases h with
    | events h => exact .inl h
    | @regressed prev new hbefore hafter hlt =>
      refine .inr ⟨(some prev, new), ?_, ?_⟩
      · exact AccountChange.images_eq_ok_iff.mpr
          ⟨Queue.decodeOptional_eq_ok_some_iff.mpr hbefore, hafter⟩
      · exact EventQueue.appended_eq_error_iff.mpr ⟨prev, rfl, .inl ⟨hlt, rfl⟩⟩
    | @overrun prev new hbefore hafter hle hlength =>
      refine .inr ⟨(some prev, new), ?_, ?_⟩
      · exact AccountChange.images_eq_ok_iff.mpr
          ⟨Queue.decodeOptional_eq_ok_some_iff.mpr hbefore, hafter⟩
      · exact EventQueue.appended_eq_error_iff.mpr ⟨prev, rfl, .inr ⟨hle, hlength, rfl⟩⟩
  · rintro (h | ⟨⟨_, new⟩, himages, h⟩)
    · exact .events h
    · obtain ⟨prev, rfl, hcause⟩ := EventQueue.appended_eq_error_iff.mp h
      obtain ⟨hbefore, hafter⟩ := AccountChange.images_eq_ok_iff.mp himages
      have hbefore := Queue.decodeOptional_eq_ok_some_iff.mp hbefore
      rcases hcause with ⟨hlt, rfl⟩ | ⟨hle, hlength, rfl⟩
      · exact .regressed hbefore hafter hlt
      · exact .overrun hbefore hafter hle hlength

/-! ### Instructions -/

namespace Extraction

/-- The fault of an instruction: that of its request queue, or else that of its event queue. -/
inductive Faulty (site : Site) (inv : Invocation) : ExtractError → Prop
  | requests {i : Instruction} {change : AccountChange} {cause : LayoutError} :
      Supported site.trx inv i → Writes site.trx inv i .requestQueue change →
      Unreadable change .requestQueue cause →
      Faulty site inv ⟨site.place, .requestQueue, change.key, cause⟩
  | events {i : Instruction} {change : AccountChange} {cause : LayoutError} :
      Supported site.trx inv i → Writes site.trx inv i .eventQueue change →
      Unreadable change .eventQueue cause →
      (∀ change' cause', Writes site.trx inv i .requestQueue change' →
        ¬Unreadable change' .requestQueue cause') →
      Faulty site inv ⟨site.place, .eventQueue, change.key, cause⟩

/-- Whether an instruction is passed over: its data is not supported, or an account of its layout is
not among the keys. -/
def isSkipped (trx : Transaction) (inv : Invocation) : Bool :=
  match Instruction.decode inv.data with
  | .error _ => true
  | .ok i => i.accounts.positions.any fun position =>
      !(inv.accounts[position]?).any fun k => k.toNat < trx.keys.length

theorem any_lt_iff {trx : Transaction} {inv : Invocation} {position : Nat} :
    ((inv.accounts[position]?).any fun k => k.toNat < trx.keys.length) = true ↔
      HasAccount trx inv position := by
  simp [HasAccount, Option.any_eq_true]

theorem isSkipped_iff {trx : Transaction} {inv : Invocation} :
    isSkipped trx inv = true ↔ ∀ i, ¬Supported trx inv i := by
  unfold isSkipped
  split
  · next e he =>
    refine ⟨fun _ i h => ?_, fun _ => rfl⟩
    rw [h.decoded] at he
    cases he
  · next i hi =>
    simp only [List.any_eq_true, Bool.not_eq_true', Bool.eq_false_iff, ne_eq, any_lt_iff]
    constructor
    · rintro ⟨position, hposition, hnone⟩ i' h
      obtain rfl := Except.ok.inj (hi.symm.trans h.decoded)
      exact hnone (h.accounts position hposition)
    · intro h
      by_contra hall
      exact h i ⟨hi, fun position hposition => by_contra fun hnone =>
        hall ⟨position, hposition, hnone⟩⟩

variable {site : Site} {inv : Invocation} {accounts : Accounts} {i : Instruction}

theorem readQueue_eq_error_iff {α : Type} {role : QueueRole} {key : PublicKey}
    {r : Except LayoutError α} {e : ExtractError} :
    readQueue site role key r = .error e ↔
      ∃ cause, r = .error cause ∧ e = ⟨site.place, role, key, cause⟩ := by
  cases r with
  | error cause => simp [readQueue, Except.mapError, eq_comm]
  | ok x => simp [readQueue, Except.mapError]

def requestsBetween (site : Site) (accounts : Accounts) (i : Instruction)
    (prev : Option RequestQueue) (new : RequestQueue) : List Event :=
  (match i with
    | .newOrderV3 p => counterOrder site accounts p prev new
    | _ => []) ++ (RequestQueue.appended prev new).filterMap (requestEvent? site accounts)

theorem requestEvents_eq (change : AccountChange) :
    requestEvents site accounts i change =
      (readQueue site .requestQueue change.key (change.images RequestEntry)).map
        fun p => requestsBetween site accounts i p.1 p.2 := by
  rw [requestEvents, AccountChange.images]
  cases Queue.decodeOptional (α := RequestEntry) change.before with
  | error e => rfl
  | ok prev =>
    show (do
      let new ← readQueue site .requestQueue change.key (Queue.decode change.after)
      pure (requestsBetween site accounts i prev new)) =
        Except.map _ (readQueue site .requestQueue change.key
          (Queue.decode change.after >>= fun new => pure (prev, new)))
    cases Queue.decode (α := RequestEntry) change.after with
    | error e => rfl
    | ok new => rfl

theorem fromRequests_eq_error_iff (ha : Accounts.resolve? site.trx inv i.accounts = some accounts)
    {e : ExtractError} :
    fromRequests site inv accounts i = .error e ↔
      ∃ change cause, Writes site.trx inv i .requestQueue change ∧
        Unreadable change .requestQueue cause ∧
        e = ⟨site.place, .requestQueue, change.key, cause⟩ := by
  simp only [← queueChange?_eq_some_iff ha, Accounts.queue?, unreadable_requestQueue_iff]
  rw [fromRequests]
  cases queueChange? inv accounts.requestQueue with
  | none => simp
  | some change => simp [requestEvents_eq, Results.map_eq_error, readQueue_eq_error_iff]

theorem fromEvents_eq_error_iff (ha : Accounts.resolve? site.trx inv i.accounts = some accounts)
    {e : ExtractError} :
    fromEvents site inv accounts i = .error e ↔
      ∃ change cause, Writes site.trx inv i .eventQueue change ∧
        Unreadable change .eventQueue cause ∧
        e = ⟨site.place, .eventQueue, change.key, cause⟩ := by
  simp only [← queueChange?_eq_some_iff ha, Accounts.queue?, unreadable_eventQueue_iff]
  rw [fromEvents]
  cases queueChange? inv accounts.eventQueue with
  | none => simp
  | some change =>
    simp [EventQueue.queueEvents_eq, Results.map_eq_error, readQueue_eq_error_iff]

theorem exists_faulty_iff :
    (∃ e, Faulty site inv e) ↔ ∃ i role change cause, Supported site.trx inv i ∧
      Writes site.trx inv i role change ∧ Unreadable change role cause := by
  constructor
  · rintro ⟨e, h⟩
    cases h with
    | requests hi hwrites hcause => exact ⟨_, _, _, _, hi, hwrites, hcause⟩
    | events hi hwrites hcause _ => exact ⟨_, _, _, _, hi, hwrites, hcause⟩
  · rintro ⟨i, role, change, cause, hi, hwrites, hcause⟩
    by_cases hrequests : ∃ change' cause', Writes site.trx inv i .requestQueue change' ∧
        Unreadable change' .requestQueue cause'
    · obtain ⟨change', cause', hwrites', hcause'⟩ := hrequests
      exact ⟨_, .requests hi hwrites' hcause'⟩
    · cases role with
      | requestQueue => exact absurd ⟨change, cause, hwrites, hcause⟩ hrequests
      | eventQueue =>
        exact ⟨_, .events hi hwrites hcause fun change' cause' hwrites' hcause' =>
          hrequests ⟨change', cause', hwrites', hcause'⟩⟩

theorem harvest_of_not_supported (h : ∀ i, ¬Supported site.trx inv i) :
    harvest site inv = .ok .skip := by
  cases hi : Instruction.decode inv.data with
  | error e => simp only [harvest, hi]
  | ok i =>
    cases ha : Accounts.resolve? site.trx inv i.accounts with
    | none => simp only [harvest, hi, ha]
    | some accounts => exact absurd (supported_iff.mpr ⟨hi, accounts, ha⟩) (h i)

theorem harvest_eq_error_iff {e : ExtractError} :
    harvest site inv = .error e ↔ Faulty site inv e := by
  by_cases hsupported : ∃ i, Supported site.trx inv i
  · obtain ⟨i, hi⟩ := hsupported
    obtain ⟨hdecode, accounts, ha⟩ := supported_iff.mp hi
    have hrequests := fun e' => fromRequests_eq_error_iff (e := e') ha
    rw [harvest_eq hdecode ha, Results.bind_eq_error, hrequests]
    constructor
    · rintro (⟨change, cause, hwrites, hcause, rfl⟩ | ⟨requests, hok, h⟩)
      · exact .requests hi hwrites hcause
      · rcases Results.bind_eq_error.mp h with h | ⟨_, _, h⟩
        · obtain ⟨change, cause, hwrites, hcause, rfl⟩ := (fromEvents_eq_error_iff ha).mp h
          refine .events hi hwrites hcause fun change' cause' hwrites' hcause' => ?_
          have herror := (hrequests _).mpr ⟨change', cause', hwrites', hcause', rfl⟩
          cases hok.symm.trans herror
        · cases h
    · intro h
      cases h with
      | @requests i' change cause hi' hwrites hcause =>
        obtain rfl := hi.unique hi'
        exact .inl ⟨change, cause, hwrites, hcause, rfl⟩
      | @events i' change cause hi' hwrites hcause hfine =>
        obtain rfl := hi.unique hi'
        cases hok : fromRequests site inv accounts i with
        | error e' =>
          obtain ⟨change', cause', hwrites', hcause', _⟩ := (hrequests e').mp hok
          exact absurd hcause' (hfine change' cause' hwrites')
        | ok requests =>
          have hevents := (fromEvents_eq_error_iff ha).mpr ⟨change, cause, hwrites, hcause, rfl⟩
          exact .inr ⟨requests, rfl, Results.bind_eq_error.mpr (.inl hevents)⟩
  · rw [harvest_of_not_supported fun i hi => hsupported ⟨i, hi⟩]
    constructor
    · intro h
      cases h
    · intro h
      cases h with
      | requests hi => exact absurd ⟨_, hi⟩ hsupported
      | events hi => exact absurd ⟨_, hi⟩ hsupported

theorem skipped_of_harvest {h : Harvest} (hh : harvest site inv = .ok h) :
    h.skipped = isSkipped site.trx inv := by
  by_cases hsupported : ∃ i, Supported site.trx inv i
  · obtain ⟨i, hi⟩ := hsupported
    have hskipped : isSkipped site.trx inv = false :=
      Bool.eq_false_iff.mpr fun hskip => isSkipped_iff.mp hskip i hi
    obtain ⟨hdecode, accounts, ha⟩ := supported_iff.mp hi
    rw [harvest_eq hdecode ha] at hh
    obtain ⟨_, _, hh⟩ := Results.bind_eq_ok.mp hh
    obtain ⟨_, _, hh⟩ := Results.bind_eq_ok.mp hh
    cases hh
    exact hskipped.symm
  · have hnone : ∀ i, ¬Supported site.trx inv i := fun i hi => hsupported ⟨i, hi⟩
    cases (harvest_of_not_supported hnone).symm.trans hh
    exact (isSkipped_iff.mpr hnone).symm

theorem eq_skip_of_skipped {h : Harvest} (hh : harvest site inv = .ok h)
    (hskipped : h.skipped = true) : h = .skip := by
  rw [skipped_of_harvest hh, isSkipped_iff] at hskipped
  exact Except.ok.inj (hh.symm.trans (harvest_of_not_supported hskipped))

end Extraction

/-! ### Blocks -/

open Extraction

namespace Block
variable {programs : List PublicKey} {b : Block}

def site (b : Block) (trx : Transaction) (j : Nat) : Site :=
  ⟨b.number, b.id, b.timestamp, trx, UInt64.ofNat j⟩

/-- The instruction at position `j` of the transaction at position `k`, which did not fail, is one of a
configured program. -/
structure Executed (programs : List PublicKey) (b : Block) (k j : Nat) (trx : Transaction)
    (inv : Invocation) : Prop where
  transaction : b.transactions[k]? = some trx
  succeeded : trx.failed = false
  instruction : trx.invocations[j]? = some inv
  configured : isConfigured programs trx inv = true

def FaultAt (programs : List PublicKey) (b : Block) (k j : Nat) (e : ExtractError) : Prop :=
  ∃ trx inv, Executed programs b k j trx inv ∧ Faulty (b.site trx j) inv e

/-- The first fault in the order of execution. -/
def FirstFault (programs : List PublicKey) (b : Block) (e : ExtractError) : Prop :=
  ∃ k j, FaultAt programs b k j e ∧
    ∀ k' j' e', k' < k ∨ k' = k ∧ j' < j → ¬FaultAt programs b k' j' e'

def countSkipped (programs : List PublicKey) (b : Block) : Nat :=
  ((b.transactions.filter (!·.failed)).map fun trx =>
    trx.invocations.countP fun inv => isConfigured programs trx inv && isSkipped trx inv).sum

/-- The executed instructions with their positions. -/
def numbered (programs : List PublicKey) (b : Block) : List ((Nat × Nat) × Site × Invocation) :=
  (b.transactions.zipIdx.filter fun p => !p.1.failed).flatMap fun p =>
    (p.1.invocations.zipIdx.filter fun q => isConfigured programs p.1 q.1).map fun q =>
      ((p.2, q.2), b.site p.1 q.2, q.1)

theorem map_numbered : (numbered programs b).map (·.2) = executed programs b := by
  have hfilter : b.transactions.filter (!·.failed) =
      (b.transactions.zipIdx.filter fun p => !p.1.failed).map (·.1) := by
    conv_lhs => rw [← List.zipIdx_map_fst 0 b.transactions]
    rw [List.filter_map]
    rfl
  rw [numbered, executed, hfilter, List.map_flatMap, List.flatMap_map]
  simp only [List.map_map]
  rfl

theorem mem_numbered {k j : Nat} {s : Site} {inv : Invocation} :
    ((k, j), s, inv) ∈ numbered programs b ↔
      ∃ trx, Executed programs b k j trx inv ∧ s = b.site trx j := by
  constructor
  · intro h
    obtain ⟨⟨trx, k'⟩, htrx, h⟩ := List.mem_flatMap.mp h
    obtain ⟨htrx, hfailed⟩ := List.mem_filter.mp htrx
    obtain ⟨⟨inv', j'⟩, hinv, h⟩ := List.mem_map.mp h
    obtain ⟨hinv, hconfigured⟩ := List.mem_filter.mp hinv
    cases h
    exact ⟨trx, ⟨List.mem_zipIdx_iff_getElem?.mp htrx, by simpa using hfailed,
      List.mem_zipIdx_iff_getElem?.mp hinv, hconfigured⟩, rfl⟩
  · rintro ⟨trx, h, rfl⟩
    refine List.mem_flatMap.mpr ⟨(trx, k), List.mem_filter.mpr ⟨?_, by simp [h.succeeded]⟩, ?_⟩
    · exact List.mem_zipIdx_iff_getElem?.mpr h.transaction
    · refine List.mem_map.mpr ⟨(inv, j), List.mem_filter.mpr ⟨?_, h.configured⟩, rfl⟩
      exact List.mem_zipIdx_iff_getElem?.mpr h.instruction

theorem pairwise_snd_zipIdx {α : Type} (xs : List α) :
    xs.zipIdx.Pairwise fun p q => p.2 < q.2 := by
  refine List.pairwise_map.mp ?_
  rw [List.zipIdx_map_snd]
  exact List.pairwise_lt_range'

/-- The executed instructions stand in the order of their positions. -/
theorem pairwise_numbered : (numbered programs b).Pairwise fun p q =>
    p.1.1 < q.1.1 ∨ p.1.1 = q.1.1 ∧ p.1.2 < q.1.2 := by
  refine List.pairwise_flatMap.mpr ⟨fun p _ => ?_, ?_⟩
  · refine List.pairwise_map.mpr (((pairwise_snd_zipIdx _).filter _).imp fun h => .inr ⟨rfl, h⟩)
  · refine ((pairwise_snd_zipIdx _).filter _).imp fun {p q} h x hx y hy => .inl ?_
    obtain ⟨_, _, rfl⟩ := List.mem_map.mp hx
    obtain ⟨_, _, rfl⟩ := List.mem_map.mp hy
    exact h

theorem extract_eq_error_iff_mapM {e : ExtractError} :
    b.extract programs = .error e ↔
      ((executed programs b).mapM fun p => harvest p.1 p.2) = .error e := by
  rw [extract, Results.bind_eq_error]
  constructor
  · rintro (h | ⟨_, _, h⟩)
    · exact h
    · cases h
  · exact .inl

theorem firstFault_of_extract {e : ExtractError} (h : b.extract programs = .error e) :
    FirstFault programs b e := by
  obtain ⟨before, ⟨site, inv⟩, after, hsplit, hbefore, hx⟩ :=
    Results.mapM_eq_error.mp (extract_eq_error_iff_mapM.mp h)
  rw [← map_numbered, List.map_eq_append_iff] at hsplit
  obtain ⟨nbefore, nrest, hnumbered, rfl, hrest⟩ := hsplit
  obtain ⟨⟨⟨k, j⟩, _⟩, nafter, rfl, rfl, _⟩ := List.map_eq_cons_iff.mp hrest
  have hmem : ((k, j), site, inv) ∈ numbered programs b := by
    rw [hnumbered]
    exact List.mem_append_right _ List.mem_cons_self
  obtain ⟨trx, hexecuted, rfl⟩ := mem_numbered.mp hmem
  refine ⟨k, j, ⟨trx, inv, hexecuted, harvest_eq_error_iff.mp hx⟩, fun k' j' e' hlt hfault => ?_⟩
  -- a fault at an earlier position would stand in front, where all instructions give a result
  obtain ⟨trx', inv', hexecuted', hfault⟩ := hfault
  have hmem' := mem_numbered.mpr ⟨trx', hexecuted', rfl⟩
  have hpairwise : (numbered programs b).Pairwise _ := pairwise_numbered
  rw [hnumbered] at hmem' hpairwise
  rcases List.mem_append.mp hmem' with hin | hin
  · obtain ⟨h, hok⟩ := hbefore _ (List.mem_map_of_mem hin)
    cases hok.symm.trans (harvest_eq_error_iff.mpr hfault)
  · rcases List.mem_cons.mp hin with heq | hin
    · cases heq
      omega
    · have hafter := (List.pairwise_cons.mp (List.pairwise_append.mp hpairwise).2.1).1 _ hin
      dsimp only at hafter
      omega

theorem FaultAt.unique {k j : Nat} {e e' : ExtractError} (h : FaultAt programs b k j e)
    (h' : FaultAt programs b k j e') : e = e' := by
  obtain ⟨trx, inv, hexecuted, hfault⟩ := h
  obtain ⟨trx', inv', hexecuted', hfault'⟩ := h'
  cases hexecuted.transaction.symm.trans hexecuted'.transaction
  cases hexecuted.instruction.symm.trans hexecuted'.instruction
  have herror := (harvest_eq_error_iff.mpr hfault).symm.trans (harvest_eq_error_iff.mpr hfault')
  exact Except.error.inj herror

theorem FirstFault.unique {e e' : ExtractError} (h : FirstFault programs b e)
    (h' : FirstFault programs b e') : e = e' := by
  obtain ⟨k, j, hfault, hfirst⟩ := h
  obtain ⟨k', j', hfault', hfirst'⟩ := h'
  have hle : ¬(k' < k ∨ k' = k ∧ j' < j) := fun hlt => hfirst k' j' e' hlt hfault'
  have hge : ¬(k < k' ∨ k = k' ∧ j < j') := fun hlt => hfirst' k j e hlt hfault
  obtain rfl : k = k' := by omega
  obtain rfl : j = j' := by omega
  exact hfault.unique hfault'

theorem exists_error_of_faultAt {k j : Nat} {e : ExtractError} (h : FaultAt programs b k j e) :
    ∃ e', b.extract programs = .error e' := by
  obtain ⟨trx, inv, hexecuted, hfault⟩ := h
  cases hx : b.extract programs with
  | error e' => exact ⟨e', rfl⟩
  | ok x =>
    have hmem : (b.site trx j, inv) ∈ executed programs b := by
      rw [← map_numbered]
      exact List.mem_map_of_mem (mem_numbered.mpr ⟨trx, hexecuted, rfl⟩)
    obtain ⟨_, hok⟩ := exists_harvest_of_extract hx hmem
    cases hok.symm.trans (harvest_eq_error_iff.mpr hfault)

theorem extract_eq_error_iff {e : ExtractError} :
    b.extract programs = .error e ↔ FirstFault programs b e := by
  refine ⟨firstFault_of_extract, fun h => ?_⟩
  have ⟨k, j, hfault, _⟩ := h
  obtain ⟨e', he'⟩ := exists_error_of_faultAt hfault
  rw [he', h.unique (firstFault_of_extract he')]

theorem exists_error_iff :
    (∃ e, b.extract programs = .error e) ↔
      ∃ k j trx inv i role change cause, Executed programs b k j trx inv ∧ Supported trx inv i ∧
        Writes trx inv i role change ∧ Unreadable change role cause := by
  constructor
  · rintro ⟨e, h⟩
    obtain ⟨k, j, ⟨trx, inv, hexecuted, hfault⟩, _⟩ := firstFault_of_extract h
    obtain ⟨i, role, change, cause, hcause⟩ := exists_faulty_iff.mp ⟨e, hfault⟩
    exact ⟨k, j, trx, inv, i, role, change, cause, hexecuted, hcause⟩
  · rintro ⟨k, j, trx, inv, i, role, change, cause, hexecuted, hcause⟩
    obtain ⟨e, hfault⟩ : ∃ e, Faulty (b.site trx j) inv e :=
      exists_faulty_iff.mpr ⟨i, role, change, cause, hcause⟩
    exact exists_error_of_faultAt ⟨trx, inv, hexecuted, hfault⟩

theorem countP_executed :
    ((executed programs b).countP fun p => isSkipped p.1.trx p.2) = countSkipped programs b := by
  rw [executed, List.countP_flatMap, countSkipped]
  congr 1
  refine List.map_congr_left fun trx _ => ?_
  have hinvocations : trx.invocations = trx.invocations.zipIdx.map (·.1) :=
    (List.zipIdx_map_fst 0 _).symm
  conv_rhs => rw [hinvocations]
  simp only [Function.comp_apply, List.countP_map, List.countP_filter, Bool.and_comm]
  rfl

/-- The results of the instructions that are not passed over, and the number of the others. -/
theorem filter_harvests {ps : List (Site × Invocation)} {hs : List Harvest}
    (h : (ps.map fun p => harvest p.1 p.2) = hs.map .ok) :
    ((ps.filter fun p => !isSkipped p.1.trx p.2).map fun p => harvest p.1 p.2) =
        (hs.filter (!·.skipped)).map .ok ∧
      hs.countP (·.skipped) = ps.countP fun p => isSkipped p.1.trx p.2 := by
  induction ps generalizing hs with
  | nil =>
    obtain rfl := List.map_eq_nil_iff.mp h.symm
    exact ⟨rfl, rfl⟩
  | cons p ps ih =>
    rw [List.map_cons, eq_comm, List.map_eq_cons_iff] at h
    obtain ⟨x, hs, rfl, hx, hps⟩ := h
    obtain ⟨hfilter, hcount⟩ := ih hps.symm
    rw [List.countP_cons, List.countP_cons, hcount, skipped_of_harvest hx.symm, List.filter_cons,
      List.filter_cons, skipped_of_harvest hx.symm]
    refine ⟨?_, rfl⟩
    split
    · rw [List.map_cons, List.map_cons, hx, hfilter]
    · exact hfilter

theorem flatMap_filter_skipped {β : Type} {f : Harvest → List β} {hs : List Harvest}
    (h : ∀ x ∈ hs, x.skipped = true → f x = []) :
    (hs.filter (!·.skipped)).flatMap f = hs.flatMap f := by
  induction hs with
  | nil => rfl
  | cons x hs ih =>
    obtain ⟨hx, hhs⟩ := List.forall_mem_cons.mp h
    rw [List.filter_cons, List.flatMap_cons]
    split
    · rw [List.flatMap_cons, ih hhs]
    · next hskipped => rw [hx (by simpa using hskipped), ih hhs, List.nil_append]

/-- A block is refused just if a change that one of its executed instructions makes to a queue cannot
be read, and then for the first such fault. Otherwise the instructions that are passed over are
counted, and the events and owners are those of the others. -/
structure FailsExactly (programs : List PublicKey) (b : Block) : Prop where
  fails : (∃ e, b.extract programs = .error e) ↔
    ∃ k j trx inv i role change cause, Executed programs b k j trx inv ∧ Supported trx inv i ∧
      Writes trx inv i role change ∧ Unreadable change role cause
  names : ∀ e, b.extract programs = .error e ↔ FirstFault programs b e
  skipped : ∀ x, b.extract programs = .ok x → x.skipped = countSkipped programs b
  others : ∀ x, b.extract programs = .ok x → ∃ harvests : List Harvest,
    (((executed programs b).filter fun p => !isSkipped p.1.trx p.2).map fun p => harvest p.1 p.2) =
        harvests.map .ok ∧
      x.events = harvests.flatMap (·.events) ∧ x.ownerships = harvests.flatMap (·.ownerships)

theorem fails_exactly (programs : List PublicKey) (b : Block) : FailsExactly programs b := by
  refine ⟨exists_error_iff, fun e => extract_eq_error_iff, fun x hx => ?_, fun x hx => ?_⟩
  · obtain ⟨harvests, hall, rfl⟩ := extract_ok hx
    rw [← countP_executed]
    exact (filter_harvests hall).2
  · obtain ⟨harvests, hall, rfl⟩ := extract_ok hx
    have hskip : ∀ h ∈ harvests, h.skipped = true → h = .skip := by
      intro h hh hskipped
      have hmem := List.mem_map_of_mem (f := (.ok : Harvest → Except ExtractError Harvest)) hh
      rw [← hall] at hmem
      obtain ⟨p, _, hp⟩ := List.mem_map.mp hmem
      exact eq_skip_of_skipped hp hskipped
    refine ⟨_, (filter_harvests hall).1, ?_, ?_⟩
    · exact (flatMap_filter_skipped fun h hh hskipped => by rw [hskip h hh hskipped]; rfl).symm
    · exact (flatMap_filter_skipped fun h hh hskipped => by rw [hskip h hh hskipped]; rfl).symm

end Block

namespace Matching

def key (n : UInt8) : PublicKey := ⟨n :: List.replicate 31 0, rfl⟩

/-- Behind an instruction without data, orders are matched, with this image of the event queue. -/
def block (image : Bytes) : Block :=
  { number := 10, id := "", previousId := "", timestamp := .epoch
    transactions := [
      { id := "", index := 4, failed := false, header := ⟨0, 0, 0⟩
        keys := [key 0, key 1, key 2, key 3]
        invocations := [
          { program := 0, accounts := [], data := [], changes := [] },
          { program := 0, accounts := [1, 2, 3], data := (Instruction.matchOrders 5).encode
            changes := [⟨key 3, [], image⟩] }] }] }

def empty : EventQueue := ⟨⟨0x11, 0, 0, 2⟩, 0, []⟩

end Matching

open Matching in
/-- With an empty queue only the first instruction is passed over; with three bytes in its place the
second one is named. -/
theorem Block.fails_exactly_of_corrupt :
    (∃ x, (block empty.encode).extract [key 0] = .ok x ∧ x.skipped = 1) ∧
      (block [1, 2, 3]).extract [key 0] =
        .error ⟨⟨10, 4, 1⟩, .eventQueue, key 3, .tooShort 44 3⟩ ∧
      FirstFault [key 0] (block [1, 2, 3]) ⟨⟨10, 4, 1⟩, .eventQueue, key 3, .tooShort 44 3⟩ := by
  have hok : (block empty.encode).extract [key 0] = .ok ⟨10, "", .epoch, [], [], 1⟩ := by
    decide +kernel
  have herror : (block [1, 2, 3]).extract [key 0] =
      .error ⟨⟨10, 4, 1⟩, .eventQueue, key 3, .tooShort 44 3⟩ := by
    decide +kernel
  refine ⟨⟨_, hok, ?_⟩, herror, ((fails_exactly _ _).names _).mp herror⟩
  rw [(fails_exactly _ _).skipped _ hok]
  decide +kernel

end DexIndex
