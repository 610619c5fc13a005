import DexIndex.Proofs.Key.Codec
import DexIndex.Proofs.Table.Prefix
import DexIndex.Writer
import Mathlib.Data.List.Induction

/-!
# The rows of blocks

Which rows a list of blocks stands for, said without a writer: the owner of an account is the first
one that any block names (`Ownership.first?`), an event has its rows unless it is a fill of an
account without owner, and `tableOf` holds the rows of all blocks and the checkpoint of the last.
Adding blocks to a table is inserting what a writer holds back for them (`tableOf_append`).
-/

namespace DexIndex

/-! ### Owners -/

namespace Ownership

/-- The owner of an account: the first that is named. -/
def first? (os : List Ownership) (account : PublicKey) : Option PublicKey :=
  (os.find? (·.account == account)).map (·.trader)

def row (o : Ownership) : Row := (encodeKey o.account, encodeTrader o.trader)

/-- The rows of the ownerships in `os` that are the first of their account; `known` came before. -/
def newRows (known : List Ownership) : List Ownership → List Row
  | [] => []
  | o :: rest =>
    (if (first? known o.account).isSome then [] else [o.row]) ++ newRows (known ++ [o]) rest

@[simp] theorem first?_nil (account : PublicKey) : first? [] account = none := rfl

theorem first?_cons (o : Ownership) (os : List Ownership) (account : PublicKey) :
    first? (o :: os) account = if account = o.account then some o.trader else first? os account := by
  unfold first?
  by_cases h : account = o.account
  · simp [h]
  · rw [List.find?_cons_of_neg (by simpa using fun h' => h (Eq.symm h')), if_neg h]

theorem first?_append (a b : List Ownership) (account : PublicKey) :
    first? (a ++ b) account = (first? a account).or (first? b account) := by
  unfold first?
  rw [List.find?_append]
  cases a.find? (·.account == account) <;> rfl

theorem mem_of_first? {os : List Ownership} {account trader : PublicKey}
    (h : first? os account = some trader) : ⟨account, trader⟩ ∈ os := by
  obtain ⟨o, ho, rfl⟩ := Option.map_eq_some_iff.mp h
  have ha : o.account = account := by simpa using List.find?_some ho
  exact ha ▸ List.mem_of_find?_eq_some ho

theorem not_mem_of_first?_eq_none {os : List Ownership} {account : PublicKey}
    (h : first? os account = none) (trader : PublicKey) : ⟨account, trader⟩ ∉ os := by
  intro hmem
  have hfind := List.find?_eq_none.mp (Option.map_eq_none_iff.mp h) _ hmem
  exact hfind (beq_self_eq_true account)

theorem row_injective : Function.Injective row := by
  intro a b h
  obtain ⟨hkey, hvalue⟩ := Prod.mk.inj h
  have haccount := encodeKey_injective hkey
  have htrader := PublicKey.ext_bytes hvalue
  cases a; cases b; cases haccount; cases htrader; rfl

theorem exists_mem_of_mem_newRows {known os : List Ownership} {r : Row} (h : r ∈ newRows known os) :
    ∃ o ∈ os, r = o.row := by
  induction os generalizing known with
  | nil => simp [newRows] at h
  | cons o rest ih =>
    rcases List.mem_append.mp h with h | h
    · split at h
      · simp at h
      · exact ⟨o, List.mem_cons_self, List.mem_singleton.mp h⟩
    · obtain ⟨o', ho', hr⟩ := ih h
      exact ⟨o', List.mem_cons_of_mem o ho', hr⟩

theorem eq_row_of_mem_newRows {known os : List Ownership} {r : Row} (h : r ∈ newRows known os) :
    ∃ o : Ownership, r = o.row := by
  obtain ⟨o, _, hr⟩ := exists_mem_of_mem_newRows h
  exact ⟨o, hr⟩

/-- Rows that are put into a table keep what it says of owners up to date. -/
theorem get?_insertAll_newRows {t : Table} {known : List Ownership}
    (h : ∀ a, t.get? (encodeKey a) = (first? known a).map encodeTrader) (os : List Ownership)
    (account : PublicKey) :
    (t.insertAll (newRows known os)).get? (encodeKey account) =
      (first? (known ++ os) account).map encodeTrader := by
  induction os generalizing t known with
  | nil => simpa [newRows] using h account
  | cons o rest ih =>
    rw [newRows, Table.insertAll_append, List.append_cons known o rest]
    refine ih fun a => ?_
    rw [first?_append, first?_cons, first?_nil]
    split
    · next hknown =>
      rw [Table.insertAll_nil, h a]
      by_cases ha : a = o.account
      · obtain ⟨trader, ht⟩ := Option.isSome_iff_exists.mp hknown
        rw [ha, ht, Option.some_or]
      · rw [if_neg ha, Option.or_none]
    · next hknown =>
      rw [Table.insertAll_cons, Table.insertAll_nil, Table.get?_insert]
      by_cases ha : a = o.account
      · rw [ha, Option.not_isSome_iff_eq_none.mp hknown]
        simp [row]
      · have hkey : encodeKey a ≠ o.row.1 := fun he => ha (encodeKey_injective he)
        rw [if_neg hkey, if_neg ha, h a, Option.or_none]

theorem encodeKey_ne_checkpoint (account : PublicKey) : encodeKey account ≠ Checkpoint.key :=
  fun h => absurd (List.cons.inj h).1 (by decide)

end Ownership

theorem Table.get?_insert_checkpointRow (t : Table) (c : Checkpoint) (key : Bytes) :
    (t.insert (Writer.checkpointRow c)).get? key =
      if key = Checkpoint.key then some c.encode else t.get? key :=
  Table.get?_insert t _ key

/-! ### Events -/

/-- The rows that file a fill under its market, its trader and both of them. -/
def FillKey.filings (trader : PublicKey) (k : FillKey) : List Row :=
  [(k.encodeByMarket, []), (k.encodeByTrader trader, []), (k.encodeByTraderMarket trader, [])]

theorem FillKey.tag_of_mem_filings {trader : PublicKey} {k : FillKey} {r : Row}
    (h : r ∈ filings trader k) :
    r.1.head? = some Family.fillByMarket.tag ∨ r.1.head? = some Family.fillByTrader.tag ∨
      r.1.head? = some Family.fillByTraderMarket.tag := by
  simp only [filings, List.mem_cons, List.not_mem_nil, or_false] at h
  rcases h with rfl | rfl | rfl
  · exact .inl rfl
  · exact .inr (.inl rfl)
  · exact .inr (.inr rfl)

namespace Event

/-- The row under the key of an event. -/
def mainRow (e : Event) (trader : Option PublicKey) : Row :=
  (OrderEventKey.encode ⟨e.ref.order, e.ref.place, e.type⟩,
    StoredEvent.encode ⟨e.ref.slotHash, e.ref.timestamp, trader, e.kind⟩)

/-- The rows of an event, where `owner` tells who owns an account. -/
def rowsWith (owner : PublicKey → Option PublicKey) (e : Event) : List Row :=
  match e.kind with
  | .fill account _ =>
    match owner account with
    | some trader => e.mainRow (some trader) :: FillKey.filings trader ⟨e.ref.order, e.ref.place⟩
    | none => []
  | _ => [e.mainRow none]

theorem mainRow_eq (e : Event) (trader : Option PublicKey) :
    e.mainRow trader =
      ((OrderEventKey.ofEvent e).encode, (StoredEvent.ofEvent e trader).encode) := rfl

@[simp] theorem eventRows_some (e : Event) (trader : PublicKey) :
    Writer.eventRows e (some trader) =
      e.mainRow (some trader) :: FillKey.filings trader ⟨e.ref.order, e.ref.place⟩ := rfl

@[simp] theorem eventRows_none (e : Event) : Writer.eventRows e none = [e.mainRow none] := rfl

/-- Whether an event is written: a fill needs an owner. -/
def isKept (owner : PublicKey → Option PublicKey) (e : Event) : Bool :=
  match e.kind with
  | .fill account _ => (owner account).isSome
  | _ => true

/-- The keys of an event's rows are those of event rows and of the indexes. -/
theorem tag_of_mem_eventRows {e : Event} {trader : Option PublicKey} {r : Row}
    (h : r ∈ Writer.eventRows e trader) :
    r.1.head? = some Family.orderEvent.tag ∨ r.1.head? = some Family.fillByMarket.tag ∨
      r.1.head? = some Family.fillByTrader.tag ∨ r.1.head? = some Family.fillByTraderMarket.tag := by
  rcases List.mem_cons.mp h with rfl | h
  · exact .inl rfl
  · cases trader with
    | none => simp at h
    | some trader => exact .inr (FillKey.tag_of_mem_filings h)

theorem mem_eventRows_of_mem_rowsWith {owner : PublicKey → Option PublicKey} {e : Event} {r : Row}
    (h : r ∈ e.rowsWith owner) : ∃ trader, r ∈ Writer.eventRows e trader := by
  unfold rowsWith at h
  split at h
  · split at h
    · exact ⟨_, h⟩
    · simp at h
  · exact ⟨_, h⟩

end Event

/-! ### Blocks -/

namespace BlockEvents

/-- The ownerships that blocks name. -/
def named (bs : List BlockEvents) : List Ownership := bs.flatMap (·.ownerships)

/-- The rows of a block but for its checkpoint; `known` was named before. -/
def indexRows (known : List Ownership) (b : BlockEvents) : List Row :=
  Ownership.newRows known b.ownerships ++
    b.events.flatMap (Event.rowsWith (Ownership.first? (known ++ b.ownerships)))

/-- The rows of several blocks but for their checkpoints. -/
def allIndexRows (known : List Ownership) : List BlockEvents → List Row
  | [] => []
  | b :: bs => b.indexRows known ++ allIndexRows (known ++ b.ownerships) bs

/-- The rows that are held back for several blocks, each with its checkpoint. -/
def heldRows (known : List Ownership) : List BlockEvents → List Row
  | [] => []
  | b :: bs =>
    b.indexRows known ++ (Checkpoint.key, Checkpoint.encode ⟨b.slot, b.slotHash⟩) ::
      heldRows (known ++ b.ownerships) bs

/-- The events of blocks that are written; `known` was named before. -/
def kept (known : List Ownership) : List BlockEvents → List Event
  | [] => []
  | b :: bs =>
    b.events.filter (Event.isKept (Ownership.first? (known ++ b.ownerships))) ++
      kept (known ++ b.ownerships) bs

/-- The checkpoint that blocks leave. -/
def lastCheckpoint? (bs : List BlockEvents) : Option Checkpoint :=
  bs.getLast?.map fun b => ⟨b.slot, b.slotHash⟩

/-- The table that holds the rows of blocks and the checkpoint of the last one. -/
def tableOf (bs : List BlockEvents) : Table :=
  Table.empty.insertAll
    (allIndexRows [] bs ++ (lastCheckpoint? bs).toList.map fun c => (Checkpoint.key, c.encode))

@[simp] theorem named_append (a b : List BlockEvents) : named (a ++ b) = named a ++ named b :=
  List.flatMap_append

@[simp] theorem named_singleton (b : BlockEvents) : named [b] = b.ownerships := by simp [named]

theorem heldRows_append (known : List Ownership) (a b : List BlockEvents) :
    heldRows known (a ++ b) = heldRows known a ++ heldRows (known ++ named a) b := by
  induction a generalizing known with
  | nil => simp [heldRows, named]
  | cons x a ih => simp [heldRows, ih, named, List.append_assoc]

theorem kept_append (known : List Ownership) (a b : List BlockEvents) :
    kept known (a ++ b) = kept known a ++ kept (known ++ named a) b := by
  induction a generalizing known with
  | nil => simp [kept, named]
  | cons x a ih => simp [kept, ih, named, List.append_assoc]

theorem kept_singleton (known : List Ownership) (b : BlockEvents) :
    kept known [b] = b.events.filter (Event.isKept (Ownership.first? (known ++ b.ownerships))) :=
  List.append_nil _

theorem heldRows_cons (known : List Ownership) (b : BlockEvents) (bs : List BlockEvents) :
    heldRows known (b :: bs) =
      b.indexRows known ++ Writer.checkpointRow (Writer.blockCheckpoint b) ::
        heldRows (known ++ b.ownerships) bs := rfl

theorem heldRows_singleton (known : List Ownership) (b : BlockEvents) :
    heldRows known [b] =
      b.indexRows known ++ [Writer.checkpointRow (Writer.blockCheckpoint b)] := rfl

theorem allIndexRows_append (known : List Ownership) (a b : List BlockEvents) :
    allIndexRows known (a ++ b) = allIndexRows known a ++ allIndexRows (known ++ named a) b := by
  induction a generalizing known with
  | nil => simp [allIndexRows, named]
  | cons x a ih => simp [allIndexRows, ih, named, List.append_assoc]

theorem heldRows_eq_nil {known : List Ownership} {bs : List BlockEvents}
    (h : heldRows known bs = []) : bs = [] := by
  cases bs with
  | nil => rfl
  | cons b bs => simp [heldRows] at h

@[simp] theorem lastCheckpoint?_append_singleton (bs : List BlockEvents) (b : BlockEvents) :
    lastCheckpoint? (bs ++ [b]) = some (Writer.blockCheckpoint b) := by
  simp [lastCheckpoint?, Writer.blockCheckpoint]

/-! ### Tables -/

theorem owner_not_mem_eventRows (owner : PublicKey → Option PublicKey) (account : PublicKey)
    (events : List Event) :
    Ownership.encodeKey account ∉ (events.flatMap (Event.rowsWith owner)).map (·.1) := by
  intro h
  obtain ⟨r, hr, hkey⟩ := List.mem_map.mp h
  obtain ⟨e, _, hr⟩ := List.mem_flatMap.mp hr
  obtain ⟨trader, hr⟩ := Event.mem_eventRows_of_mem_rowsWith hr
  have ht := Event.tag_of_mem_eventRows hr
  rw [hkey, Ownership.encodeKey, List.head?_cons] at ht
  revert ht
  decide

/-- A checkpoint row is all that inserting blocks changes at the checkpoint. -/
theorem insertAll_heldRows (t : Table) (known : List Ownership) (bs : List BlockEvents) :
    t.insertAll (heldRows known bs) =
      t.insertAll (allIndexRows known bs ++
        (lastCheckpoint? bs).toList.map Writer.checkpointRow) := by
  induction bs using List.reverseRecOn with
  | nil => simp [heldRows, allIndexRows, lastCheckpoint?]
  | append_singleton bs b ih =>
    rw [heldRows_append, heldRows_singleton, allIndexRows_append, lastCheckpoint?_append_singleton,
      Table.insertAll_append, ih]
    refine Table.ext_get? fun key => ?_
    simp only [allIndexRows, List.append_nil, Table.insertAll_append, Option.toList_some,
      List.map_cons, List.map_nil, Table.insertAll_cons, Table.insertAll_nil,
      Table.get?_insert_checkpointRow]
    by_cases hkey : key = Checkpoint.key
    · rw [if_pos hkey, if_pos hkey]
    · have hmem : key ∉ ((lastCheckpoint? bs).toList.map Writer.checkpointRow).map (·.1) := by
        simpa [Writer.checkpointRow] using fun _ _ h => hkey (Eq.symm h)
      rw [if_neg hkey, if_neg hkey, Table.get?_insertAll, Table.get?_insertAll_of_not_mem hmem,
        ← Table.get?_insertAll]

theorem tableOf_eq (bs : List BlockEvents) :
    tableOf bs = Table.empty.insertAll (heldRows [] bs) :=
  (insertAll_heldRows Table.empty [] bs).symm

theorem tableOf_append (a b : List BlockEvents) :
    tableOf (a ++ b) = (tableOf a).insertAll (heldRows (named a) b) := by
  rw [tableOf_eq, tableOf_eq, heldRows_append, Table.insertAll_append, List.nil_append]

theorem mem_of_get?_tableOf {bs : List BlockEvents} {key value : Bytes}
    (h : (tableOf bs).get? key = some value) :
    (key, value) ∈ allIndexRows [] bs ∨
      ∃ c, lastCheckpoint? bs = some c ∧ (key, value) = Writer.checkpointRow c := by
  rcases Table.mem_of_get?_insertAll h with h | h
  · rcases List.mem_append.mp h with h | h
    · exact .inl h
    · obtain ⟨c, hc, hrow⟩ := List.mem_map.mp h
      exact .inr ⟨c, Option.mem_toList.mp hc, hrow.symm⟩
  · simp at h

theorem get?_insertAll_heldRows_checkpoint (t : Table) (known : List Ownership)
    (bs : List BlockEvents) :
    (t.insertAll (heldRows known bs)).get? Checkpoint.key =
      ((lastCheckpoint? bs).map Checkpoint.encode).or (t.get? Checkpoint.key) := by
  rw [insertAll_heldRows, Table.insertAll_append]
  cases h : lastCheckpoint? bs with
  | none =>
    obtain rfl : bs = [] := by simpa [lastCheckpoint?] using h
    rfl
  | some c => simp [Table.get?_insert_checkpointRow]

theorem get?_tableOf_checkpoint (bs : List BlockEvents) :
    (tableOf bs).get? Checkpoint.key = (lastCheckpoint? bs).map Checkpoint.encode := by
  rw [tableOf_eq, get?_insertAll_heldRows_checkpoint, Table.get?_empty, Option.or_none]

/-- What is held back for blocks keeps what a table says of owners up to date. -/
theorem get?_insertAll_heldRows {t : Table} {known : List Ownership}
    (h : ∀ a, t.get? (Ownership.encodeKey a) =
      (Ownership.first? known a).map Ownership.encodeTrader)
    (bs : List BlockEvents) (account : PublicKey) :
    (t.insertAll (heldRows known bs)).get? (Ownership.encodeKey account) =
      (Ownership.first? (known ++ named bs) account).map Ownership.encodeTrader := by
  induction bs generalizing t known with
  | nil => simpa [heldRows, named] using h account
  | cons b bs ih =>
    have hb (a : PublicKey) : ((t.insertAll (b.indexRows known)).insert
        (Writer.checkpointRow (Writer.blockCheckpoint b))).get? (Ownership.encodeKey a) =
          (Ownership.first? (known ++ b.ownerships) a).map Ownership.encodeTrader := by
      rw [Table.get?_insert_checkpointRow, if_neg (Ownership.encodeKey_ne_checkpoint a), indexRows,
        Table.insertAll_append, Table.get?_insertAll_of_not_mem (owner_not_mem_eventRows _ _ _)]
      exact Ownership.get?_insertAll_newRows h b.ownerships a
    rw [heldRows_cons, Table.insertAll_append, Table.insertAll_cons, ih hb, List.append_assoc]
    rfl

theorem get?_tableOf_owner (bs : List BlockEvents) (account : PublicKey) :
    (tableOf bs).get? (Ownership.encodeKey account) =
      (Ownership.first? (named bs) account).map Ownership.encodeTrader := by
  rw [tableOf_eq]
  exact get?_insertAll_heldRows (fun _ => rfl) bs account

end BlockEvents

end DexIndex
