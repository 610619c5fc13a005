import DexIndex.Proofs.Writer.Rows

/-!
# Events together with their index rows

A writer holds the rows of an event back all at once, so that no batch has an index row without the
event row that it points to (`Backed`). A table that is made of such batches (`Table.Backed`) has
under every key of an event row an event with this key, and for every index row of a fill a row of
this fill.
-/

namespace DexIndex

namespace Event

/-- The trader that is kept with an event: a fill has one, and no other event has. -/
def TradedBy (e : Event) (trader : Option PublicKey) : Prop := e.type = .fill ↔ trader.isSome

/-- The trader that `owner` gives to an event. -/
def traderWith (owner : PublicKey → Option PublicKey) (e : Event) : Option PublicKey :=
  match e.kind with
  | .fill account _ => owner account
  | _ => none

theorem rowsWith_eq (owner : PublicKey → Option PublicKey) (e : Event) :
    e.rowsWith owner =
      if e.isKept owner then Writer.eventRows e (e.traderWith owner) else [] := by
  obtain ⟨ref, kind⟩ := e
  cases kind with
  | fill account f =>
    cases h : owner account with
    | none => simp [rowsWith, isKept, h]
    | some trader => simp [rowsWith, isKept, traderWith, h]
  | _ => rfl

theorem mainRow_mem_rowsWith {owner : PublicKey → Option PublicKey} {e : Event}
    (h : e.isKept owner) : e.mainRow (e.traderWith owner) ∈ e.rowsWith owner := by
  rw [rowsWith_eq, if_pos h]
  exact List.mem_cons_self

theorem tradedBy_traderWith {owner : PublicKey → Option PublicKey} {e : Event}
    (h : e.isKept owner) : e.TradedBy (e.traderWith owner) := by
  unfold isKept at h
  unfold TradedBy traderWith
  obtain ⟨ref, kind⟩ := e
  cases kind with
  | fill account fill => exact ⟨fun _ => h, fun _ => rfl⟩
  | _ => exact ⟨fun hfill => (by cases hfill), fun hsome => (by cases hsome)⟩

end Event

/-- The keys of the indexes are not those of event rows. -/
theorem FillKey.head?_ne_of_mem_filings {trader : PublicKey} {k : FillKey} {r : Row}
    (h : r ∈ filings trader k) : r.1.head? ≠ some Family.orderEvent.tag := by
  rcases tag_of_mem_filings h with h | h | h <;> rw [h] <;> decide

/-- Of the rows of an event, the one with the key of an event row is the row of the event. -/
theorem Event.eq_mainRow_of_mem {e : Event} {trader : Option PublicKey} {r : Row}
    (h : r ∈ Writer.eventRows e trader) (htag : r.1.head? = some Family.orderEvent.tag) :
    r = e.mainRow trader := by
  rcases List.mem_cons.mp h with h | h
  · exact h
  · refine absurd htag ?_
    split at h
    · exact FillKey.head?_ne_of_mem_filings h
    · cases h

/-! ### Batches -/

/-- A row of a batch that has with it all rows of its event. -/
inductive BackedIn (rows : List Row) : Row → Prop
  | owner (o : Ownership) : BackedIn rows o.row
  | checkpoint (c : Checkpoint) : BackedIn rows (Writer.checkpointRow c)
  | event {e : Event} {trader : Option PublicKey} {r : Row} (traded : e.TradedBy trader)
      (mem : r ∈ Writer.eventRows e trader) (all : Writer.eventRows e trader ⊆ rows) :
      BackedIn rows r

/-- Whether the rows of an event stand together. -/
def Backed (rows : List Row) : Prop := ∀ r ∈ rows, BackedIn rows r

theorem BackedIn.mono {rows rows' : List Row} {r : Row} (h : BackedIn rows r) (hs : rows ⊆ rows') :
    BackedIn rows' r := by
  cases h with
  | owner o => exact .owner o
  | checkpoint c => exact .checkpoint c
  | event ht hm ha => exact .event ht hm (List.Subset.trans ha hs)

namespace Backed
variable {a b : List Row}

theorem nil : Backed [] := fun _ h => by cases h

theorem append (ha : Backed a) (hb : Backed b) : Backed (a ++ b) := by
  intro r hr
  rcases List.mem_append.mp hr with h | h
  · exact (ha r h).mono (List.subset_append_left a b)
  · exact (hb r h).mono (List.subset_append_right a b)

theorem newRows (known os : List Ownership) : Backed (Ownership.newRows known os) := by
  intro r hr
  obtain ⟨o, rfl⟩ := Ownership.eq_row_of_mem_newRows hr
  exact .owner o

theorem checkpointRow (c : Checkpoint) : Backed [Writer.checkpointRow c] := by
  intro r hr
  rw [List.mem_singleton.mp hr]
  exact .checkpoint c

theorem eventRows {e : Event} {trader : Option PublicKey} (h : e.TradedBy trader) :
    Backed (Writer.eventRows e trader) :=
  fun _ hr => .event h hr (List.Subset.refl _)

theorem flatMap_rowsWith (owner : PublicKey → Option PublicKey) (events : List Event) :
    Backed (events.flatMap (Event.rowsWith owner)) := by
  induction events with
  | nil => exact nil
  | cons e rest ih =>
    refine append ?_ ih
    rw [Event.rowsWith_eq]
    split
    · next hkept => exact eventRows (Event.tradedBy_traderWith hkept)
    · exact nil

theorem indexRows (known : List Ownership) (x : BlockEvents) : Backed (x.indexRows known) :=
  append (newRows known x.ownerships) (flatMap_rowsWith _ x.events)

theorem heldRows (known : List Ownership) (bs : List BlockEvents) :
    Backed (BlockEvents.heldRows known bs) := by
  induction bs generalizing known with
  | nil => exact nil
  | cons x bs ih =>
    have hx := append (indexRows known x) (checkpointRow (Writer.blockCheckpoint x))
    have hall := append hx (ih (known ++ x.ownerships))
    rwa [List.append_assoc] at hall

end Backed

/-! ### Tables -/

namespace Table

/-- A table that is made of batches in which the rows of an event stand together. -/
def Backed (t : Table) : Prop := ∃ rows, DexIndex.Backed rows ∧ t = Table.empty.insertAll rows

namespace Backed
variable {t : Table} {key value : Bytes}

theorem empty : Table.empty.Backed := ⟨[], .nil, rfl⟩

theorem insertAll (h : t.Backed) {batch : List Row} (hb : DexIndex.Backed batch) :
    (t.insertAll batch).Backed := by
  obtain ⟨rows, hrows, rfl⟩ := h
  exact ⟨rows ++ batch, hrows.append hb, (Table.insertAll_append _ _ _).symm⟩

/-- What a table holds is the row of an owner, of a checkpoint or of an event, and of an event it
holds something under each of its keys. -/
theorem cases (h : t.Backed) (hget : t.get? key = some value) :
    (∃ o : Ownership, (key, value) = o.row) ∨ (∃ c, (key, value) = Writer.checkpointRow c) ∨
      ∃ (e : Event) (trader : Option PublicKey), e.TradedBy trader ∧
        (key, value) ∈ Writer.eventRows e trader ∧ ∀ r ∈ Writer.eventRows e trader, (t.get? r.1).isSome := by
  obtain ⟨rows, hrows, rfl⟩ := h
  rcases mem_of_get?_insertAll hget with hmem | hnone
  · generalize hr : (key, value) = r at hmem
    cases hrows r hmem with
    | owner o => exact .inl ⟨o, rfl⟩
    | checkpoint c => exact .inr (.inl ⟨c, rfl⟩)
    | @event e trader _ ht hm ha =>
      exact .inr (.inr ⟨e, trader, ht, hm, fun r hr => isSome_get?_insertAll (ha hr)⟩)
  · cases hnone

/-- Under the key of an event row stands an event with this key. -/
theorem event_of_get? (h : t.Backed) (hget : t.get? key = some value)
    (htag : key.head? = some Family.orderEvent.tag) :
    ∃ (e : Event) (trader : Option PublicKey), e.TradedBy trader ∧
      (key, value) = e.mainRow trader := by
  rcases h.cases hget with ⟨o, hr⟩ | ⟨c, hr⟩ | ⟨e, trader, ht, hr, _⟩
  · obtain ⟨rfl, _⟩ := Prod.mk.inj hr
    exact absurd (Family.eq_of_tag_eq (a := .tradingAccount) (Option.some.inj htag)) (by decide)
  · obtain ⟨rfl, _⟩ := Prod.mk.inj hr
    exact absurd (Family.eq_of_tag_eq (a := .checkpoint) (Option.some.inj htag)) (by decide)
  · exact ⟨e, trader, ht, Event.eq_mainRow_of_mem hr htag⟩

end Backed

end Table

theorem BlockEvents.backed_tableOf (bs : List BlockEvents) : (tableOf bs).Backed := by
  have h := tableOf_append [] bs
  rw [List.nil_append] at h
  rw [h]
  exact Table.Backed.empty.insertAll (.heldRows _ bs)

end DexIndex
