import DexIndex.Proofs.Writer.Durable

/-!
# Passing over a block

What a writer does with a block before its checkpoint, over any ledger: the table may come from
anywhere and the cache may have any part of the owners. A look-up that succeeds gives the owner that
the cache or else the table has (`Ledger.owner?`), so that the owners of a ledger are a list
(`Ledger.owners`) which only grows by those that a block claims. A pass that ends early has held
back the rows of a front of the ownerships, or of all of them and of a front of the events
(`Writer.pass_cases`). None ends early on a store that works, if all owners in the table can be read
(`Writer.exists_written_of_readable`).
-/

namespace DexIndex

/-! ### The owners of a ledger -/

/-- The owner in a row, if it can be read. -/
def Ownership.ofRow? (r : Row) : Option Ownership :=
  match decodeKey r.1, decodeTrader r.2 with
  | .ok account, .ok trader => some ⟨account, trader⟩
  | _, _ => none

namespace Ownership

theorem row_of_ofRow? {r : Row} {o : Ownership} (h : ofRow? r = some o) : o.row = r := by
  unfold ofRow? at h
  split at h
  · next hkey hvalue =>
    cases h
    exact row_of_decode hkey hvalue
  · cases h

theorem ofRow?_encodeKey (account : PublicKey) (value : Bytes) :
    ofRow? (encodeKey account, value) =
      (decodeTrader value).toOption.map fun trader => ⟨account, trader⟩ := by
  unfold ofRow?
  rw [decodeKey_encodeKey]
  cases decodeTrader value <;> rfl

/-- The first owner in rows with different keys is the one in the row under its key. -/
theorem first?_filterMap_ofRow? {rows : List Row} (h : rows.Pairwise fun r s => r.1 < s.1)
    (account : PublicKey) :
    first? (rows.filterMap ofRow?) account =
      (rows.lookup (encodeKey account)).bind fun value => (decodeTrader value).toOption := by
  induction rows with
  | nil => rfl
  | cons r rest ih =>
    obtain ⟨hr, hrest⟩ := List.pairwise_cons.mp h
    rw [Table.lookup_cons_ite]
    by_cases hkey : encodeKey account = r.1
    · have hnone : rest.lookup (encodeKey account) = none := by
        refine List.lookup_eq_none_iff.mpr fun s hs => ?_
        have hne : encodeKey account ≠ s.1 :=
          fun he => List.lt_irrefl _ (hkey ▸ he ▸ hr s hs)
        simpa using hne
      have hread : ofRow? r =
          (decodeTrader r.2).toOption.map fun trader => ⟨account, trader⟩ := by
        rw [← ofRow?_encodeKey, hkey]
      rw [if_pos hkey, Option.bind_some, List.filterMap_cons, hread]
      cases (decodeTrader r.2).toOption with
      | some trader => simp [first?_cons]
      | none => simp [ih hrest, hnone]
    · rw [if_neg hkey, ← ih hrest, List.filterMap_cons]
      cases ho : ofRow? r with
      | none => rfl
      | some o =>
        have hne : account ≠ o.account := fun he => hkey (he ▸ congrArg Prod.fst (row_of_ofRow? ho))
        rw [first?_cons, if_neg hne]

end Ownership

namespace Ledger

/-- The owner that a look-up gives if it succeeds: the one in the cache, or else the one in the
table. -/
def owner? (l : Ledger) (account : PublicKey) : Option PublicKey :=
  (l.cache.find? account).or
    ((l.store.table.get? (Ownership.encodeKey account)).bind fun value =>
      (Ownership.decodeTrader value).toOption)

/-- The owners in the cache, and then those in rows of the table that can be read. -/
def owners (l : Ledger) : List Ownership :=
  l.cache.owners.map (fun p => ⟨p.1, p.2⟩) ++ l.store.table.rows.filterMap Ownership.ofRow?

/-- Look-ups give the owners that `os` names. -/
def Names (l : Ledger) (os : List Ownership) : Prop :=
  ∀ account, l.owner? account = Ownership.first? os account

theorem names_owners (l : Ledger) : l.Names l.owners := by
  intro account
  rw [owners, Ownership.first?_append, ← l.cache.find?_eq_first?,
    Ownership.first?_filterMap_ofRow? l.store.table.sorted]
  rfl

/-- What look-ups make of a ledger: reads are used up, and owners are added to the cache. -/
structure Consults (l l' : Ledger) : Prop where
  store : ∃ reads, l'.store = { l.store with reads }
  cache : l.cache.Extends l'.cache

variable {l l' l'' : Ledger} {os new : List Ownership}

theorem Consults.refl (l : Ledger) : l.Consults l := ⟨⟨l.store.reads, rfl⟩, .refl _⟩

theorem Consults.trans (h : l.Consults l') (h' : l'.Consults l'') : l.Consults l'' := by
  obtain ⟨reads, hs⟩ := h.store
  obtain ⟨reads', hs'⟩ := h'.store
  exact ⟨⟨reads', by rw [hs', hs]⟩, h.cache.trans h'.cache⟩

theorem Consults.table (h : l.Consults l') : l'.store.table = l.store.table := by
  obtain ⟨_, hs⟩ := h.store
  rw [hs]

theorem Names.congr (h : l.Names os) (hnew : Ownership.first? os = Ownership.first? new) :
    l.Names new := fun a => (h a).trans (congrFun hnew a)

theorem Names.withStore (h : l.Names os) {s : Store} (hs : s.table = l.store.table) :
    Names { l with store := s } os := by
  intro account
  rw [← h account, owner?, owner?, hs]

theorem Names.insertAll (h : l.Names os) {rows : List Row}
    (hrows : ∀ a, Ownership.encodeKey a ∈ rows.map (·.1) → (l.cache.find? a).isSome) {s : Store}
    (hs : s.table = l.store.table.insertAll rows) : Names { l with store := s } os := by
  intro account
  rw [← h account, owner?, owner?]
  by_cases hmem : Ownership.encodeKey account ∈ rows.map (·.1)
  · obtain ⟨trader, htrader⟩ := Option.isSome_iff_exists.mp (hrows account hmem)
    rw [htrader, Option.some_or, Option.some_or]
  · rw [hs, Table.get?_insertAll_of_not_mem hmem]

theorem read_reads {α : Type} (s : Store) (f : Table → α) :
    ∃ reads, s.read f = (.ok (f s.table), { s with reads }) ∨
      ∃ e, s.read f = (.error e, { s with reads }) := by
  refine ⟨s.reads.tail, ?_⟩
  unfold Store.read
  cases s.reads.head?.join with
  | none => exact .inl rfl
  | some e => exact .inr ⟨e, rfl⟩

/-- An owner that a look-up has given may be recorded. -/
theorem Names.record (h : l.Names os) {account trader : PublicKey}
    (howner : l.owner? account = some trader) :
    Names { l with cache := (l.cache.record account trader).2 } os := by
  intro a
  rw [← h a, owner?, owner?]
  dsimp only
  rw [l.cache.find?_record ⟨account, trader⟩, Ownership.first?_cons, Ownership.first?_nil]
  by_cases ha : a = account
  · rw [if_pos ha, Option.or_assoc, Option.some_or]
    rw [ha]
    unfold owner? at howner
    cases hfind : l.cache.find? account with
    | some owner => rw [Option.some_or, Option.some_or]
    | none =>
      rw [hfind, Option.none_or] at howner
      rw [Option.none_or, Option.none_or, howner]
  · rw [if_neg ha, Option.or_none]

theorem trader?_names (h : l.Names os) (account : PublicKey) :
    ∃ r l', l.trader? account = (r, l') ∧ l.Consults l' ∧ l'.Names os ∧
      ∀ owner, r = .ok owner → owner = Ownership.first? os account := by
  unfold trader?
  have howner := h account
  unfold owner? at howner
  cases hfind : l.cache.find? account with
  | some trader =>
    rw [hfind, Option.some_or] at howner
    refine ⟨_, _, rfl, .refl l, h, fun owner ho => ?_⟩
    rw [← Except.ok.inj ho, howner]
  | none =>
    rw [hfind, Option.none_or] at howner
    obtain ⟨reads, hread | ⟨e, hread⟩⟩ :=
      read_reads l.store (·.get? (Ownership.encodeKey account))
    · simp only [get, Store.get, hread]
      set l₁ : Ledger := { l with store := { l.store with reads } }
      have hconsults : l.Consults l₁ := ⟨⟨reads, rfl⟩, .refl _⟩
      have hnames : l₁.Names os := h.withStore rfl
      cases hvalue : l.store.table.get? (Ownership.encodeKey account) with
      | none =>
        rw [hvalue] at howner
        refine ⟨_, _, rfl, hconsults, hnames, fun owner ho => ?_⟩
        rw [← Except.ok.inj ho, ← howner]
        rfl
      | some value =>
        rw [hvalue, Option.bind_some] at howner
        dsimp only
        cases hdecode : Ownership.decodeTrader value with
        | error e => exact ⟨_, _, rfl, hconsults, hnames, fun _ h => (by cases h)⟩
        | ok trader =>
          rw [hdecode] at howner
          have hown : l₁.owner? account = some trader := (hnames account).trans howner.symm
          refine ⟨_, _, rfl, hconsults.trans ⟨⟨reads, rfl⟩, l₁.cache.extends_record account trader⟩,
            hnames.record hown, fun owner ho => ?_⟩
          rw [← Except.ok.inj ho, ← howner, OwnerCache.record, hfind]
          rfl
    · simp only [get, Store.get, hread]
      exact ⟨_, _, rfl, ⟨⟨reads, rfl⟩, .refl _⟩, h.withStore rfl, fun _ h => (by cases h)⟩

/-- An owner is claimed if it is the first of its account; the account is in the cache then. -/
theorem claim_names (h : l.Names os) (o : Ownership) :
    ∃ r l', l.claim o = (r, l') ∧ l.Consults l' ∧
      ((r = .ok (if (Ownership.first? os o.account).isSome then none else some o.row) ∧
        l'.Names (os ++ [o]) ∧ (l'.cache.find? o.account).isSome) ∨
        (∃ e, r = .error e) ∧ l'.Names os) := by
  obtain ⟨r, l₁, htrader, hconsults, hnames, howner⟩ := trader?_names h o.account
  have hcached := (l.extends_trader? o.account).2.2
  rw [htrader] at hcached
  unfold claim
  rw [htrader]
  match r with
  | .error e => exact ⟨_, _, rfl, hconsults, .inr ⟨⟨e, rfl⟩, hnames⟩⟩
  | .ok (some trader) =>
    have hfirst := howner _ rfl
    refine ⟨_, _, rfl, hconsults, .inl ⟨by rw [← hfirst]; rfl, hnames.congr ?_, ?_⟩⟩
    · funext a
      rw [Ownership.first?_append, Ownership.first?_cons, Ownership.first?_nil]
      by_cases ha : a = o.account
      · rw [ha, ← hfirst, Option.some_or]
      · rw [if_neg ha, Option.or_none]
    · rw [hcached trader rfl]
      rfl
  | .ok none =>
    have hfirst := howner _ rfl
    have hnone : l₁.cache.find? o.account = none := by
      have hown := hnames o.account
      rw [owner?, ← hfirst, Option.or_eq_none_iff] at hown
      exact hown.1
    have hclaim : l₁.cache.claim o.account o.trader =
        (some o.row, (l₁.cache.record o.account o.trader).2) := by
      simp only [OwnerCache.claim, OwnerCache.record, hnone]
      rfl
    dsimp only
    rw [hclaim]
    refine ⟨_, _, rfl, hconsults.trans ⟨⟨l₁.store.reads, rfl⟩, l₁.cache.extends_record _ _⟩,
      .inl ⟨by rw [← hfirst]; rfl, fun a => ?_, ?_⟩⟩
    · have hown := hnames a
      rw [owner?] at hown ⊢
      dsimp only
      rw [l₁.cache.find?_record, Ownership.first?_append, ← hown]
      by_cases ha : a = o.account
      · rw [ha] at hown ⊢
        rw [hnone, Option.none_or, ← hfirst] at hown
        rw [hnone, Option.none_or, Option.none_or, hown, Option.none_or, Option.or_none]
      · rw [Ownership.first?_cons, if_neg ha, Ownership.first?_nil, Option.or_none, Option.or_none]
    · dsimp only
      rw [l₁.cache.find?_of_record]
      rfl

end Ledger

/-! ### Passes -/

namespace Writer
variable {w w' : Writer} {l l' : Ledger} {os : List Ownership} {x : BlockEvents}

@[simp] theorem keep_nil (w : Writer) (owner : PublicKey → Option PublicKey) :
    w.keep owner [] w.metrics = w := by
  simp [keep]

theorem keep_keep (w : Writer) (owner : PublicKey → Option PublicKey) (a b : List Event)
    (m m' : Metrics) : (w.keep owner a m).keep owner b m' = w.keep owner (a ++ b) m' := by
  simp [keep]

/-- What is held back for ownerships, up to the first that fails. -/
theorem bufferOwnerships_names (h : l.Names os) (new : List Ownership) :
    ∃ r n l', w.bufferOwnerships l new = (r, w.hold (Ownership.newRows os (new.take n)), l') ∧
      l.Consults l' ∧ l'.Names (os ++ new.take n) ∧
      (∀ o ∈ new.take n, (l'.cache.find? o.account).isSome) ∧ (r = .ok () → new.take n = new) := by
  induction new generalizing w l os with
  | nil =>
    refine ⟨.ok (), 0, l, ?_, .refl l, ?_, fun o ho => absurd ho List.not_mem_nil, fun _ => rfl⟩
    · simp [bufferOwnerships, Ownership.newRows]
    · simpa using h
  | cons o rest ih =>
    obtain ⟨r, l₁, hclaim, hconsults, ⟨rfl, hnames, hcached⟩ | ⟨⟨e, rfl⟩, hnames⟩⟩ :=
      l.claim_names h o
    · obtain ⟨r, n, l₂, hrest, hconsults', hnames', hcached', hall⟩ := ih (w := w.hold
        (if (Ownership.first? os o.account).isSome then none else some o.row).toList) hnames
      refine ⟨r, n + 1, l₂, ?_, hconsults.trans hconsults', ?_, ?_, fun hr => ?_⟩
      · simp only [bufferOwnerships, hclaim]
        rw [hrest, hold_hold, List.take_succ_cons, Ownership.newRows]
        split <;> rfl
      · simpa using hnames'
      · rw [List.take_succ_cons]
        refine List.forall_mem_cons.mpr ⟨?_, hcached'⟩
        obtain ⟨trader, htrader⟩ := Option.isSome_iff_exists.mp hcached
        rw [hconsults'.cache _ _ htrader]
        rfl
      · rw [List.take_succ_cons, hall hr]
    · refine ⟨.error e, 0, l₁, ?_, hconsults, by simpa using hnames,
        fun o ho => absurd ho List.not_mem_nil, fun h => (by cases h)⟩
      simp [bufferOwnerships, hclaim, Ownership.newRows]

theorem holdEvent_eq_keep (w : Writer) {owner : PublicKey → Option PublicKey} {e : Event}
    (hkept : e.isKept owner) :
    w.holdEvent e (e.traderWith owner) = w.keep owner [e] (w.metrics.recordEvent e.type) := by
  simp [keep, Event.rowsWith_eq, hkept, holdEvent, hold]

theorem bufferEvent_names (h : l.Names os) (e : Event) :
    ∃ l', l.Consults l' ∧ l'.Names os ∧
      ((∃ m, w.bufferEvent l e = (.ok (), w.keep (Ownership.first? os) [e] m, l')) ∨
        ∃ err, w.bufferEvent l e = (.error err, w, l')) := by
  obtain ⟨ref, kind⟩ := e
  unfold bufferEvent
  cases kind with
  | fill account fill =>
    obtain ⟨r, l', htrader, hconsults, hnames, howner⟩ := l.trader?_names h account
    refine ⟨l', hconsults, hnames, ?_⟩
    dsimp only
    rw [htrader]
    match r with
    | .error err => exact .inr ⟨err, rfl⟩
    | .ok none =>
      refine .inl ⟨w.metrics.recordDroppedFill, ?_⟩
      simp [keep, Event.rowsWith, Event.isKept, ← howner none rfl]
    | .ok (some trader) =>
      have hfirst := howner (some trader) rfl
      have hkept : Event.isKept (Ownership.first? os) ⟨ref, .fill account fill⟩ :=
        Option.isSome_iff_exists.mpr ⟨trader, hfirst.symm⟩
      have hkeep := holdEvent_eq_keep w hkept
      simp only [Event.traderWith, ← hfirst] at hkeep
      exact .inl ⟨_, congrArg (fun w => (Except.ok (), w, l')) hkeep⟩
  | _ =>
    exact ⟨l, .refl l, h,
      .inl ⟨_, congrArg (fun w => (Except.ok (), w, l)) (holdEvent_eq_keep w (by rfl))⟩⟩

theorem bufferEvents_names (h : l.Names os) (events : List Event) :
    ∃ r n m l', w.bufferEvents l events =
        (r, w.keep (Ownership.first? os) (events.take n) m, l') ∧
      l.Consults l' ∧ l'.Names os ∧ (r = .ok () → events.take n = events) := by
  induction events generalizing w l with
  | nil => exact ⟨.ok (), 0, w.metrics, l, by simp [bufferEvents], .refl l, h, fun _ => rfl⟩
  | cons e rest ih =>
    obtain ⟨l₁, hconsults, hnames, ⟨m, he⟩ | ⟨err, he⟩⟩ := bufferEvent_names (w := w) h e
    · obtain ⟨r, n, m', l₂, hrest, hconsults', hnames', hall⟩ :=
        ih (w := w.keep (Ownership.first? os) [e] m) hnames
      refine ⟨r, n + 1, m', l₂, ?_, hconsults.trans hconsults', hnames', fun hr => ?_⟩
      · simp only [bufferEvents, he]
        rw [hrest, keep_keep, List.take_succ_cons, List.singleton_append]
      · rw [List.take_succ_cons, hall hr]
    · exact ⟨.error err, 0, w.metrics, l₁, by simp [bufferEvents, he], hconsults, hnames,
        fun h => (by cases h)⟩

/-- What is done with a block before its checkpoint is held back. -/
def pass (w : Writer) (l : Ledger) (x : BlockEvents) : Except StoreError Unit × Writer × Ledger :=
  match w.bufferOwnerships l x.ownerships with
  | (.error e, w, l) => (.error e, w, l)
  | (.ok (), w, l) => w.bufferEvents l x.events

/-- A writer that holds back the rows of the first ownerships and events of a block, where `os` was
named before. -/
def holdingPart (w : Writer) (os : List Ownership) (x : BlockEvents) (claims events : Nat)
    (m : Metrics) : Writer :=
  (w.hold (Ownership.newRows os (x.ownerships.take claims))).keep
    (Ownership.first? (os ++ x.ownerships)) (x.events.take events) m

/-- How a pass over a block ends, where `os` was named before. -/
structure Passed (w : Writer) (l : Ledger) (os : List Ownership) (x : BlockEvents)
    (claims events : Nat) (r : Except StoreError Unit) (l' : Ledger) : Prop where
  consults : l.Consults l'
  names : l'.Names (os ++ x.ownerships.take claims)
  cached : ∀ o ∈ x.ownerships.take claims, (l'.cache.find? o.account).isSome
  /-- Events come after all ownerships. -/
  claimed : events = 0 ∨ x.ownerships.take claims = x.ownerships
  whole : r = .ok () → x.ownerships.take claims = x.ownerships ∧ x.events.take events = x.events

theorem pass_cases (h : l.Names os) (w : Writer) (x : BlockEvents) :
    ∃ r claims events m l', w.pass l x = (r, w.holdingPart os x claims events m, l') ∧
      Passed w l os x claims events r l' := by
  obtain ⟨r, n, l₁, howners, hconsults, hnames, hcached, hall⟩ :=
    bufferOwnerships_names (w := w) h x.ownerships
  unfold pass
  rw [howners]
  cases r with
  | error e =>
    refine ⟨.error e, n, 0, w.metrics, l₁, ?_, hconsults, hnames, hcached, .inl rfl,
      fun h => (by cases h)⟩
    rw [holdingPart, List.take_zero]
    exact congrArg (fun w => (Except.error e, w, l₁)) (keep_nil _ _).symm
  | ok =>
    have hfull := hall rfl
    rw [hfull] at hnames hcached
    obtain ⟨r, k, m, l₂, hevents, hconsults', hnames', hwhole⟩ :=
      bufferEvents_names (w := w.hold (Ownership.newRows os x.ownerships)) hnames x.events
    dsimp only
    rw [hfull, hevents]
    refine ⟨r, n, k, m, l₂, ?_, hconsults.trans hconsults', ?_, ?_, .inr hfull, fun hr => ?_⟩
    · rw [holdingPart, hfull]
    · rwa [hfull]
    · intro o ho
      rw [hfull] at ho
      obtain ⟨trader, htrader⟩ := Option.isSome_iff_exists.mp (hcached o ho)
      rw [hconsults'.cache _ _ htrader]
      rfl
    · exact ⟨hfull, hwhole hr⟩

theorem slot_lt_or_le (w : Writer) (x : BlockEvents) :
    (∃ c, w.buffered = some c ∧ x.slot < c.slot) ∨ ∀ c, w.buffered = some c → c.slot ≤ x.slot := by
  cases w.buffered with
  | none => exact .inr fun c hc => (by cases hc)
  | some c =>
    rcases UInt64.lt_or_le x.slot c.slot with hlt | hle
    · exact .inl ⟨c, rfl, hlt⟩
    · exact .inr fun c' hc => Option.some.inj hc ▸ hle

theorem writeBlock_rejected {c : Checkpoint} (hc : w.buffered = some c) (hlt : x.slot < c.slot)
    (l : Ledger) (now : Timestamp) :
    w.writeBlock l x now = (.error (.checkpointRegression c.slot x.slot), w, l) := by
  have hfilter : w.buffered.filter (x.slot < ·.slot) = some c := by
    rw [hc, Option.filter_some_pos (by simpa using hlt)]
  rw [writeBlock, hfilter]

/-- A block that is not too old is passed over, and then its checkpoint is held back. -/
theorem writeBlock_accepted (hb : ∀ c, w.buffered = some c → c.slot ≤ x.slot) (l : Ledger)
    (now : Timestamp) :
    w.writeBlock l x now =
      match w.pass l x with
      | (.error e, w, l) => (.error (.store e), w, l)
      | (.ok (), w, l) =>
        if (w.schedule.trigger? x.slot x.timestamp now).isSome then (w.holdCheckpoint x).flush l now
        else (.ok [], w.holdCheckpoint x, l) := by
  have hfilter : w.buffered.filter (x.slot < ·.slot) = none := by
    rw [Option.filter_eq_none_iff]
    exact fun c hc => by simpa using hb c hc
  unfold writeBlock pass
  rw [hfilter]
  dsimp only
  rcases w.bufferOwnerships l x.ownerships with ⟨_ | _, w₁, l₁⟩
  · rfl
  · dsimp only
    rcases w₁.bufferEvents l₁ x.events with ⟨_ | _, w₂, l₂⟩
    · rfl
    · dsimp only
      have hschedule : (w₂.holdCheckpoint x).schedule = w₂.schedule := rfl
      rw [hschedule]
      cases w₂.schedule.trigger? x.slot x.timestamp now <;> rfl

end Writer

/-! ### Stores that work -/

namespace Ledger
variable {l l' : Ledger} {os : List Ownership}

/-- The owners that are not in the cache can be read from the table. -/
def Readable (l : Ledger) : Prop :=
  ∀ account value, l.cache.find? account = none →
    l.store.table.get? (Ownership.encodeKey account) = some value →
    ∃ trader, Ownership.decodeTrader value = .ok trader

theorem Readable.mono (h : l.Readable) {c : OwnerCache} (hc : l.cache.Extends c) :
    Readable { l with cache := c } := by
  intro account value hfind hvalue
  refine h account value (Option.eq_none_iff_forall_ne_some.mpr fun trader htrader => ?_) hvalue
  cases hfind.symm.trans (hc account trader htrader)

theorem Readable.withStore (h : l.Readable) {s : Store} (hs : s.table = l.store.table) :
    Readable { l with store := s } := fun account value hfind hvalue =>
  h account value hfind (hs ▸ hvalue)

theorem Knows.readable (h : l.Knows os) : l.Readable := by
  intro account value hfind hvalue
  rw [h.stored account ((h.cache account).symm.trans hfind)] at hvalue
  cases hvalue

theorem trader?_ok (hl : l.store.reads = []) (h : l.Readable) (account : PublicKey) :
    ∃ owner c, l.trader? account = (.ok owner, { l with cache := c }) ∧ l.cache.Extends c := by
  unfold trader?
  cases hfind : l.cache.find? account with
  | some trader => exact ⟨some trader, l.cache, rfl, .refl _⟩
  | none =>
    obtain ⟨s, hs, hget | ⟨hreads, _⟩⟩ := l.store.read_cases (·.get? (Ownership.encodeKey account))
    · obtain rfl := hs.same hl
      simp only [get, Store.get, hget]
      cases hvalue : l.store.table.get? (Ownership.encodeKey account) with
      | none => exact ⟨none, l.cache, rfl, .refl _⟩
      | some value =>
        obtain ⟨trader, htrader⟩ := h account value hfind hvalue
        simp only [htrader]
        exact ⟨_, _, rfl, l.cache.extends_record account trader⟩
    · exact absurd hl hreads

theorem claim_ok (hl : l.store.reads = []) (h : l.Readable) (o : Ownership) :
    ∃ row c, l.claim o = (.ok row, { l with cache := c }) ∧ l.cache.Extends c := by
  obtain ⟨owner, c, htrader, hc⟩ := trader?_ok hl h o.account
  unfold claim
  rw [htrader]
  cases owner with
  | some trader => exact ⟨none, c, rfl, hc⟩
  | none => exact ⟨_, _, rfl, hc.trans (c.extends_claim o.account o.trader)⟩

end Ledger

namespace Writer
variable {w : Writer} {l : Ledger} {x : BlockEvents}

theorem bufferOwnerships_ok (hl : l.store.reads = []) (h : l.Readable) (new : List Ownership) :
    ∃ w' c, w.bufferOwnerships l new = (.ok (), w', { l with cache := c }) ∧
      l.cache.Extends c := by
  induction new generalizing w l with
  | nil => exact ⟨w, l.cache, rfl, .refl _⟩
  | cons o rest ih =>
    obtain ⟨row, c, hclaim, hc⟩ := Ledger.claim_ok hl h o
    obtain ⟨w', c', hrest, hc'⟩ := ih (w := w.hold row.toList) (l := { l with cache := c }) hl
      (h.mono hc)
    exact ⟨w', c', by simp only [bufferOwnerships, hclaim, hrest], hc.trans hc'⟩

theorem bufferEvent_ok (hl : l.store.reads = []) (h : l.Readable) (e : Event) :
    ∃ w' c, w.bufferEvent l e = (.ok (), w', { l with cache := c }) ∧ l.cache.Extends c := by
  unfold bufferEvent
  split
  · next account fill _ =>
    obtain ⟨owner, c, htrader, hc⟩ := Ledger.trader?_ok hl h account
    rw [htrader]
    cases owner with
    | none => exact ⟨_, c, rfl, hc⟩
    | some trader => exact ⟨_, c, rfl, hc⟩
  · exact ⟨_, l.cache, rfl, .refl _⟩

theorem bufferEvents_ok (hl : l.store.reads = []) (h : l.Readable) (events : List Event) :
    ∃ w' c, w.bufferEvents l events = (.ok (), w', { l with cache := c }) ∧
      l.cache.Extends c := by
  induction events generalizing w l with
  | nil => exact ⟨w, l.cache, rfl, .refl _⟩
  | cons e rest ih =>
    obtain ⟨w₁, c, he, hc⟩ := bufferEvent_ok (w := w) hl h e
    obtain ⟨w', c', hrest, hc'⟩ := ih (w := w₁) (l := { l with cache := c }) hl (h.mono hc)
    exact ⟨w', c', by simp only [bufferEvents, he, hrest], hc.trans hc'⟩

theorem pass_of_readable (hl : l.store.reads = []) (h : l.Readable) (w : Writer)
    (x : BlockEvents) : ∃ w' c, w.pass l x = (.ok (), w', { l with cache := c }) := by
  obtain ⟨w₁, c, howners, hc⟩ := bufferOwnerships_ok (w := w) hl h x.ownerships
  obtain ⟨w₂, c', hevents, _⟩ :=
    bufferEvents_ok (w := w₁) (l := { l with cache := c }) hl (h.mono hc) x.events
  exact ⟨w₂, c', by simp only [pass, howners, hevents]⟩

theorem exists_flushed (hl : l.store.Faultless) (w : Writer) (now : Timestamp) :
    ∃ d w' l', w.flush l now = (.ok d, w', l') ∧ l'.store.Faultless := by
  by_cases hp : w.pending = []
  · exact ⟨_, _, _, flush_of_pending_nil hp l now, hl⟩
  · obtain ⟨s, hs, ⟨m, hflush, _⟩ | ⟨fault, _⟩⟩ := flush_cases hp l now
    · exact ⟨_, _, _, hflush, hs.faultless hl⟩
    · exact absurd hl fault

/-- Where no access fails, a block that is not too old is written and flushed. -/
theorem exists_written_of_readable (hl : l.store.Faultless) (h : l.Readable)
    (hb : ∀ c, w.buffered = some c → c.slot ≤ x.slot) (now now' : Timestamp) :
    ∃ d w₁ l₁ d' w₂ l₂, w.writeBlock l x now = (.ok d, w₁, l₁) ∧
      w₁.flush l₁ now' = (.ok d', w₂, l₂) := by
  obtain ⟨w', c, hpass⟩ := pass_of_readable hl.reads h w x
  rw [writeBlock_accepted hb, hpass]
  dsimp only
  split
  · obtain ⟨d, w₁, l₁, hflush, hl₁⟩ :=
      exists_flushed (l := { l with cache := c }) hl (w'.holdCheckpoint x) now
    obtain ⟨d', w₂, l₂, hflush', _⟩ := exists_flushed hl₁ w₁ now'
    exact ⟨d, w₁, l₁, d', w₂, l₂, hflush, hflush'⟩
  · obtain ⟨d', w₂, l₂, hflush', _⟩ :=
      exists_flushed (l := { l with cache := c }) hl (w'.holdCheckpoint x) now'
    exact ⟨[], _, _, d', w₂, l₂, rfl, hflush'⟩

end Writer

end DexIndex
