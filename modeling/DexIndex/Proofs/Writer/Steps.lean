import DexIndex.Proofs.Writer.Rows
import Mathlib.Tactic.Set

/-!
# What a writer does

One lemma for each operation, saying all that it can do: reads leave the table as it is
(`Store.ReadFrom`), a batch is written whole or not at all however often it is tried
(`Writer.tryWrite_cases`), and writing a block fails, holds its rows back or makes everything durable
(`Writer.Wrote`). Where no access fails, nothing does.
-/

namespace DexIndex

/-! ### Reads -/

/-- What reads make of a store. -/
structure Store.ReadFrom (s s' : Store) : Prop where
  table : s'.table = s.table
  writes : s'.writes = s.writes
  same : s.reads = [] → s' = s

namespace Store

theorem ReadFrom.refl (s : Store) : s.ReadFrom s := ⟨rfl, rfl, fun _ => rfl⟩

theorem ReadFrom.trans {s s' s'' : Store} (h : s.ReadFrom s') (h' : s'.ReadFrom s'') :
    s.ReadFrom s'' :=
  ⟨h'.table.trans h.table, h'.writes.trans h.writes, fun hs => by
    obtain rfl := h.same hs
    exact h'.same hs⟩

theorem ReadFrom.reads {s s' : Store} (h : s.ReadFrom s') (hs : s.reads = []) : s'.reads = [] :=
  h.same hs ▸ hs

theorem read_cases {α : Type} (s : Store) (f : Table → α) :
    ∃ s', s.ReadFrom s' ∧ (s.read f = (.ok (f s.table), s') ∨
      (s.reads ≠ [] ∧ ∃ e, s.read f = (.error e, s'))) := by
  refine ⟨{ s with reads := s.reads.tail }, ⟨rfl, rfl, fun hs => ?_⟩, ?_⟩
  · cases s
    simp_all
  · unfold read
    cases h : s.reads.head?.join with
    | none => exact .inl rfl
    | some e => exact .inr ⟨fun hs => by simp [hs] at h, e, rfl⟩

end Store

/-! ### Owners -/

/-- A ledger knows the owners that `os` names, and its store no others. -/
structure Ledger.Knows (l : Ledger) (os : List Ownership) : Prop where
  cache : ∀ a, l.cache.find? a = Ownership.first? os a
  stored : ∀ a, Ownership.first? os a = none →
    l.store.table.get? (Ownership.encodeKey a) = none

namespace Ledger
variable {l : Ledger} {os : List Ownership}

theorem Knows.withStore (h : l.Knows os) {s : Store} (hs : s.table = l.store.table) :
    Knows { l with store := s } os :=
  ⟨h.cache, fun a ha => by rw [hs]; exact h.stored a ha⟩

theorem trader?_cases (h : l.Knows os) (account : PublicKey) :
    ∃ s, l.store.ReadFrom s ∧
      (l.trader? account = (.ok (Ownership.first? os account), { l with store := s }) ∨
        (l.store.reads ≠ [] ∧ ∃ e, l.trader? account = (.error e, { l with store := s }))) := by
  have hc := h.cache account
  unfold trader?
  cases hf : Ownership.first? os account with
  | some trader =>
    rw [hf] at hc
    rw [hc]
    exact ⟨l.store, .refl _, .inl rfl⟩
  | none =>
    rw [hf] at hc
    rw [hc]
    obtain ⟨s, hs, hget | ⟨hr, e, hget⟩⟩ :=
      l.store.read_cases (·.get? (Ownership.encodeKey account))
    · refine ⟨s, hs, .inl ?_⟩
      simp only [get, Store.get, hget, h.stored account hf]
    · refine ⟨s, hs, .inr ⟨hr, e, ?_⟩⟩
      simp only [get, Store.get, hget]

/-- An owner is claimed if it is the first of its account. -/
theorem claim_cases (h : l.Knows os) (o : Ownership) :
    ∃ l', l.store.ReadFrom l'.store ∧
      ((l.claim o = (.ok (if (Ownership.first? os o.account).isSome then none else some o.row), l') ∧
        l'.Knows (os ++ [o])) ∨
        (l.store.reads ≠ [] ∧ l'.cache = l.cache ∧ ∃ e, l.claim o = (.error e, l'))) := by
  obtain ⟨s, hs, ht | ⟨hr, e, ht⟩⟩ := trader?_cases h o.account
  · unfold claim
    rw [ht]
    cases hf : Ownership.first? os o.account with
    | some trader =>
      refine ⟨{ l with store := s }, hs, .inl ⟨rfl, fun a => ?_, fun a ha => ?_⟩⟩
      · rw [Ownership.first?_append, Ownership.first?_cons, Ownership.first?_nil]
        by_cases ha : a = o.account
        · subst ha
          rw [if_pos rfl, hf, Option.some_or, ← hf]
          exact h.cache _
        · rw [if_neg ha, Option.or_none]
          exact h.cache a
      · rw [Ownership.first?_append, Option.or_eq_none_iff] at ha
        exact (h.withStore hs.table).stored a ha.1
    | none =>
      have hnone : l.cache.find? o.account = none := (h.cache _).trans hf
      refine ⟨⟨s, ⟨l.cache.owners ++ [(o.account, o.trader)]⟩⟩, hs, .inl ⟨?_, fun a => ?_,
        fun a ha => ?_⟩⟩
      · simp only [OwnerCache.claim, hnone]
        rfl
      · have hc : (l.cache.owners.lookup a) = Ownership.first? os a := h.cache a
        simp only [OwnerCache.find?, List.lookup_append, hc, Ownership.first?_append,
          Ownership.first?_cons, Ownership.first?_nil, List.lookup_singleton, beq_iff_eq]
      · rw [Ownership.first?_append, Option.or_eq_none_iff] at ha
        exact (h.withStore hs.table).stored a ha.1
  · exact ⟨{ l with store := s }, hs, .inr ⟨hr, rfl, e, by unfold claim; rw [ht]⟩⟩

end Ledger

namespace Writer
variable {w : Writer} {l : Ledger} {os : List Ownership}

@[simp] theorem hold_nil (w : Writer) : w.hold [] = w := by simp [hold]

theorem hold_hold (w : Writer) (a b : List Row) : (w.hold a).hold b = w.hold (a ++ b) := by
  simp [hold]

theorem bufferOwnerships_cases (h : l.Knows os) (new : List Ownership) :
    ∃ l', l.store.ReadFrom l'.store ∧
      ((w.bufferOwnerships l new = (.ok (), w.hold (Ownership.newRows os new), l') ∧
        l'.Knows (os ++ new)) ∨
        (l.store.reads ≠ [] ∧ ∃ e w', w'.durable = w.durable ∧
          w.bufferOwnerships l new = (.error e, w', l'))) := by
  induction new generalizing w l os with
  | nil => exact ⟨l, .refl _, .inl ⟨by simp [bufferOwnerships, Ownership.newRows], by simpa using h⟩⟩
  | cons o rest ih =>
    obtain ⟨l₁, hs₁, ⟨hclaim, hk⟩ | ⟨hr, _, e, hclaim⟩⟩ := l.claim_cases h o
    · obtain ⟨l₂, hs₂, hrest⟩ := ih (w := w.hold (if (Ownership.first? os o.account).isSome then none
        else some o.row).toList) hk
      refine ⟨l₂, hs₁.trans hs₂, ?_⟩
      simp only [bufferOwnerships, hclaim]
      rcases hrest with ⟨hrest, hk'⟩ | ⟨hr, e, w', hd, hrest⟩
      · refine .inl ⟨?_, by simpa using hk'⟩
        rw [hrest, hold_hold, Ownership.newRows]
        split <;> rfl
      · exact .inr ⟨fun hl => hr (hs₁.reads hl), e, w', hd, hrest⟩
    · exact ⟨l₁, hs₁, .inr ⟨hr, e, w, rfl, by simp only [bufferOwnerships, hclaim]⟩⟩

/-! ### Events -/

/-- A writer that holds back the events of a block that are kept. -/
def keep (w : Writer) (owner : PublicKey → Option PublicKey) (events : List Event) (m : Metrics) :
    Writer :=
  { w with
    pending := w.pending ++ events.flatMap (Event.rowsWith owner)
    unpublished := w.unpublished ++ events.filter (Event.isKept owner)
    metrics := m }

theorem bufferEvent_cases (h : l.Knows os) (e : Event) :
    ∃ s, l.store.ReadFrom s ∧
      ((∃ m, w.bufferEvent l e =
          (.ok (), w.keep (Ownership.first? os) [e] m, { l with store := s })) ∨
        (l.store.reads ≠ [] ∧ ∃ err, w.bufferEvent l e = (.error err, w, { l with store := s }))) := by
  unfold bufferEvent
  split
  · next account fill hkind =>
    obtain ⟨s, hs, ht | ⟨hr, err, ht⟩⟩ := l.trader?_cases h account
    · refine ⟨s, hs, .inl ?_⟩
      rw [ht]
      cases hf : Ownership.first? os account with
      | none =>
        refine ⟨w.metrics.recordDroppedFill, ?_⟩
        simp [keep, Event.rowsWith, Event.isKept, hkind, hf]
      | some trader =>
        refine ⟨w.metrics.recordEvent e.type, ?_⟩
        simp [keep, Event.rowsWith, Event.isKept, hkind, hf, holdEvent, hold]
    · exact ⟨s, hs, .inr ⟨hr, err, by rw [ht]⟩⟩
  · next hkind =>
    refine ⟨l.store, .refl _, .inl ⟨w.metrics.recordEvent e.type, ?_⟩⟩
    have hrows : e.rowsWith (Ownership.first? os) = [e.mainRow none] := by
      unfold Event.rowsWith
      split
      · exact absurd ‹_› (hkind _ _)
      · rfl
    have hkept : e.isKept (Ownership.first? os) := by
      unfold Event.isKept
      split
      · exact absurd ‹_› (hkind _ _)
      · rfl
    simp [keep, hrows, hkept, holdEvent, hold]

theorem bufferEvents_cases (h : l.Knows os) (events : List Event) :
    ∃ s, l.store.ReadFrom s ∧
      ((∃ m, w.bufferEvents l events =
          (.ok (), w.keep (Ownership.first? os) events m, { l with store := s })) ∨
        (l.store.reads ≠ [] ∧ ∃ err w', w'.durable = w.durable ∧
          w.bufferEvents l events = (.error err, w', { l with store := s }))) := by
  induction events generalizing w l with
  | nil => exact ⟨l.store, .refl _, .inl ⟨w.metrics, by simp [bufferEvents, keep]⟩⟩
  | cons e rest ih =>
    obtain ⟨s₁, hs₁, ⟨m₁, he⟩ | ⟨hr, err, he⟩⟩ := bufferEvent_cases (w := w) h e
    · obtain ⟨s₂, hs₂, hrest⟩ := ih (w := w.keep (Ownership.first? os) [e] m₁)
        (h.withStore hs₁.table)
      refine ⟨s₂, hs₁.trans hs₂, ?_⟩
      simp only [bufferEvents, he]
      rcases hrest with ⟨m, hrest⟩ | ⟨hr, err, w', hd, hrest⟩
      · refine .inl ⟨m, ?_⟩
        rw [hrest]
        simp [keep, List.filter_cons]
        split <;> simp
      · exact .inr ⟨fun hl => hr (hs₁.reads hl), err, w', hd, hrest⟩
    · exact ⟨s₁, hs₁, .inr ⟨hr, err, w, rfl, by simp only [bufferEvents, he]⟩⟩

end Writer

/-! ### Attempts to write -/

namespace Store

/-- No access that is still to come fails. -/
structure Faultless (s : Store) : Prop where
  reads : s.reads = []
  writes : s.writes = []

theorem ReadFrom.faultless {s s' : Store} (h : s.ReadFrom s') (hs : s.Faultless) : s'.Faultless :=
  h.same hs.reads ▸ hs

/-- What attempts to write a batch make of a store. -/
structure TriedOn (batch : List Row) (s s' : Store) : Prop where
  table : s'.table = s.table ∨ s'.table = s.table.insertAll batch
  faultless : s.Faultless → s'.Faultless

theorem attempt_cases (s : Store) (timeoutMs : Nat) (batch : List Row) :
    ∃ s', TriedOn batch s s' ∧
      ((s.attempt timeoutMs batch = (.ok (), s') ∧ s'.table = s.table.insertAll batch) ∨
        (¬ s.Faultless ∧ ∃ reason, s.attempt timeoutMs batch = (.error reason, s'))) := by
  have hnext (hs : s.Faultless) : s.writes.headD .works = .works := by rw [hs.writes]; rfl
  have htail (hs : s.Faultless) : s.writes.tail = [] := by rw [hs.writes]; rfl
  unfold attempt
  cases h : s.writes.headD .works with
  | works =>
    refine ⟨{ s with table := s.table.insertAll batch, writes := s.writes.tail
                     attempts := s.attempts + 1 }, ⟨.inr rfl, fun hs => ⟨hs.reads, htail hs⟩⟩, ?_⟩
    exact .inl ⟨rfl, rfl⟩
  | fails e applied =>
    have hs : ¬ s.Faultless := fun hs => by rw [hnext hs] at h; cases h
    refine ⟨_, ⟨?_, fun h => absurd h hs⟩, .inr ⟨hs, .store e, rfl⟩⟩
    cases applied
    exacts [.inl rfl, .inr rfl]
  | hangs applied =>
    have hs : ¬ s.Faultless := fun hs => by rw [hnext hs] at h; cases h
    refine ⟨_, ⟨?_, fun h => absurd h hs⟩, .inr ⟨hs, .timedOut timeoutMs, rfl⟩⟩
    cases applied
    exacts [.inl rfl, .inr rfl]

end Store

namespace Writer
variable {w : Writer} {l : Ledger} {os : List Ownership}

/-- However often a batch is tried, it is written whole or not at all. -/
theorem tryWrite_cases (p : FlushPolicy) (batch : List Row) (retries attempt : Nat) (s : Store) :
    ∃ n s', Store.TriedOn batch s s' ∧
      ((tryWrite p batch retries attempt s = (.ok (), n, s') ∧
        s'.table = s.table.insertAll batch) ∨
        (¬ s.Faultless ∧ ∃ e, tryWrite p batch retries attempt s = (.error e, n, s'))) := by
  induction retries generalizing attempt s with
  | zero =>
    obtain ⟨s', hs', ⟨ha, ht⟩ | ⟨hf, reason, ha⟩⟩ := s.attempt_cases p.timeoutMs.toNat batch
    · exact ⟨0, s', hs', .inl ⟨by rw [tryWrite, ha], ht⟩⟩
    · exact ⟨0, s', hs', .inr ⟨hf, _, by rw [tryWrite, ha]⟩⟩
  | succ retries ih =>
    obtain ⟨s₁, hs₁, ⟨ha, ht⟩ | ⟨hf, reason, ha⟩⟩ := s.attempt_cases p.timeoutMs.toNat batch
    · exact ⟨0, s₁, hs₁, .inl ⟨by rw [tryWrite, ha], ht⟩⟩
    · obtain ⟨n, s₂, hs₂, hrest⟩ := ih (attempt + 1) (s₁.sleep (p.pauseMs (attempt - 1)).toNat)
      have ht₁ : (s₁.sleep (p.pauseMs (attempt - 1)).toNat).table = s₁.table := rfl
      -- what a failed attempt has written, the next one writes again
      have hinsert : s₁.table.insertAll batch = s.table.insertAll batch := by
        rcases hs₁.table with h | h
        · rw [h]
        · rw [h, Table.insertAll_self]
      refine ⟨n + 1, s₂, ⟨?_, fun h => absurd h hf⟩, ?_⟩
      · rcases hs₂.table with h | h
        · rw [h, ht₁]; exact hs₁.table
        · exact .inr (by rw [h, ht₁, hinsert])
      · rcases hrest with ⟨hrest, ht⟩ | ⟨_, e, hrest⟩
        · exact .inl ⟨by rw [tryWrite, ha]; simp only [hrest], by rw [ht, ht₁, hinsert]⟩
        · exact .inr ⟨hf, e, by rw [tryWrite, ha]; simp only [hrest]⟩

/-- A writer whose rows have all become durable. -/
def settled (w : Writer) (m : Metrics) : Writer :=
  { w with pending := [], unpublished := [], durable := w.buffered, metrics := m }

theorem flush_cases (hp : w.pending ≠ []) (l : Ledger) (now : Timestamp) :
    ∃ s, Store.TriedOn w.pending l.store s ∧
      ((∃ m, w.flush l now = (.ok w.unpublished, w.settled m, { l with store := s }) ∧
        s.table = l.store.table.insertAll w.pending) ∨
        (¬ l.store.Faultless ∧ ∃ e m,
          w.flush l now = (.error e, { w with metrics := m }, { l with store := s }))) := by
  obtain ⟨n, s, hs, ⟨ht, htable⟩ | ⟨hf, e, ht⟩⟩ :=
    tryWrite_cases w.policy w.pending w.policy.maxRetries.toNat 1 l.store
  · refine ⟨s, hs, .inl ⟨((w.countRetries n).settle now (s.elapsedMs - l.store.elapsedMs)).metrics,
      ?_, htable⟩⟩
    rw [flush, if_neg (by simpa using hp), ht]
    rfl
  · refine ⟨s, hs, .inr ⟨hf, e, (w.countRetries n).metrics, ?_⟩⟩
    rw [flush, if_neg (by simpa using hp), ht]
    rfl

theorem flush_of_pending_nil (hp : w.pending = []) (l : Ledger) (now : Timestamp) :
    w.flush l now = (.ok [], w, l) := by
  rw [flush, if_pos (by simpa using hp)]

/-! ### Blocks -/

/-- A writer that holds back a block, where `os` was named before. -/
def holdingBlock (w : Writer) (os : List Ownership) (b : BlockEvents) (m : Metrics) : Writer :=
  { w with
    pending := w.pending ++ BlockEvents.heldRows os [b]
    unpublished := w.unpublished ++
      b.events.filter (Event.isKept (Ownership.first? (os ++ b.ownerships)))
    buffered := some (blockCheckpoint b)
    headTime := some b.timestamp
    metrics := m }

/-- How writing a block can end, where `os` was named before. -/
inductive Wrote (w : Writer) (l : Ledger) (os : List Ownership) (b : BlockEvents) :
    Except WriterError (List Event) × Writer × Ledger → Prop
  | failed {e : WriterError} {w' : Writer} {l' : Ledger}
      (fault : ¬ l.store.Faultless) (durable : w'.durable = w.durable)
      (table : l'.store.table = l.store.table ∨
        l'.store.table = l.store.table.insertAll (w.pending ++ BlockEvents.heldRows os [b])) :
      Wrote w l os b (.error e, w', l')
  | held {m : Metrics} {l' : Ledger} (knows : l'.Knows (os ++ b.ownerships))
      (table : l'.store.table = l.store.table)
      (faultless : l.store.Faultless → l'.store.Faultless) :
      Wrote w l os b (.ok [], w.holdingBlock os b m, l')
  | flushed {m m' : Metrics} {l' : Ledger}
      (cache : ∀ a, l'.cache.find? a = Ownership.first? (os ++ b.ownerships) a)
      (table : l'.store.table = l.store.table.insertAll (w.pending ++ BlockEvents.heldRows os [b]))
      (faultless : l.store.Faultless → l'.store.Faultless) :
      Wrote w l os b
        (.ok (w.holdingBlock os b m).unpublished, (w.holdingBlock os b m).settled m', l')

theorem writeBlock_wrote (h : l.Knows os) {b : BlockEvents}
    (hb : ∀ c, w.buffered = some c → c.slot ≤ b.slot) (now : Timestamp) :
    Wrote w l os b (w.writeBlock l b now) := by
  have hfilter : w.buffered.filter (b.slot < ·.slot) = none := by
    rw [Option.filter_eq_none_iff]
    exact fun c hc => by simpa using hb c hc
  unfold writeBlock
  rw [hfilter]
  obtain ⟨l₁, hs₁, ⟨ho, hk₁⟩ | ⟨hr, e, w', hd, ho⟩⟩ :=
    bufferOwnerships_cases (w := w) h b.ownerships
  · obtain ⟨s₂, hs₂, ⟨m, he⟩ | ⟨hr, e, w', hd, he⟩⟩ :=
      bufferEvents_cases (w := w.hold (Ownership.newRows os b.ownerships)) hk₁ b.events
    · simp only [ho, he]
      have hread := hs₁.trans hs₂
      set w₂ := ((w.hold (Ownership.newRows os b.ownerships)).keep
        (Ownership.first? (os ++ b.ownerships)) b.events m).holdCheckpoint b with hw₂
      have hholding : w₂ = w.holdingBlock os b w₂.metrics := by
        simp [hw₂, holdCheckpoint, keep, hold, holdingBlock, BlockEvents.heldRows_singleton,
          BlockEvents.indexRows]
      have hpending : w₂.pending = w.pending ++ BlockEvents.heldRows os [b] := by rw [hholding]; rfl
      split
      · obtain ⟨s₃, hs₃, ⟨m', hf, ht⟩ | ⟨hfault, e, m', hf⟩⟩ :=
          flush_cases (w := w₂) (by simp [hpending, BlockEvents.heldRows])
            { l₁ with store := s₂ } now
        · rw [hf, hholding]
          refine .flushed hk₁.cache ?_ fun hl => hs₃.faultless (hread.faultless hl)
          rw [← hpending, ← hread.table]
          exact ht
        · rw [hf]
          refine .failed (fun hl => hfault (hread.faultless hl)) rfl ?_
          rw [← hpending, ← hread.table]
          exact hs₃.table
      · rw [hholding]
        exact .held (hk₁.withStore hs₂.table) hread.table hread.faultless
    · simp only [ho, he]
      exact .failed (fun hl => hr (hs₁.reads hl.reads)) hd (.inl (hs₁.trans hs₂).table)
  · simp only [ho]
    exact .failed (fun hl => hr hl.reads) hd (.inl hs₁.table)

end Writer

end DexIndex
