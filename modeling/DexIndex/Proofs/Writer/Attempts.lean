import DexIndex.Proofs.Writer.Passes

/-!
# Attempts of a flush

A flush ends with the first attempt that succeeds, or with the last one that its policy allows
(`Writer.tryWrite_of_clean`). Where attempts that fail write nothing, a flush that fails leaves all
that is held back where it was, and later calls only add to it until one of them makes it durable
(`Writer.Carries`). Writing a block that is too old or whose look-ups fail does not touch the table
or the checkpoints.
-/

namespace DexIndex

/-! ### Outcomes -/

/-- Whether an attempt writes nothing unless it succeeds. -/
def WriteOutcome.isClean : WriteOutcome → Bool
  | works => true
  | fails _ applied | hangs applied => !applied

namespace Store
variable {s : Store}

/-- Attempts that are still to come write nothing unless they succeed. -/
def Clean (s : Store) : Prop := ∀ o ∈ s.writes, o.isClean

instance (s : Store) : Decidable s.Clean := inferInstanceAs (Decidable (∀ o ∈ s.writes, o.isClean))

/-- The number of the next attempt that succeeds, counted from 1. -/
def firstSuccess (s : Store) : Nat := (s.writes.takeWhile (· ≠ .works)).length + 1

theorem Clean.sleep (h : s.Clean) (ms : Nat) : (s.sleep ms).Clean := h

@[simp] theorem table_sleep (s : Store) (ms : Nat) : (s.sleep ms).table = s.table := rfl

@[simp] theorem attempts_sleep (s : Store) (ms : Nat) : (s.sleep ms).attempts = s.attempts := rfl

@[simp] theorem firstSuccess_sleep (s : Store) (ms : Nat) :
    (s.sleep ms).firstSuccess = s.firstSuccess := rfl

theorem attempt_of_clean (h : s.Clean) (timeoutMs : Nat) (batch : List Row) :
    ∃ r s', s.attempt timeoutMs batch = (r, s') ∧ s'.attempts = s.attempts + 1 ∧ s'.Clean ∧
      ((s.firstSuccess = 1 ∧ r = .ok () ∧ s'.table = s.table.insertAll batch) ∨
        (s.firstSuccess = s'.firstSuccess + 1 ∧ (∃ reason, r = .error reason) ∧
          s'.table = s.table)) := by
  unfold attempt
  cases hw : s.writes with
  | nil =>
    refine ⟨_, _, rfl, rfl, nofun, .inl ⟨?_, rfl, rfl⟩⟩
    simp [firstSuccess, hw]
  | cons o rest =>
    rw [Clean, hw] at h
    obtain ⟨ho, hrest⟩ := List.forall_mem_cons.mp h
    cases o with
    | works =>
      refine ⟨_, _, rfl, rfl, hrest, .inl ⟨?_, rfl, rfl⟩⟩
      simp [firstSuccess, hw]
    | fails e applied =>
      obtain rfl : applied = false := by simpa [WriteOutcome.isClean] using ho
      refine ⟨_, _, rfl, rfl, hrest, .inr ⟨?_, ⟨_, rfl⟩, rfl⟩⟩
      simp [firstSuccess, hw]
    | hangs applied =>
      obtain rfl : applied = false := by simpa [WriteOutcome.isClean] using ho
      refine ⟨_, _, rfl, rfl, hrest, .inr ⟨?_, ⟨_, rfl⟩, rfl⟩⟩
      simp [firstSuccess, hw]

end Store

theorem Ledger.Consults.clean {l l' : Ledger} (h : l.Consults l') (hl : l.store.Clean) :
    l'.store.Clean := by
  obtain ⟨_, hs⟩ := h.store
  rw [hs]
  exact hl

namespace Writer
variable {w w' w'' : Writer} {l l' l'' : Ledger}

/-- Attempts are made up to the first that succeeds, and no more than are allowed. -/
theorem tryWrite_of_clean (p : FlushPolicy) (batch : List Row) (retries attempt : Nat) {s : Store}
    (h : s.Clean) :
    ∃ r n s', tryWrite p batch retries attempt s = (r, n, s') ∧
      s'.attempts = s.attempts + min s.firstSuccess (retries + 1) ∧
      ((s.firstSuccess ≤ retries + 1 ∧ r = .ok () ∧ s'.table = s.table.insertAll batch) ∨
        (retries + 1 < s.firstSuccess ∧
          (∃ reason, r = .error (.flushFailed (attempt + retries) reason)) ∧
          s'.table = s.table)) := by
  induction retries generalizing attempt s with
  | zero =>
    obtain ⟨r, s', ha, hattempts, _, ⟨hk, rfl, htable⟩ | ⟨hk, ⟨reason, rfl⟩, htable⟩⟩ :=
      s.attempt_of_clean h p.timeoutMs.toNat batch
    · refine ⟨.ok (), 0, s', by rw [tryWrite, ha], ?_, .inl ⟨by omega, rfl, htable⟩⟩
      rw [hattempts, hk]
      rfl
    · refine ⟨_, 0, s', by rw [tryWrite, ha]; rfl, ?_, .inr ⟨?_, ⟨reason, rfl⟩, htable⟩⟩
      · rw [hattempts]
        omega
      · rw [hk, Store.firstSuccess]
        omega
  | succ retries ih =>
    obtain ⟨r, s₁, ha, hattempts, hclean, ⟨hk, rfl, htable⟩ | ⟨hk, ⟨reason, rfl⟩, htable⟩⟩ :=
      s.attempt_of_clean h p.timeoutMs.toNat batch
    · refine ⟨.ok (), 0, s₁, by rw [tryWrite, ha], ?_, .inl ⟨by omega, rfl, htable⟩⟩
      rw [hattempts, hk]
      omega
    · -- the pause before the next attempt changes only the time
      obtain ⟨r, n, s₂, hrest, hattempts', hend⟩ :=
        ih (attempt + 1) (hclean.sleep (p.pauseMs (attempt - 1)).toNat)
      rw [Store.attempts_sleep, Store.firstSuccess_sleep] at hattempts'
      rw [Store.firstSuccess_sleep, Store.table_sleep, htable] at hend
      refine ⟨r, n + 1, s₂, by rw [tryWrite, ha]; simp only [hrest], ?_, ?_⟩
      · rw [hattempts', hattempts, hk]
        omega
      · rcases hend with ⟨hle, hr, ht⟩ | ⟨hlt, ⟨reason, hr⟩, ht⟩
        · exact .inl ⟨by omega, hr, ht⟩
        · refine .inr ⟨by omega, ⟨reason, ?_⟩, ht⟩
          rw [hr, Nat.add_right_comm, Nat.add_assoc]

theorem flushFailed_of_tryWrite {p : FlushPolicy} {batch : List Row} {retries attempt n : Nat}
    {s s' : Store} {e : WriterError} (h : tryWrite p batch retries attempt s = (.error e, n, s')) :
    ∃ attempts reason, e = .flushFailed attempts reason := by
  induction retries generalizing attempt s n with
  | zero =>
    rw [tryWrite] at h
    split at h <;> cases h
    exact ⟨_, _, rfl⟩
  | succ retries ih =>
    rw [tryWrite] at h
    split at h
    · cases h
    · next reason s₁ _ =>
      rcases hrest : tryWrite p batch retries (attempt + 1)
        (s₁.sleep (p.pauseMs (attempt - 1)).toNat) with ⟨r, made, s₂⟩
      simp only [hrest] at h
      cases h
      exact ih hrest

theorem flushFailed_of_flush {now : Timestamp} {e : WriterError}
    (h : w.flush l now = (.error e, w', l')) :
    ∃ attempts reason, e = .flushFailed attempts reason := by
  unfold flush at h
  split at h
  · cases h
  · split at h
    · next htry =>
      cases h
      exact flushFailed_of_tryWrite htry
    · cases h

/-- What calls that make nothing durable make of a writer and its ledger. -/
structure Carries (w : Writer) (l : Ledger) (w' : Writer) (l' : Ledger) : Prop where
  pending : w.pending <+: w'.pending
  unpublished : w.unpublished <+: w'.unpublished
  durable : w'.durable = w.durable
  table : l'.store.table = l.store.table

theorem Carries.refl (w : Writer) (l : Ledger) : Carries w l w l :=
  ⟨List.prefix_rfl, List.prefix_rfl, rfl, rfl⟩

theorem Carries.trans (h : Carries w l w' l') (h' : Carries w' l' w'' l'') : Carries w l w'' l'' :=
  ⟨h.pending.trans h'.pending, h.unpublished.trans h'.unpublished, h'.durable.trans h.durable,
    h'.table.trans h.table⟩

theorem Carries.pending_ne_nil (h : Carries w l w' l') (hp : w.pending ≠ []) : w'.pending ≠ [] := by
  intro hnil
  have hprefix := h.pending
  rw [hnil] at hprefix
  exact hp (List.prefix_nil.mp hprefix)

theorem carries_pass (w : Writer) (l : Ledger) (x : BlockEvents) :
    Carries w l (w.pass l x).2.1 (w.pass l x).2.2 ∧ l.Consults (w.pass l x).2.2 := by
  obtain ⟨r, claims, events, m, l', hpass, hpassed⟩ := pass_cases l.names_owners w x
  rw [hpass]
  refine ⟨⟨?_, List.prefix_append _ _, rfl, hpassed.consults.table⟩, hpassed.consults⟩
  simp [holdingPart, keep, hold, List.append_assoc]

/-- Calls of a writer. -/
inductive Call
  | write (block : BlockEvents) (now : Timestamp)
  | flush (now : Timestamp)

def Call.run (w : Writer) (l : Ledger) : Call → Except WriterError (List Event) × Writer × Ledger
  | write block now => w.writeBlock l block now
  | flush now => w.flush l now

theorem Call.run_cases (c : Call) (w : Writer) (l : Ledger) :
    ∃ w' l', Carries w l w' l' ∧ l.Consults l' ∧
      ((∃ r, c.run w l = (r, w', l')) ∨ ∃ now, c.run w l = w'.flush l' now) := by
  cases c with
  | flush now => exact ⟨w, l, .refl w l, .refl l, .inr ⟨now, rfl⟩⟩
  | write x now =>
    rcases w.slot_lt_or_le x with ⟨c, hc, hlt⟩ | hb
    · exact ⟨w, l, .refl w l, .refl l, .inl ⟨_, writeBlock_rejected hc hlt l now⟩⟩
    · obtain ⟨hcarries, hconsults⟩ := w.carries_pass l x
      have hwrite := writeBlock_accepted hb l now
      rw [run]
      generalize w.pass l x = p at hcarries hconsults hwrite
      obtain ⟨_ | _, w₁, l₁⟩ := p
      · exact ⟨w₁, l₁, hcarries, hconsults, .inl ⟨_, hwrite⟩⟩
      · have hheld : Carries w₁ l₁ (w₁.holdCheckpoint x) l₁ :=
          ⟨List.prefix_append _ _, List.prefix_rfl, rfl, rfl⟩
        refine ⟨w₁.holdCheckpoint x, l₁, hcarries.trans hheld, hconsults, ?_⟩
        dsimp only at hwrite
        split at hwrite
        · exact .inr ⟨now, hwrite⟩
        · exact .inl ⟨_, hwrite⟩

theorem carries_flush (hl : l.store.Clean) (now : Timestamp)
    (hheld : (w.flush l now).2.1.pending ≠ []) :
    Carries w l (w.flush l now).2.1 (w.flush l now).2.2 := by
  by_cases hp : w.pending = []
  · rw [flush_of_pending_nil hp]
    exact .refl w l
  · obtain ⟨r, n, s, htry, _, ⟨_, rfl, _⟩ | ⟨_, ⟨reason, rfl⟩, htable⟩⟩ :=
      tryWrite_of_clean w.policy w.pending w.policy.maxRetries.toNat 1 hl
    · rw [flush, if_neg (by simpa using hp), htry] at hheld
      exact absurd rfl hheld
    · -- a flush that leaves rows has failed, and its attempts have written none of them
      rw [flush, if_neg (by simpa using hp), htry]
      exact ⟨List.prefix_rfl, List.prefix_rfl, rfl, htable⟩

/-- Calls after each of which something is still held back. -/
inductive Waits (w : Writer) (l : Ledger) : Writer → Ledger → Prop
  | refl : Waits w l w l
  /-- What the next accesses run into is up to the world. -/
  | world {w' : Writer} {l' : Ledger} (h : Waits w l w' l') {s : Store}
      (table : s.table = l'.store.table) : Waits w l w' { l' with store := s }
  | call {w' : Writer} {l' : Ledger} (h : Waits w l w' l') (clean : l'.store.Clean) (c : Call)
      (held : (c.run w' l').2.1.pending ≠ []) : Waits w l (c.run w' l').2.1 (c.run w' l').2.2

theorem Waits.carries (h : Waits w l w' l') : Carries w l w' l' := by
  induction h with
  | refl => exact .refl w l
  | world _ table ih => exact ih.trans ⟨List.prefix_rfl, List.prefix_rfl, rfl, table⟩
  | @call w' l' _ clean c held ih =>
    refine ih.trans ?_
    obtain ⟨w₁, l₁, hcarries, hconsults, ⟨r, hrun⟩ | ⟨now, hrun⟩⟩ := c.run_cases w' l'
    · rw [hrun]
      exact hcarries
    · rw [hrun] at held ⊢
      exact hcarries.trans (carries_flush (hconsults.clean clean) now held)

/-- Once a call makes something durable, all that was held back before is durable with it, and comes
first. -/
theorem Waits.landed (h : Waits w l w' l') (hp : w.pending ≠ []) {c : Call} {d : List Event}
    (hrun : c.run w' l' = (.ok d, w'', l'')) (hnil : w''.pending = []) :
    ∃ more, l''.store.table = l.store.table.insertAll (w.pending ++ more) ∧
      w.unpublished <+: d := by
  obtain ⟨w₁, l₁, hcarries, _, hend⟩ := c.run_cases w' l'
  have hcarries := h.carries.trans hcarries
  have hp₁ := hcarries.pending_ne_nil hp
  rcases hend with ⟨r, hr⟩ | ⟨now, hr⟩
  · cases hrun.symm.trans hr
    exact absurd hnil hp₁
  · obtain ⟨s, _, ⟨m, hflush, htable⟩ | ⟨_, e, m, hflush⟩⟩ := flush_cases hp₁ l₁ now
    · cases (hrun.symm.trans hr).trans hflush
      obtain ⟨more, hmore⟩ := hcarries.pending
      refine ⟨more, ?_, hcarries.unpublished⟩
      rw [hmore, ← hcarries.table]
      exact htable
    · cases (hrun.symm.trans hr).trans hflush

/-! ### Flushes -/

end Writer

end DexIndex
