import DexIndex.Proofs.Lists
import DexIndex.Proofs.Writer.Shared

/-!
# Blocks written again

A block may be submitted again and again, with flushes in between and after calls that failed at any
point. The owners that it claims are then known, so that their rows are not held back again
(`Ownership.exists_claimed`), and its other rows only take the place of rows with the same keys:
outside of these the table is at each time the one before the block with some of the new owners
(`Writer.Rewriting`). Once a submission is held back whole, all is as if there had been no other
(`Writer.rewrite_idempotent`).
-/

namespace DexIndex

open BlockEvents

namespace Ownership
variable {known known' own new front front' : List Ownership}

theorem newRows_append (known a b : List Ownership) :
    newRows known (a ++ b) = newRows known a ++ newRows (known ++ a) b := by
  induction a generalizing known with
  | nil => simp [newRows]
  | cons o a ih => simp [newRows, ih]

theorem newRows_congr (h : first? known = first? known') (os : List Ownership) :
    newRows known os = newRows known' os := by
  induction os generalizing known known' with
  | nil => rfl
  | cons o os ih =>
    have hnext : first? (known ++ [o]) = first? (known' ++ [o]) := by
      funext a
      rw [first?_append, h, first?_append]
    rw [newRows, newRows, h, ih hnext]

theorem exists_newRows_eq (known os : List Ownership) :
    ∃ claimed : List Ownership, newRows known os = claimed.map row := by
  have hrows : ∀ r ∈ newRows known os, ∃ o, True ∧ row o = r := by
    intro r hr
    obtain ⟨o, rfl⟩ := eq_row_of_mem_newRows hr
    exact ⟨o, trivial, rfl⟩
  obtain ⟨claimed, hclaimed, _⟩ := Lists.exists_map_eq hrows
  exact ⟨claimed, hclaimed.symm⟩

theorem isSome_first?_of_mem {o : Ownership} {os : List Ownership} (h : o ∈ os) :
    (first? os o.account).isSome := by
  refine Option.ne_none_iff_isSome.mp fun hnone => ?_
  exact not_mem_of_first?_eq_none hnone o.trader h

theorem first?_append_of_known (h : ∀ o ∈ new, (first? known o.account).isSome) :
    first? (known ++ new) = first? known := by
  funext a
  rw [first?_append]
  cases hknown : first? known a with
  | some trader => rfl
  | none =>
    rw [Option.none_or]
    refine Option.eq_none_iff_forall_ne_some.mpr fun trader hnew => ?_
    have hsome := h _ (mem_of_first? hnew)
    rw [hknown] at hsome
    cases hsome

theorem newRows_of_known (h : ∀ o ∈ new, (first? known o.account).isSome) :
    newRows known new = [] := by
  induction new generalizing known with
  | nil => rfl
  | cons o rest ih =>
    obtain ⟨ho, hrest⟩ := List.forall_mem_cons.mp h
    rw [newRows, if_pos ho, List.nil_append]
    refine ih fun o' ho' => ?_
    rw [first?_append, Option.isSome_or, hrest o' ho', Bool.true_or]

theorem known_append (known : List Ownership) {o : Ownership} (h : o ∈ new) :
    (first? (known ++ new) o.account).isSome := by
  rw [first?_append, Option.isSome_or, isSome_first?_of_mem h, Bool.or_true]

/-- To claim two fronts of a list of ownerships one after another is to claim the longer one. -/
theorem exists_claimed (known : List Ownership) (hfront : front <+: own)
    (hfront' : front' <+: own) :
    ∃ all, all <+: own ∧ first? (known ++ front ++ front') = first? (known ++ all) ∧
      newRows known front ++ newRows (known ++ front) front' = newRows known all ∧
      (front' = own → all = own) := by
  rcases List.prefix_or_prefix_of_prefix hfront hfront' with ⟨rest, rfl⟩ | ⟨rest, rfl⟩
  · have hknown := first?_append_of_known fun o (ho : o ∈ front) => known_append known ho
    refine ⟨front ++ rest, hfront', ?_, ?_, id⟩
    · funext a
      rw [← List.append_assoc, first?_append, hknown, ← first?_append, List.append_assoc]
    · rw [newRows_append, newRows_of_known fun o ho => known_append known ho, List.nil_append,
        newRows_congr hknown, ← newRows_append]
  · have hknown : ∀ o ∈ front', (first? (known ++ (front' ++ rest)) o.account).isSome :=
      fun o ho => known_append known (List.mem_append_left rest ho)
    refine ⟨front' ++ rest, hfront, first?_append_of_known hknown, ?_, ?_⟩
    · rw [newRows_of_known hknown, List.append_nil]
    · rintro rfl
      exact List.IsPrefix.eq_of_length_le hfront (by simp)

end Ownership

namespace Writer
variable {w w' : Writer} {l l' : Ledger} {b : BlockEvents} {os : List Ownership} {base : Table}
  {whole : Bool}

/-! ### Submissions -/

/-- A block is submitted again and again, with flushes in between; what the accesses run into is up
to the world. The mark tells whether the last submission was held back whole. -/
inductive Rewrites (b : BlockEvents) (w : Writer) (l : Ledger) : Bool → Writer → Ledger → Prop
  | start : Rewrites b w l false w l
  | world {whole : Bool} {w' : Writer} {l' : Ledger} (h : Rewrites b w l whole w' l') {s : Store}
      (table : s.table = l'.store.table) : Rewrites b w l whole w' { l' with store := s }
  | submit {whole : Bool} {w' : Writer} {l' : Ledger} (h : Rewrites b w l whole w' l')
      (now : Timestamp) :
      Rewrites b w l (isWhole (w'.writeBlock l' b now).1) (w'.writeBlock l' b now).2.1
        (w'.writeBlock l' b now).2.2
  | flush {whole : Bool} {w' : Writer} {l' : Ledger} (h : Rewrites b w l whole w' l')
      (now : Timestamp) : Rewrites b w l whole (w'.flush l' now).2.1 (w'.flush l' now).2.2

/-- What holds while a block is submitted again and again: `base` is the table that all that was
held back before would give, and `os` was named then. -/
structure Rewriting (b : BlockEvents) (os : List Ownership) (base : Table) (whole : Bool)
    (w : Writer) (l : Ledger) : Prop where
  covered : w.Covered l
  accepts : ∀ c, w.buffered = some c → c.slot ≤ b.slot
  claimed : ∃ front, front <+: b.ownerships ∧ l.Names (os ++ front) ∧
    Table.SameBut ((lastRows os b).map (·.1)) (w.ahead l)
      (base.insertAll (Ownership.newRows os front))
  whole : whole → w.ahead l = base.insertAll (heldRows os [b])

namespace Rewriting

theorem start (hc : w.Covered l) (hb : ∀ c, w.buffered = some c → c.slot ≤ b.slot) :
    Rewriting b l.owners (w.ahead l) false w l := by
  refine ⟨hc, hb, ⟨[], List.nil_prefix, ?_, .refl _ _⟩, nofun⟩
  rw [List.append_nil]
  exact l.names_owners

theorem world (h : Rewriting b os base whole w l) {s : Store} (hs : s.table = l.store.table) :
    Rewriting b os base whole w { l with store := s } := by
  obtain ⟨front, hfront, hnames, hsame⟩ := h.claimed
  have hahead : w.ahead { l with store := s } = w.ahead l := congrArg (·.insertAll w.pending) hs
  refine ⟨h.covered, h.accepts, ⟨front, hfront, hnames.withStore hs, hahead ▸ hsame⟩, fun hw => ?_⟩
  rw [hahead, h.whole hw]

theorem flush (h : Rewriting b os base whole w l) (now : Timestamp) :
    Rewriting b os base whole (w.flush l now).2.1 (w.flush l now).2.2 := by
  obtain ⟨front, hfront, hnames, hsame⟩ := h.claimed
  have hflush := flush_flushed h.covered now
  refine ⟨hflush.covered, hflush.buffered ▸ h.accepts, ⟨front, hfront, hflush.names _ hnames, ?_⟩,
    fun hw => ?_⟩
  · rw [hflush.ahead]
    exact hsame
  · rw [hflush.ahead, h.whole hw]

theorem first?_claimed (os : List Ownership) {front : List Ownership}
    (hfront : front <+: b.ownerships) :
    Ownership.first? (os ++ front ++ b.ownerships) = Ownership.first? (os ++ b.ownerships) := by
  obtain ⟨all, _, hfirst, _, hall⟩ :=
    Ownership.exists_claimed os hfront (List.prefix_refl b.ownerships)
  rw [hfirst, hall rfl]

theorem submit (h : Rewriting b os base whole w l) (now : Timestamp) :
    Rewriting b os base (isWhole (w.writeBlock l b now).1) (w.writeBlock l b now).2.1
      (w.writeBlock l b now).2.2 := by
  obtain ⟨front, hfront, hnames, hsame⟩ := h.claimed
  have hsubmitted := writeBlock_submitted h.covered hnames h.accepts now
  generalize w.writeBlock l b now = r at hsubmitted
  obtain ⟨r, w', l'⟩ := r
  have hclaimed := first?_claimed os hfront
  cases hsubmitted with
  | @part _ _ _ claims events cache covered names buffered ahead =>
    obtain ⟨all, hall, hfirst, hrows, _⟩ :=
      Ownership.exists_claimed os hfront (List.take_prefix claims b.ownerships)
    refine ⟨covered, buffered ▸ h.accepts, ⟨all, hall, names.congr hfirst, ?_⟩, nofun⟩
    rw [ahead, Table.insertAll_append, ← hrows, Table.insertAll_append, hclaimed]
    refine (hsame.insertAll _).insertAll_left ?_
    rw [lastRows, List.map_append]
    refine List.subset_append_of_subset_left _ (List.map_subset _ fun r hr => ?_)
    obtain ⟨e, he, hr⟩ := List.mem_flatMap.mp hr
    exact List.mem_flatMap.mpr ⟨e, List.mem_of_mem_take he, hr⟩
  | whole hwhole cache covered names buffered ahead =>
    obtain ⟨all, _, hfirst, hrows, hall⟩ :=
      Ownership.exists_claimed os hfront (List.prefix_refl b.ownerships)
    obtain rfl := hall rfl
    have hlast : lastRows (os ++ front) b = lastRows os b := by
      rw [lastRows, hclaimed, lastRows]
    have heq : w'.ahead l' = base.insertAll (heldRows os [b]) := by
      rw [ahead, heldRows_eq_lastRows, heldRows_eq_lastRows, hlast, Table.insertAll_append,
        Table.insertAll_append, (hsame.insertAll _).insertAll_eq, ← Table.insertAll_append base,
        hrows]
    refine ⟨covered, ?_, ⟨b.ownerships, List.prefix_refl _, names.congr hfirst, ?_⟩, fun _ => heq⟩
    · intro c hc
      obtain rfl := Option.some.inj (buffered.symm.trans hc)
      exact UInt64.le_refl _
    · rw [heq, heldRows_eq_lastRows, Table.insertAll_append]
      exact (Table.SameBut.refl _ _).insertAll_left (List.Subset.refl _)

end Rewriting

theorem Rewrites.rewriting (h : Rewrites b w l whole w' l') (hc : w.Covered l)
    (hb : ∀ c, w.buffered = some c → c.slot ≤ b.slot) :
    Rewriting b l.owners (w.ahead l) whole w' l' := by
  induction h with
  | start => exact .start hc hb
  | world _ table ih => exact ih.world table
  | submit _ now ih => exact ih.submit now
  | flush _ now ih => exact ih.flush now

/-- Submitting a block any number of times, whatever becomes of all calls but the last submission
and a flush in the end, leaves the same table as submitting it once. Each submission that is held
back whole gives the events the same traders and drops the same fills: those of accounts that had no
owner before the block and get none in it. On a store that works, submitting the block once and
flushing does succeed. -/
theorem rewrite_idempotent {ws : List Writer} (hshare : Sharing ws l) (hw : w ∈ ws)
    (hb : ∀ c, w.buffered = some c → c.slot ≤ b.slot) :
    (∀ {w₁ l₁ now d w₂ l₂}, Rewrites b w l true w₁ l₁ → w₁.flush l₁ now = (.ok d, w₂, l₂) →
      ∀ {s : Store} {now₁ r w₃ l₃ now₂ d' w₄ l₄}, s.table = l.store.table →
        w.writeBlock { l with store := s } b now₁ = (r, w₃, l₃) → isWhole r →
        w₃.flush l₃ now₂ = (.ok d', w₄, l₄) → l₂.store.table = l₄.store.table) ∧
    (∀ {whole w₁ l₁ now r w₂ l₂}, Rewrites b w l whole w₁ l₁ →
      w₁.writeBlock l₁ b now = (r, w₂, l₂) → isWhole r →
      let owner := Ownership.first? (l.owners ++ b.ownerships)
      given (r, w₂, l₂) ++ w₂.unpublished = w₁.unpublished ++ b.events.filter (Event.isKept owner) ∧
      ∃ claimed : List Ownership, w₂.ahead l₂ = (w₁.ahead l₁).insertAll
        (claimed.map Ownership.row ++ b.events.flatMap (Event.rowsWith owner) ++
          [(Checkpoint.key, Checkpoint.encode ⟨b.slot, b.slotHash⟩)])) ∧
    (l.Readable → ∀ {s : Store} (now₁ now₂ : Timestamp), s.Faultless →
      s.table = l.store.table →
      ∃ d w₃ l₃ d' w₄ l₄, w.writeBlock { l with store := s } b now₁ = (.ok d, w₃, l₃) ∧
        w₃.flush l₃ now₂ = (.ok d', w₄, l₄)) := by
  have hcovered := hshare.covered w hw
  have htable {whole : Bool} {w₁ w₂ : Writer} {l₁ l₂ : Ledger} {now : Timestamp} {d : List Event}
      (h : Rewrites b w l whole w₁ l₁) (hwhole : whole)
      (hflush : w₁.flush l₁ now = (.ok d, w₂, l₂)) :
      l₂.store.table = (w.ahead l).insertAll (heldRows l.owners [b]) := by
    have hrewriting := h.rewriting hcovered hb
    have hflushed := flush_flushed hrewriting.covered now
    rw [hflush] at hflushed
    have hpending : w₂.pending = [] := by
      obtain ⟨_, _, hpending⟩ | ⟨_, _, hr⟩ := hflushed.ended
      · exact hpending
      · cases hr
    rw [← hrewriting.whole hwhole, ← hflushed.ahead, ahead, hpending, Table.insertAll_nil]
  refine ⟨?_, ?_, fun hreadable s now₁ now₂ hworks hs => ?_⟩
  · intro w₁ l₁ now d w₂ l₂ hmany hflush s now₁ r w₃ l₃ now₂ d' w₄ l₄ hs honce hwhole hflush'
    have hsubmit := (Rewrites.start (b := b) (w := w)).world hs |>.submit now₁
    rw [honce] at hsubmit
    rw [htable hmany rfl hflush, htable hsubmit hwhole hflush']
  · intro whole w₁ l₁ now r w₂ l₂ h hwrite hwhole
    have hrewriting := h.rewriting hcovered hb
    obtain ⟨front, hfront, hnames, _⟩ := hrewriting.claimed
    have hclaimed := Rewriting.first?_claimed l.owners hfront
    have hsubmitted := writeBlock_submitted hrewriting.covered hnames hrewriting.accepts now
    rw [hwrite] at hsubmitted
    cases hsubmitted with
    | part => cases hwhole
    | whole _ _ _ _ _ ahead given =>
      rw [hclaimed] at given
      obtain ⟨claimed, hrows⟩ := Ownership.exists_newRows_eq (l.owners ++ front) b.ownerships
      refine ⟨given, claimed, ?_⟩
      rw [ahead, heldRows_singleton, indexRows, hrows, hclaimed]
      rfl
  · exact exists_written_of_readable (l := { l with store := s }) hworks (hreadable.withStore hs)
      hb now₁ now₂

end Writer

namespace Rewritten

def key (n : UInt8) : PublicKey := ⟨List.replicate 31 0 ++ [n], rfl⟩

def filled (account : UInt8) : Event :=
  ⟨⟨⟨key 0, 6⟩, ⟨7, account.toUInt64, 0⟩, "", .epoch⟩,
    .fill (key account) ⟨.bid, false, 1, 1, 0, 0, 0, 0, ""⟩⟩

/-- The account 3 has no owner. -/
def block : BlockEvents := ⟨7, "", .epoch, [filled 1, filled 3], [⟨key 1, key 2⟩], 0⟩

/-- A writer that does not retry. -/
def writer : Writer := .resume (.make 10 0) { FlushPolicy.default with maxRetries := 0 } none

def ledger (reads : List (Option StoreError)) : Ledger :=
  .ofStore { Store.ofTable .empty with reads }

/-- The look-up of the account 3 fails. -/
def broken := writer.writeBlock (ledger [none, some (.connection "gone")]) block .epoch

def whole := broken.2.1.writeBlock broken.2.2 block .epoch

/-- A flush times out although its batch was written. -/
def failed := whole.2.1.flush { whole.2.2 with store.writes := [.hangs true] } .epoch

def flushed := failed.2.1.flush failed.2.2 .epoch

def once := writer.writeBlock (ledger []) block .epoch

def onceFlushed := once.2.1.flush once.2.2 .epoch

end Rewritten

open Rewritten in
/-- The fill of the account 1 stays with its trader, and that of the account 3 is dropped. -/
theorem Writer.rewrite_idempotent_of_outage :
    Sharing [writer] (ledger []) ∧ (∀ c, writer.buffered = some c → c.slot ≤ block.slot) ∧
    (ledger []).Readable ∧ (∃ d, once.1 = .ok d) ∧
    broken.1 = .error (.store (.connection "gone")) ∧ isWhole whole.1 ∧ ¬ failed.1.isOk ∧
    flushed.2.2.store.table = onceFlushed.2.2.store.table ∧
    onceFlushed.2.2.store.table.size = 6 ∧
    given whole ++ whole.2.1.unpublished = broken.2.1.unpublished ++ [filled 1] := by
  have hshare : Sharing [writer] (ledger []) := (Sharing.start _).join _ _ _
  have hb : ∀ c, writer.buffered = some c → c.slot ≤ block.slot := nofun
  have hreadable : (ledger []).Readable := fun _ _ _ h => by cases h
  have hgone : Rewrites block writer (ledger []) false writer
      (ledger [none, some (.connection "gone")]) := Rewrites.start.world (l := ledger []) rfl
  have hbroken : Rewrites block writer (ledger []) false broken.2.1 broken.2.2 :=
    hgone.submit .epoch
  have hwhole : Rewrites block writer (ledger []) true whole.2.1 whole.2.2 := hbroken.submit .epoch
  have hslow : Rewrites block writer (ledger []) true whole.2.1
      { whole.2.2 with store.writes := [.hangs true] } := hwhole.world rfl
  have hfailed : Rewrites block writer (ledger []) true failed.2.1 failed.2.2 := hslow.flush .epoch
  have hflushed : failed.2.1.flush failed.2.2 .epoch =
      (.ok [filled 1, filled 1], flushed.2.1, flushed.2.2) := Prod.ext (by decide +kernel) rfl
  have honce : writer.writeBlock { ledger [] with store := (ledger []).store } block .epoch =
      (once.1, once.2.1, once.2.2) := rfl
  have honceFlushed : once.2.1.flush once.2.2 .epoch =
      (.ok [filled 1], onceFlushed.2.1, onceFlushed.2.2) := Prod.ext (by decide +kernel) rfl
  obtain ⟨htable, howner, hworks⟩ := rewrite_idempotent hshare List.mem_cons_self hb
  obtain ⟨d, _, _, _, _, _, hwritten, _⟩ :=
    hworks hreadable .epoch .epoch (s := (ledger []).store) ⟨rfl, rfl⟩ rfl
  refine ⟨hshare, hb, hreadable, ⟨d, congrArg Prod.fst hwritten⟩, by decide +kernel,
    by decide +kernel, by decide +kernel,
    htable hfailed hflushed rfl honce (by decide +kernel) honceFlushed, by decide +kernel, ?_⟩
  have hagain : broken.2.1.writeBlock broken.2.2 block .epoch =
      (whole.1, whole.2.1, whole.2.2) := rfl
  obtain ⟨hgiven, _⟩ := howner hbroken hagain (by decide +kernel)
  refine hgiven.trans (congrArg _ ?_)
  decide +kernel

end DexIndex
