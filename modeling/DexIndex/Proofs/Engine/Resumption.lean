import DexIndex.Proofs.Engine.Execution

/-!
# Resuming after crashes

An execution that feeds the blocks of a source to its engines, each engine from the checkpoint it
starts on (`Execution.Feeds`), accepts the same blocks as an engine that gets the whole source
(`Block.accepted`), whatever was lost in between. When it has come to the end of the source and has shut
down, its table is the one that an uninterrupted run leaves (`Execution.resumed_eq_uninterrupted`).
-/

namespace DexIndex

open BlockEvents
open Engine (Call)

/-! ### The blocks that a source gives -/

namespace Block

/-- The blocks of a source that an engine accepts after a slot: each one that is above all accepted
before. -/
def accepted (programs : List PublicKey) : Option UInt64 → List Block → List BlockEvents
  | _, [] => []
  | last, b :: rest =>
    if last.any (b.number ≤ ·) then accepted programs last rest
    else
      match b.extract programs with
      | .ok x => x :: accepted programs (some b.number) rest
      | .error _ => accepted programs last rest

/-- The blocks of a source above a slot. -/
def above (last : Option UInt64) (source : List Block) : List Block :=
  source.filter fun b => last.all (· < b.number)

variable {programs : List PublicKey}

theorem accepted_cons_of_le {last : Option UInt64} {b : Block} (h : last.any (b.number ≤ ·))
    (rest : List Block) : accepted programs last (b :: rest) = accepted programs last rest := by
  rw [accepted, if_pos h]

theorem accepted_cons_of_ok {last : Option UInt64} {b : Block} (h : ¬ last.any (b.number ≤ ·))
    {x : BlockEvents} (hx : b.extract programs = .ok x) (rest : List Block) :
    accepted programs last (b :: rest) = x :: accepted programs (some x.slot) rest := by
  rw [accepted, if_neg h, hx, slot_of_extract hx]

theorem accepted_cons_of_error {last : Option UInt64} {b : Block} {err : ExtractError}
    (hx : b.extract programs = .error err) (rest : List Block) :
    accepted programs last (b :: rest) = accepted programs last rest := by
  rw [accepted, hx, ite_self]

theorem accepted_cons_cases (programs : List PublicKey) (last : Option UInt64) (b : Block) :
    (last.any (b.number ≤ ·)) ∨
    (¬ last.any (b.number ≤ ·) ∧ ∃ x, b.extract programs = .ok x ∧ x.slot = b.number) ∨
    (∃ err, b.extract programs = .error err) := by
  by_cases h : last.any (b.number ≤ ·)
  · exact .inl h
  · cases hx : b.extract programs with
    | ok x => exact .inr (.inl ⟨h, x, rfl, slot_of_extract hx⟩)
    | error err => exact .inr (.inr ⟨err, rfl⟩)

theorem lt_of_mem_accepted {last : UInt64} {source : List Block} {x : BlockEvents}
    (h : x ∈ accepted programs (some last) source) : last < x.slot := by
  induction source generalizing last with
  | nil => simp [accepted] at h
  | cons b rest ih =>
    rcases accepted_cons_cases programs (some last) b with hle | ⟨hlt, y, hy, hslot⟩ | ⟨err, hy⟩
    · exact ih (accepted_cons_of_le hle rest ▸ h)
    · rw [accepted_cons_of_ok hlt hy] at h
      have hlast : last < y.slot := by simpa [hslot] using hlt
      rcases List.mem_cons.mp h with rfl | h
      · exact hlast
      · exact UInt64.lt_trans hlast (ih h)
    · exact ih (accepted_cons_of_error hy rest ▸ h)

theorem ordered_accepted (last : Option UInt64) (source : List Block) :
    (accepted programs last source).Pairwise (·.slot < ·.slot) := by
  induction source generalizing last with
  | nil => exact .nil
  | cons b rest ih =>
    rcases accepted_cons_cases programs last b with hle | ⟨hlt, y, hy, _⟩ | ⟨err, hy⟩
    · rw [accepted_cons_of_le hle]
      exact ih last
    · rw [accepted_cons_of_ok hlt hy]
      exact List.pairwise_cons.mpr ⟨fun x hx => lt_of_mem_accepted hx, ih _⟩
    · rw [accepted_cons_of_error hy]
      exact ih last

theorem above_cons_of_lt {slot : UInt64} {b : Block} (h : slot < b.number) (rest : List Block) :
    above (some slot) (b :: rest) = b :: above (some slot) rest := by
  simp [above, h]

theorem above_cons_of_le {slot : UInt64} {b : Block} (h : b.number ≤ slot) (rest : List Block) :
    above (some slot) (b :: rest) = above (some slot) rest := by
  simp [above, UInt64.not_lt.mpr h]

/-- What lies below the last slot accepted is skipped anyway. -/
theorem accepted_above {slot last : UInt64} (h : slot ≤ last) (source : List Block) :
    accepted programs (some last) (above (some slot) source) =
      accepted programs (some last) source := by
  induction source generalizing last with
  | nil => rfl
  | cons b rest ih =>
    by_cases hb : slot < b.number
    · rw [above_cons_of_lt hb]
      rcases accepted_cons_cases programs (some last) b with hle | ⟨hlt, y, hy, hslot⟩ | ⟨err, hy⟩
      · rw [accepted_cons_of_le hle, accepted_cons_of_le hle, ih h]
      · rw [accepted_cons_of_ok hlt hy, accepted_cons_of_ok hlt hy, ih]
        exact hslot ▸ UInt64.le_of_lt hb
      · rw [accepted_cons_of_error hy, accepted_cons_of_error hy, ih h]
    · have hle : b.number ≤ slot := UInt64.not_lt.mp hb
      rw [above_cons_of_le hle, ih h, accepted_cons_of_le]
      simpa using UInt64.le_trans hle h

theorem accepted_resumed {last : Option UInt64} {source : List Block} {x : BlockEvents}
    (hx : x ∈ accepted programs last source) :
    accepted programs (some x.slot) (above (some x.slot) source) =
      (accepted programs last source).filter (x.slot < ·.slot) := by
  induction source generalizing last with
  | nil => rfl
  | cons b rest ih =>
    rcases accepted_cons_cases programs last b with hle | ⟨hlt, y, hy, hslot⟩ | ⟨err, hy⟩
    · rw [accepted_cons_of_le hle] at hx ⊢
      have hlt : b.number ≤ x.slot := by
        cases last with
        | none => simp at hle
        | some l => exact UInt64.le_trans (by simpa using hle) (UInt64.le_of_lt (lt_of_mem_accepted hx))
      rw [above_cons_of_le hlt, ih hx]
    · rw [accepted_cons_of_ok hlt hy] at hx ⊢
      have hle : y.slot ≤ x.slot := by
        rcases List.mem_cons.mp hx with rfl | hx
        · exact UInt64.le_refl _
        · exact UInt64.le_of_lt (lt_of_mem_accepted hx)
      rw [above_cons_of_le (hslot ▸ hle), List.filter_cons_of_neg (by simpa using hle)]
      rcases List.mem_cons.mp hx with rfl | hx
      · rw [accepted_above (UInt64.le_refl _), List.filter_eq_self.mpr]
        exact fun z hz => by simpa using lt_of_mem_accepted hz
      · exact ih hx
    · rw [accepted_cons_of_error hy] at hx ⊢
      by_cases hb : x.slot < b.number
      · rw [above_cons_of_lt hb, accepted_cons_of_error hy, ih hx]
      · rw [above_cons_of_le (UInt64.not_lt.mp hb), ih hx]

/-- The blocks accepted before and those that the source gives then are all of them. -/
theorem append_accepted_above {source : List Block} {bs : List BlockEvents}
    (h : bs <+: accepted programs none source) :
    bs ++ accepted programs ((lastCheckpoint? bs).map (·.slot))
      (above ((lastCheckpoint? bs).map (·.slot)) source) = accepted programs none source := by
  obtain ⟨rest, hrest⟩ := h
  have ho : (bs ++ rest).Pairwise (·.slot < ·.slot) := hrest ▸ ordered_accepted none source
  obtain ⟨hbs, _, hlt⟩ := List.pairwise_append.mp ho
  cases hc : lastCheckpoint? bs with
  | none =>
    obtain rfl : bs = [] := by simpa [lastCheckpoint?] using hc
    simp [above]
  | some c =>
    obtain ⟨l, hl, rfl⟩ := mem_of_lastCheckpoint? hc
    have hmem : l ∈ accepted programs none source := hrest ▸ List.mem_append_left _ hl
    have hresumed := accepted_resumed hmem
    rw [← hrest, List.filter_append, List.filter_eq_nil_iff.mpr, List.filter_eq_self.mpr,
      List.nil_append] at hresumed
    · rw [← hrest]
      exact congrArg (bs ++ ·) hresumed
    · exact fun b hb => by simpa using hlt l hl b hb
    · intro b hb
      obtain ⟨c, hc', hle⟩ := slot_le_last hbs hb
      cases hc.symm.trans hc'
      simpa [Writer.blockCheckpoint] using hle

end Block

theorem Engine.accepted_cons (e : Engine) (b : Block) (rest : List Block) :
    Block.accepted e.programs e.lastSlot (b :: rest) =
      (e.accepted? b).toList ++ Block.accepted e.programs
        (((e.accepted? b).map (·.slot)).or e.lastSlot) rest := by
  unfold Engine.accepted? Engine.isProcessed
  rcases Block.accepted_cons_cases e.programs e.lastSlot b with hle | ⟨hlt, x, hx, _⟩ | ⟨err, hx⟩
  · rw [Block.accepted_cons_of_le hle, if_pos hle]
    rfl
  · rw [Block.accepted_cons_of_ok hlt hx, if_neg hlt, hx]
    rfl
  · rw [Block.accepted_cons_of_error hx, hx]
    simp [Except.toOption]

theorem Engine.Tracks.accepted_cons {e : Engine} {stored held : List BlockEvents}
    (h : e.Tracks stored held) (b : Block) (rest : List Block) :
    Block.accepted e.programs e.lastSlot (b :: rest) =
      (e.accepted? b).toList ++ Block.accepted e.programs
        ((lastCheckpoint? (stored ++ held ++ (e.accepted? b).toList)).map (·.slot)) rest := by
  rw [Engine.accepted_cons]
  cases e.accepted? b with
  | none =>
    rw [Option.toList_none, List.append_nil, ← h.lastSlot]
    rfl
  | some x =>
    rw [Option.toList_some, lastCheckpoint?_append_singleton]
    rfl

namespace Execution

/-- Executions that feed a source to engines for the same programs, and the blocks that are still to
be fed. An engine that is started gets the blocks above the checkpoint in the table. -/
inductive Feeds (programs : List PublicKey) (source : List Block) : Execution → List Block → Prop
  | init : Feeds programs source init source
  | start {x : Execution} {rest : List Block} (h : Feeds programs source x rest)
      (lost : ¬ x.standing.isUp) {config : Config} (hc : config.programs = .ok programs)
      (f : Faults) :
      Feeds programs source (x.step (.start config f))
        (Block.above (x.table.checkpoint?.map (·.slot)) source)
  | next {x : Execution} {b : Block} {rest : List Block} (h : Feeds programs source x (b :: rest))
      (now : Timestamp) (f : Faults) :
      Feeds programs source (x.step (.call (.process b now) f)) rest
  | shutdown {x : Execution} {rest : List Block} (h : Feeds programs source x rest)
      (now : Timestamp) (f : Faults) :
      Feeds programs source (x.step (.call (.shutdown now) f)) rest
  | kill {x : Execution} {rest : List Block} (h : Feeds programs source x rest) :
      Feeds programs source (x.step .kill) rest
  | killNext {x : Execution} {b : Block} {rest : List Block}
      (h : Feeds programs source x (b :: rest)) (now : Timestamp) (f : Faults) (retries : UInt32) :
      Feeds programs source (x.step (.killDuring (.process b now) f retries)) rest
  | killShutdown {x : Execution} {rest : List Block} (h : Feeds programs source x rest)
      (now : Timestamp) (f : Faults) (retries : UInt32) :
      Feeds programs source (x.step (.killDuring (.shutdown now) f retries)) rest

/-- An execution that has accepted the first blocks of `all`, and whose engine, if it is up, will
accept the others from `rest`. -/
structure OnTrack (programs : List PublicKey) (all : List BlockEvents) (x : Execution)
    (rest : List Block) : Prop where
  sound : ∃ stored, x.Sound stored
  accepted : x.accepted <+: all
  up : ∀ e, x.standing = .up e → e.programs = programs ∧
    x.accepted ++ Block.accepted programs e.lastSlot rest = all

namespace OnTrack
variable {programs : List PublicKey} {all : List BlockEvents} {x : Execution} {rest : List Block}

theorem accepted_lose {bs : List BlockEvents} (ho : all.Pairwise (·.slot < ·.slot)) (h : bs <+: all)
    (s : Standing) : (lose bs s).accepted <+: all :=
  (prefix_upTo (ho.sublist h.sublist) _).trans h

theorem start_tableOf {source : List Block} {config : Config} {bs : List BlockEvents}
    (hp : bs <+: Block.accepted programs none source) (hc : config.programs = .ok programs)
    (f : Faults) :
    OnTrack programs (Block.accepted programs none source)
      (Execution.start (tableOf bs) bs config f)
      (Block.above ((lastCheckpoint? bs).map (·.slot)) source) := by
  have ho := (Block.ordered_accepted none source).sublist hp.sublist
  have hsound := Sound.start ho config f
  unfold Execution.start at hsound ⊢
  obtain ⟨e, hstart, htracks, hprograms, _⟩ | ⟨err, s, hstart, _⟩ :=
    Engine.start_cases config (s := f.store (tableOf bs)) rfl ho
  · rw [hstart] at hsound ⊢
    refine ⟨⟨bs, hsound⟩, hp, ?_⟩
    rintro _ ⟨⟩
    refine ⟨Except.ok.inj (hprograms.symm.trans hc), ?_⟩
    rw [htracks.lastSlot, List.append_nil]
    exact Block.append_accepted_above hp
  · rw [hstart] at hsound ⊢
    exact ⟨⟨bs, hsound⟩, hp, fun e he => Standing.noConfusion he⟩

theorem start {source : List Block} {config : Config}
    (h : OnTrack programs (Block.accepted programs none source) x rest)
    (lost : ¬ x.standing.isUp) (hc : config.programs = .ok programs) (f : Faults) :
    OnTrack programs (Block.accepted programs none source) (x.step (.start config f))
      (Block.above (x.table.checkpoint?.map (·.slot)) source) := by
  obtain ⟨stored, hsound⟩ := h.sound
  rw [hsound.checkpoint?]
  cases hsound with
  | down ho => exact start_tableOf h.accepted hc f
  | up ht => exact absurd rfl lost
  | @failed e known _ ho ht =>
    have hstart := start_tableOf h.accepted hc f
    rw [← ht] at hstart
    exact hstart

theorem call (ho : all.Pairwise (·.slot < ·.slot)) (h : OnTrack programs all x rest) {c : Call}
    {rest' : List Block}
    (hc : ∀ {e stored held}, e.Tracks stored held → e.programs = programs →
      Block.accepted programs e.lastSlot rest = c.accepted e ++ Block.accepted programs
        ((lastCheckpoint? (stored ++ held ++ c.accepted e)).map (·.slot)) rest')
    (f : Faults) :
    OnTrack programs all (x.step (.call c f)) rest' ∧
      ∀ retries, OnTrack programs all (x.step (.killDuring c f retries)) rest' := by
  obtain ⟨stored, hsound⟩ := h.sound
  have hsound' (a : Action) : ∃ stored, (x.step a).Sound stored :=
    let ⟨stored', h', _⟩ := hsound.step a
    ⟨stored', h'⟩
  cases hsound with
  | down =>
    exact ⟨⟨hsound' _, h.accepted, fun e he => Standing.noConfusion he⟩,
      fun _ => ⟨hsound' _, h.accepted, fun e he => Standing.noConfusion he⟩⟩
  | failed =>
    exact ⟨⟨hsound' _, h.accepted, fun e he => Standing.noConfusion he⟩,
      fun _ => ⟨hsound' _, h.accepted, fun e he => Standing.noConfusion he⟩⟩
  | @up e _ held tracks =>
    obtain ⟨hprograms, hall⟩ := h.up e rfl
    rw [hc tracks hprograms, ← List.append_assoc] at hall
    have hp : stored ++ held ++ c.accepted e <+: all := ⟨_, hall⟩
    refine ⟨?_, fun retries => ⟨hsound' _, accepted_lose ho hp _,
      fun e he => Standing.noConfusion he⟩⟩
    have hended := (tracks.withFaults f).call c
    have hstep : Execution.step ⟨.up e, stored ++ held⟩ (.call c f) =
        finish (stored ++ held ++ c.accepted e) (c.run (e.withFaults f)) := rfl
    have hs := hsound' (.call c f)
    rw [hstep] at hs ⊢
    generalize c.run (e.withFaults f) = r at hended hs
    obtain ⟨err | ⟨⟩, e'⟩ := r
    · exact ⟨hs, accepted_lose ho hp _, fun e he => Standing.noConfusion he⟩
    · obtain ⟨stored', held', htracks, heq, hprograms', _⟩ := hended.tracks
      refine ⟨hs, hp, ?_⟩
      rintro _ ⟨⟩
      refine ⟨hprograms'.trans hprograms, ?_⟩
      rw [htracks.lastSlot, heq]
      exact hall

theorem kill (ho : all.Pairwise (·.slot < ·.slot)) (h : OnTrack programs all x rest) :
    OnTrack programs all (x.step .kill) rest := by
  obtain ⟨stored, hsound⟩ := h.sound
  obtain ⟨stored', hsound', _⟩ := hsound.step .kill
  have hstep : x.step .kill = lose x.accepted (.down x.table) := by
    obtain ⟨s, accepted⟩ := x
    cases s <;> rfl
  refine ⟨⟨stored', hsound'⟩, ?_, ?_⟩
  · rw [hstep]
    exact accepted_lose ho h.accepted _
  · rw [hstep]
    exact fun e he => Standing.noConfusion he

end OnTrack

theorem Feeds.onTrack {programs : List PublicKey} {source : List Block} {x : Execution}
    {rest : List Block} (h : Feeds programs source x rest) :
    OnTrack programs (Block.accepted programs none source) x rest := by
  have ho : (Block.accepted programs none source).Pairwise (·.slot < ·.slot) :=
    Block.ordered_accepted none source
  have hnext {e : Engine} {stored held : List BlockEvents} (ht : e.Tracks stored held)
      (hp : e.programs = programs) (b : Block) (rest : List Block) (now : Timestamp) :=
    hp ▸ ht.accepted_cons b rest
  have hshut {e : Engine} {stored held : List BlockEvents} (ht : e.Tracks stored held)
      (rest : List Block) (now : Timestamp) :
      Block.accepted programs e.lastSlot rest = (Call.shutdown now).accepted e ++
        Block.accepted programs ((lastCheckpoint? (stored ++ held ++
          (Call.shutdown now).accepted e)).map (·.slot)) rest := by
    simp [Call.accepted, ht.lastSlot]
  induction h with
  | init =>
    exact ⟨⟨[], .down .nil⟩, List.nil_prefix, fun e he => Standing.noConfusion he⟩
  | start _ lost hc f ih => exact ih.start lost hc f
  | next _ now f ih => exact (ih.call ho (fun ht hp => hnext ht hp _ _ now) f).1
  | shutdown _ now f ih => exact (ih.call ho (fun ht _ => hshut ht _ now) f).1
  | kill _ ih =>
    exact ih.kill ho
  | killNext _ now f retries ih => exact (ih.call ho (fun ht hp => hnext ht hp _ _ now) f).2 retries
  | killShutdown _ now f retries ih => exact (ih.call ho (fun ht _ => hshut ht _ now) f).2 retries

end Execution

namespace Engine

theorem runFrom_nil {σ : Type} (clock : StateM σ Timestamp) (stopping : StateM σ Bool) (e : Engine)
    (n : Nat) (s : σ) :
    (e.runFrom clock stopping n []).run s = (e.finish n (clock.run s).1, (clock.run s).2) := rfl

theorem runFrom_cons {σ : Type} (clock : StateM σ Timestamp) (e : Engine) (n : Nat) (b : Block)
    (rest : List (Except BlockFileError Block)) (s : σ) :
    (e.runFrom clock (pure false) n (.ok b :: rest)).run s =
      match e.processBlock b (clock.run s).1 with
      | (.error err, e) => ((.error err, e), (clock.run s).2)
      | (.ok (), e) => (e.runFrom clock (pure false) (n + 1) rest).run (clock.run s).2 := by
  rw [Engine.runFrom]
  simp only [StateT.run_bind, StateT.run_pure]
  change StateT.run (match e.processBlock b (clock.run s).1 with
    | (.error err, e) => pure (.error err, e)
    | (.ok (), e) => Engine.runFrom clock (pure false) e (n + 1) rest) (clock.run s).2 = _
  split <;> rfl

theorem Tracks.runFrom {σ : Type} (clock : StateM σ Timestamp) (source : List Block)
    {e : Engine} {stored held : List BlockEvents} (h : e.Tracks stored held)
    (n : Nat) (s : σ) :
    ∃ r e' s', (e.runFrom clock (pure false) n (source.map .ok)).run s = ((r, e'), s') ∧
      (∀ m, r = .ok m →
        e'.table = tableOf (stored ++ held ++ Block.accepted e.programs e.lastSlot source)) ∧
      (e.ledger.store.Faultless → (∀ b ∈ source, ∃ x, b.extract e.programs = .ok x) →
        ∃ m, r = .ok m) := by
  induction source generalizing e stored held n s with
  | nil =>
    rw [List.map_nil, runFrom_nil, Engine.finish]
    rcases h.shutdown_cases (clock.run s).1 with
      ⟨e', hr, ht, _, _⟩ | ⟨fault, err, e', hr, _, _⟩
    · rw [hr]
      refine ⟨_, _, _, rfl, fun m _ => ?_, fun _ _ => ⟨n, rfl⟩⟩
      rw [Block.accepted, List.append_nil]
      exact ht.table
    · rw [hr]
      exact ⟨_, _, _, rfl, nofun, fun hf => absurd hf fault⟩
  | cons b rest ih =>
    rw [List.map_cons, runFrom_cons, h.accepted_cons b rest, ← List.append_assoc]
    have hended := h.processBlock b (clock.run s).1
    generalize e.processBlock b (clock.run s).1 = r at hended
    obtain ⟨err | ⟨⟩, e'⟩ := r
    · cases hended with
      | failed fault =>
        exact ⟨_, _, _, rfl, nofun, fun hf hx => absurd ⟨hf, hx b List.mem_cons_self⟩ fault⟩
    · obtain ⟨stored', held', htracks, heq, hprograms, hclean⟩ := hended.tracks
      obtain ⟨r, e₂, s', hrun, hok, hsome⟩ := ih htracks (n + 1) (clock.run s).2
      refine ⟨r, e₂, s', hrun, fun m hm => ?_, fun hf hx => ?_⟩
      · rw [hok m hm, htracks.lastSlot, hprograms, heq]
      · refine hsome (hclean hf) fun b' hb' => ?_
        rw [hprograms]
        exact hx b' (List.mem_cons_of_mem _ hb')

theorem runFrom_start {programs : List PublicKey} {config : Config} {f : Faults}
    {e : Engine} (hc : config.programs = .ok programs)
    (hstart : start config (f.store .empty) = .ok e) :
    e.Tracks [] [] ∧ e.programs = programs ∧
      ((f.store .empty).Faultless → e.ledger.store.Faultless) := by
  obtain ⟨e', hstart', htracks, hp, hf⟩ | ⟨err, s, hstart', _⟩ :=
    start_cases config (show (f.store .empty).table = tableOf [] from rfl) .nil
  · cases hstart'.symm.trans hstart
    exact ⟨htracks, Except.ok.inj (hp.symm.trans hc), hf⟩
  · cases hstart'.symm.trans hstart

end Engine

namespace Execution

variable {programs : List PublicKey} {source : List Block}

theorem Feeds.table_of_shutdown {x : Execution} (h : Feeds programs source x []) {now : Timestamp}
    {f : Faults} {e : Engine} (hend : (x.step (.call (.shutdown now) f)).standing = .up e) :
    e.table = tableOf (Block.accepted programs none source) := by
  have hon := h.onTrack
  obtain ⟨stored, hsound⟩ := hon.sound
  cases hsound with
  | down => exact Standing.noConfusion hend
  | failed => exact Standing.noConfusion hend
  | @up e₁ _ held tracks =>
    obtain ⟨_, hall⟩ := hon.up e₁ rfl
    rw [Block.accepted, List.append_nil] at hall
    have hfinish : (finish (stored ++ held ++ []) ((e₁.withFaults f).shutdown now)).standing =
      .up e := hend
    rcases (tracks.withFaults f).shutdown_cases now with ⟨e₂, hr, ht, _⟩ | ⟨_, err, e₂, hr, _⟩
    · rw [hr] at hfinish
      cases hfinish
      rw [← hall]
      exact ht.table
    · rw [hr] at hfinish
      exact Standing.noConfusion hfinish

/-- However often an execution was interrupted, once it has come to the end of its source and has
shut down, its table is the one that any uninterrupted run over the source leaves; and where no access
fails there is such a run. -/
theorem resumed_eq_uninterrupted (hsource : ∀ b ∈ source, ∃ x, b.extract programs = .ok x)
    {x : Execution} (h : Feeds programs source x []) {now : Timestamp} {f : Faults} {e : Engine}
    (hend : (x.step (.call (.shutdown now) f)).standing = .up e) :
    (∀ (config : Config) (f' : Faults) e₀, config.programs = .ok programs →
      Engine.start config (f'.store .empty) = .ok e₀ →
      ∀ (σ : Type) (clock : StateM σ Timestamp) (s s' : σ) n e',
        (e₀.run clock (pure false) (source.map .ok)).run s = ((.ok n, e'), s') →
          e'.table = e.table) ∧
    (∀ config : Config, config.Usable programs →
      ∀ (σ : Type) (clock : StateM σ Timestamp) (s : σ), ∃ e₀ n e' s',
        Engine.start config (.ofTable .empty) = .ok e₀ ∧
        (e₀.run clock (pure false) (source.map .ok)).run s = ((.ok n, e'), s')) := by
  rw [h.table_of_shutdown hend]
  constructor
  · intro config f' e₀ hc hstart σ clock s s' n e' hrun
    obtain ⟨htracks, hp, _⟩ := Engine.runFrom_start hc hstart
    obtain ⟨r, e₁, s₁, hrun', hok, _⟩ := htracks.runFrom clock source 0 s
    cases hrun'.symm.trans hrun
    rw [hok n rfl, hp, htracks.lastSlot]
    rfl
  · intro config hu σ clock s
    obtain ⟨e₀, hstart, htracks, hp, hf⟩ | ⟨_, _, _, _, hunusable⟩ :=
      Engine.start_cases config (show (Store.ofTable .empty).table = tableOf [] from rfl) .nil
    · have hprograms : e₀.programs = programs := Except.ok.inj (hp.symm.trans hu.programs)
      obtain ⟨r, e₁, s₁, hrun, _, hsome⟩ := htracks.runFrom clock source 0 s
      obtain ⟨n, rfl⟩ := hsome (hf ⟨rfl, rfl⟩) (hprograms ▸ hsource)
      exact ⟨e₀, n, e₁, s₁, hstart, hrun⟩
    · exact absurd hu (hunusable ⟨rfl, rfl⟩ programs)

/-- A configuration for one program that flushes every `interval` slots. -/
def sampleConfig (interval : UInt64) : Config :=
  { Config.default with
    programIds := ["11111111111111111111111111111111"]
    flushInterval := interval
    nearHeadThresholdSecs := 0 }

def sampleProgram : PublicKey := ⟨List.replicate 32 0, rfl⟩

def sampleKey (n : UInt8) : PublicKey := ⟨0 :: List.replicate 31 n, rfl⟩

def sampleQueue : EventQueue :=
  { header := { flags := 0x11, head := 0, count := 1, seq := 1 }, capacity := 1
    entries := [
      { flags := 0x05, ownerSlot := 0, feeTier := 0, nativeQtyReleased := 1, nativeQtyPaid := 0
        nativeFeeOrRebate := 0, orderId := .make 7 .bid 6, owner := sampleKey 1
        clientOrderId := 0 }] }

/-- An order that is placed for an account fills one of the account 1. -/
def sampleBlock (slot : UInt64) (account owner : UInt8) : Block :=
  { number := slot, id := "", previousId := "", timestamp := .epoch
    transactions := [
      { id := "", index := 0, failed := false, header := ⟨0, 0, 1⟩
        keys := [sampleKey 7, sampleKey account, sampleKey 8, sampleKey 9, sampleKey owner,
          sampleProgram]
        invocations := [
          { program := 5, accounts := [0, 1, 2, 3, 0, 0, 0, 4]
            data := (Instruction.newOrderV3 ⟨.bid, 7, 3, .limit, 0⟩).encode
            changes := [⟨sampleKey 9, [], sampleQueue.encode⟩] }] }] }

def sampleFill (slot : UInt64) : Event :=
  ⟨⟨⟨sampleKey 7, 6⟩, ⟨slot, 0, 0⟩, "", .epoch⟩,
    .fill (sampleKey 1) ⟨.bid, false, 7, 1, 0, 0, 0, 0, ""⟩⟩

/-- Only the first block names the owner of the account 1. -/
def sampleSource : List Block := [sampleBlock 3 1 4, sampleBlock 4 2 5]

theorem sampleConfig_usable {interval : UInt64} (h : interval = 1 ∨ interval = 3) :
    (sampleConfig interval).Usable [sampleProgram] := by
  have hvalid : (sampleConfig interval).validate.toOption = some () := by
    rcases h with rfl | rfl <;> decide +kernel
  have hprograms : (sampleConfig interval).programs.toOption = some [sampleProgram] := by
    rcases h with rfl | rfl <;> decide +kernel
  exact ⟨Results.toOption_eq_some.mp hvalid, Results.toOption_eq_some.mp hprograms, rfl⟩

/-- The engine is lost while it holds back the second block. -/
def sampleLost : Execution :=
  run [.start (sampleConfig 3) ⟨[], []⟩, .call (.process (sampleBlock 3 1 4) .epoch) ⟨[], []⟩,
    .call (.process (sampleBlock 4 2 5) .epoch) ⟨[], []⟩, .kill]

/-- The next engine gets the second block again. -/
def sampleFed : Execution :=
  [.start (sampleConfig 3) ⟨[], []⟩, .call (.process (sampleBlock 4 2 5) .epoch) ⟨[], []⟩].foldl step
    sampleLost

/-- The attempt of the last flush is made twice. -/
def sampleEnded : Execution := sampleFed.step (.call (.shutdown .epoch) ⟨[], [.hangs true]⟩)

/-- The fill in the second block is lost, and then written for the owner that the first block names. -/
theorem resumed_eq_uninterrupted_after_loss :
    sampleLost.table.get? (OrderEventKey.ofEvent (sampleFill 4)).encode = none ∧
    sampleEnded.table.get? (OrderEventKey.ofEvent (sampleFill 4)).encode =
      some (StoredEvent.ofEvent (sampleFill 4) (some (sampleKey 4))).encode ∧
    ∃ (e e₀ e' : Engine) (n : Nat), Feeds [sampleProgram] sampleSource sampleFed [] ∧
      sampleEnded.standing = .up e ∧
      Engine.start (sampleConfig 1) (.ofTable .empty) = .ok e₀ ∧
      (e₀.run (pure .epoch : StateM Unit Timestamp) (pure false) (sampleSource.map .ok)).run () =
        ((.ok n, e'), ()) ∧
      e'.table = e.table := by
  have hc := (sampleConfig_usable (.inr rfl)).programs
  have hsource : ∀ b ∈ sampleSource, ∃ x, b.extract [sampleProgram] = .ok x := by
    have hextracts : ∀ b ∈ sampleSource, (b.extract [sampleProgram]).toOption.isSome := by
      decide +kernel
    intro b hb
    obtain ⟨x, hx⟩ := Option.isSome_iff_exists.mp (hextracts b hb)
    exact ⟨x, Results.toOption_eq_some.mp hx⟩
  have hlost : Feeds [sampleProgram] sampleSource sampleLost [] :=
    (((Feeds.init.start (by decide) hc ⟨[], []⟩).next .epoch ⟨[], []⟩).next .epoch ⟨[], []⟩).kill
  have hstarted := hlost.start (by decide +kernel) hc ⟨[], []⟩
  -- the first block is durable
  have hrest : Block.above (sampleLost.table.checkpoint?.map (·.slot)) sampleSource =
      [sampleBlock 4 2 5] := by decide +kernel
  rw [hrest] at hstarted
  have hfed : Feeds [sampleProgram] sampleSource sampleFed [] := hstarted.next .epoch ⟨[], []⟩
  obtain ⟨e, hend⟩ := Standing.exists_of_isUp (s := sampleEnded.standing) (by decide +kernel)
  obtain ⟨hany, hsome⟩ := resumed_eq_uninterrupted hsource hfed hend
  have hu := sampleConfig_usable (.inl rfl)
  obtain ⟨e₀, n, e', ⟨⟩, hstart, hrun⟩ := hsome (sampleConfig 1) hu Unit (pure .epoch) ()
  exact ⟨by decide +kernel, by decide +kernel, e, e₀, e', n, hfed, hend, hstart, hrun,
    hany (sampleConfig 1) ⟨[], []⟩ e₀ hu.programs hstart Unit (pure .epoch) () () n e' hrun⟩

end Execution

end DexIndex
