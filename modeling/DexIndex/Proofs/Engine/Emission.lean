import DexIndex.Proofs.Engine.LiveView
import DexIndex.Proofs.Writer.Basis

/-!
# Events are emitted once they are durable

An engine that was started on any store gets calls, while subscribers do what they do and accesses
run into faults (`Engine.Session`). As long as no call fails, the batches that were published are
together the events of the accepted blocks up to the durable checkpoint, each once and in order, and
what is left of the accepted blocks is what the writer holds back. The sink is given the same events
and makes no difference to anything (`Engine.emits_once`).
-/

namespace DexIndex

open BlockEvents

/-! ### One call -/

namespace Engine

/-- An engine whose writer stands for two lists of blocks on a basis. -/
structure Grounded (b : Basis) (e : Engine) (stored held : List BlockEvents) : Prop where
  holds : b.Holds e.writer e.ledger stored held
  lastSlot : e.lastSlot = (b.checkpointAfter (stored ++ held)).map (·.slot)

theorem checkpoint_of_storedCheckpoint {l l' : Ledger} {c : Option Checkpoint}
    (h : storedCheckpoint l = (.ok c, l')) :
    l'.store.table = l.store.table ∧ l'.cache = l.cache ∧
      l.store.table.get? Checkpoint.key = c.map Checkpoint.encode := by
  unfold storedCheckpoint Ledger.get Store.get at h
  obtain ⟨s, hs, hread | ⟨_, e, hread⟩⟩ := l.store.read_cases (·.get? Checkpoint.key)
  · rw [hread] at h
    cases hvalue : l.store.table.get? Checkpoint.key with
    | none =>
      rw [hvalue] at h
      cases h
      exact ⟨hs.table, rfl, rfl⟩
    | some value =>
      rw [hvalue] at h
      dsimp only at h
      cases hdecode : Checkpoint.decode value with
      | error e =>
        rw [hdecode] at h
        cases h
      | ok checkpoint =>
        rw [hdecode] at h
        cases h
        refine ⟨hs.table, rfl, ?_⟩
        rw [Option.map_some, Checkpoint.canonical.write_read _ _ hdecode]
  · rw [hread] at h
    cases h

theorem exists_grounded_of_start {config : Config} {store : Store} {e : Engine}
    (h : start config store = .ok e) :
    ∃ b : Basis, b.table = store.table ∧ e.Grounded b [] [] := by
  unfold start at h
  split at h
  · cases h
  · cases h
  next programs _ _ =>
  rcases hstored : storedCheckpoint (.ofStore store) with ⟨_ | checkpoint, l⟩
  · rw [hstored] at h
    cases h
  rw [hstored] at h
  dsimp only at h
  obtain ⟨htable, hcache, hcheckpoint⟩ := checkpoint_of_storedCheckpoint hstored
  rcases hload : l.loadOwners with ⟨_ | n, ledger⟩
  · rw [hload] at h
    cases h
  rw [hload] at h
  dsimp only at h
  obtain ⟨htable', os, hos⟩ := Ledger.owners_of_loadOwners hcache hload
  split at h
  · cases h
  · cases h
    have howners (a : PublicKey) : store.table.get? (Ownership.encodeKey a) =
        (Ownership.first? os a).map Ownership.encodeTrader := by
      rw [← (hos a).2, htable]
      rfl
    refine ⟨⟨store.table, os, checkpoint, howners, hcheckpoint⟩, rfl,
      ⟨⟨?_, ?_, rfl, rfl, rfl, rfl, .nil, ?_⟩, rfl⟩⟩
    · exact htable'.trans htable
    · intro a
      rw [(hos a).1]
      exact congrArg (Ownership.first? · a) (List.append_nil os).symm
    · intro c _ x hx
      cases hx

variable {b : Basis} {e e' : Engine} {stored held : List BlockEvents}

theorem Grounded.emit (h : e.Grounded b stored held) (d : List Event) :
    (e.emit d).Grounded b stored held := by
  unfold Engine.emit
  split
  · exact h
  · exact ⟨h.holds, h.lastSlot⟩

theorem Grounded.callSink (h : e.Grounded b stored held) (c : SinkCall) :
    (e.callSink c).Grounded b stored held :=
  ⟨h.holds, h.lastSlot⟩

/-- A call that succeeds moves blocks into the table, and publishes the events of just these. -/
theorem Grounded.call (h : e.Grounded b stored held) {c : Call} (ended : c.run e = (.ok (), e')) :
    ∃ stored' held', e'.Grounded b stored' held' ∧
      stored' ++ held' = stored ++ held ++ c.accepted e ∧
      kept b.owners stored' = kept b.owners stored ++ c.published e := by
  cases c with
  | process block now =>
    rcases Call.process_ok ended with
      ⟨rfl, haccepted, hnone⟩ | ⟨hnew, x, w, l, hx, haccepted, hwrite, rfl⟩
    · rw [haccepted, hnone]
      exact ⟨stored, held, h, (List.append_nil _).symm, (List.append_nil _).symm⟩
    · have hslot := Block.slot_of_extract hx
      have hnext : ∀ c, b.checkpointAfter (stored ++ held) = some c → c.slot < x.slot := by
        intro c hc
        rw [hslot]
        simpa [isProcessed, h.lastSlot, hc] using hnew
      have hlast : some block.number =
          (b.checkpointAfter (stored ++ held ++ [x])).map (·.slot) := by
        rw [Basis.checkpointAfter_append_singleton, ← hslot]
        rfl
      have hmoved := h.holds.writeBlock hnext now
      rw [hwrite] at hmoved
      rw [haccepted]
      generalize (Call.process block now).published e = d at hmoved ⊢
      cases hmoved with
      | holding holds =>
        refine ⟨stored, held ++ [x], Grounded.emit ⟨holds, ?_⟩ [], ?_, ?_⟩
        · rw [← List.append_assoc]
          exact hlast
        · exact (List.append_assoc _ _ _).symm
        · exact (List.append_nil _).symm
      | flushed holds =>
        refine ⟨stored ++ held ++ [x], [], Grounded.emit ⟨holds, ?_⟩ _, ?_, ?_⟩
        · rw [List.append_nil]
          exact hlast
        · exact List.append_nil _
        · rw [List.append_assoc, kept_append]
          rfl
  | shutdown now =>
    obtain ⟨w, l, hflush, rfl⟩ := Call.shutdown_ok ended
    generalize (Call.shutdown now).published e = d at hflush ⊢
    rcases h.holds.flush now with ⟨_, _, hflush', holds, _⟩ | ⟨_, _, _, _, hflush', _⟩
    · rw [hflush] at hflush'
      cases hflush'
      have hflushed : Grounded b { e with writer := w, ledger := l } (stored ++ held) [] := by
        refine ⟨holds, ?_⟩
        rw [List.append_nil]
        exact h.lastSlot
      refine ⟨stored ++ held, [], (hflushed.emit _).callSink .flush, rfl, ?_⟩
      rw [kept_append]
      rfl
    · rw [hflush] at hflush'
      cases hflush'

end Engine

theorem Engine.Call.accepted_of_ok {e e' : Engine} {c : Call} (ended : c.run e = (.ok (), e'))
    (rest : List Block) :
    Block.accepted e.programs e.lastSlot (c.blocks ++ rest) =
      c.accepted e ++ Block.accepted e'.programs e'.lastSlot rest := by
  have hprograms : e'.programs = e.programs := by
    rw [← c.programs_run e, ended]
  rw [hprograms]
  cases c with
  | process block now =>
    rw [blocks, List.singleton_append, accepted_cons]
    rcases process_ok ended with ⟨rfl, haccepted, _⟩ | ⟨_, x, w, l, hx, haccepted, _, rfl⟩
    · rw [haccepted, Option.toList_eq_nil_iff.mp haccepted]
      rfl
    · rw [haccepted, Option.toList_eq_singleton_iff.mp haccepted, lastSlot_emit,
        ← Block.slot_of_extract hx]
      rfl
  | shutdown now =>
    obtain ⟨w, l, _, rfl⟩ := shutdown_ok ended
    rw [callSink, lastSlot_emit]
    rfl

/-! ### Runs -/

namespace Engine

/-- A call, and what happens before it: subscribers do what they do with the registry, and it is
settled what the accesses run into. -/
structure Turn where
  meanwhile : Live → Live
  faults : Faults
  call : Call

def Turn.before (t : Turn) (e : Engine) : Engine :=
  { e.withFaults t.faults with live := t.meanwhile e.live }

theorem Grounded.before {b : Basis} {e : Engine} {stored held : List BlockEvents}
    (h : e.Grounded b stored held) (t : Turn) : (t.before e).Grounded b stored held := by
  obtain ⟨⟨htable, hcache, hpending, hunpublished, hdurable, hbuffered, horder⟩, hslot⟩ := h
  exact ⟨⟨htable, hcache, hpending, hunpublished, hdurable, hbuffered, horder⟩, hslot⟩

/-- An engine between its calls, and what they gave so far. -/
structure Session where
  engine : Engine
  results : List (Except EngineError Unit)
  accepted : List BlockEvents
  /-- The batch of events that each call has published. -/
  published : List (List Event)

namespace Session

def ofEngine (e : Engine) : Session := ⟨e, [], [], []⟩

def turn (x : Session) (t : Turn) : Session where
  engine := (t.call.run (t.before x.engine)).2
  results := x.results ++ [(t.call.run (t.before x.engine)).1]
  accepted := x.accepted ++ t.call.accepted (t.before x.engine)
  published := x.published ++ [t.call.published (t.before x.engine)]

def run (x : Session) (turns : List Turn) : Session := turns.foldl turn x

def withSink (x : Session) (sink : Option Sink) : Session :=
  { x with engine := x.engine.withSink sink }

variable (x : Session)

theorem run_append_singleton (turns : List Turn) (t : Turn) :
    x.run (turns ++ [t]) = (x.run turns).turn t :=
  List.foldl_concat ..

/-! ### What holds of all runs -/

theorem length_published_run (turns : List Turn) :
    (x.run turns).published.length = x.published.length + turns.length := by
  induction turns generalizing x with
  | nil => rfl
  | cons t rest ih =>
    show ((x.turn t).run rest).published.length = _
    rw [ih]
    simp [turn]
    omega

theorem live_run (e : Engine) (turns : List Turn) :
    ((ofEngine e).run turns).engine.live =
      (turns.zip ((ofEngine e).run turns).published).foldl
        (fun live p => (p.1.meanwhile live).publish p.2) e.live := by
  induction turns using List.reverseRecOn with
  | nil => rfl
  | append_singleton turns t ih =>
    have hlength : turns.length = ((ofEngine e).run turns).published.length := by
      rw [length_published_run]
      exact (Nat.zero_add _).symm
    rw [run_append_singleton]
    show (t.call.run (t.before _)).2.live = _
    rw [Call.live_run, turn, List.zip_append hlength, List.foldl_append, ← ih]
    rfl

theorem sunk?_run (e : Engine) (turns : List Turn) :
    ((ofEngine e).run turns).engine.sunk? =
      e.sunk?.map (· ++ ((ofEngine e).run turns).published.flatten) := by
  induction turns using List.reverseRecOn with
  | nil => simp [run, ofEngine]
  | append_singleton turns t ih =>
    rw [run_append_singleton]
    have hbefore : (t.before ((ofEngine e).run turns).engine).sunk? =
        ((ofEngine e).run turns).engine.sunk? := rfl
    show (t.call.run (t.before _)).2.sunk? = _
    rw [Call.sunk?_run, hbefore, ih, Option.map_map]
    simp [turn, Function.comp_def, List.append_assoc]

/-- Whatever the sink is and answers, only the sink itself is another one after a run. -/
theorem run_withSink (sink : Option Sink) (turns : List Turn) :
    ∃ sink', (x.withSink sink).run turns = (x.run turns).withSink sink' := by
  induction turns using List.reverseRecOn with
  | nil => exact ⟨sink, rfl⟩
  | append_singleton turns t ih =>
    obtain ⟨sink₁, hrun⟩ := ih
    obtain ⟨sink₂, hcall⟩ := t.call.run_withSink (t.before (x.run turns).engine) sink₁
    have hbefore : t.before ((x.run turns).engine.withSink sink₁) =
        (t.before (x.run turns).engine).withSink sink₁ := rfl
    refine ⟨sink₂, ?_⟩
    rw [run_append_singleton, run_append_singleton, hrun]
    unfold turn withSink
    dsimp only
    rw [hbefore, hcall]
    rfl

/-! ### Runs without failures -/

variable {x}

theorem results_prefix_run (x : Session) (turns : List Turn) :
    x.results <+: (x.run turns).results := by
  induction turns generalizing x with
  | nil => exact List.prefix_refl _
  | cons t rest ih => exact (List.prefix_append _ _).trans (ih (x.turn t))

theorem accepted_run {turns : List Turn} (hok : ∀ r ∈ (x.run turns).results, r = .ok ()) :
    (x.run turns).accepted = x.accepted ++
      Block.accepted x.engine.programs x.engine.lastSlot (turns.flatMap (·.call.blocks)) := by
  induction turns generalizing x with
  | nil => exact (List.append_nil _).symm
  | cons t rest ih =>
    have hmem : (t.call.run (t.before x.engine)).1 ∈ ((x.turn t).run rest).results :=
      (results_prefix_run (x.turn t) rest).subset
        (List.mem_append_right _ (List.mem_singleton_self _))
    have hcall := Call.accepted_of_ok
      (Prod.ext (hok _ hmem) rfl : t.call.run (t.before x.engine) = (.ok (), _))
      (rest.flatMap (·.call.blocks))
    show ((x.turn t).run rest).accepted = _
    rw [ih hok, List.flatMap_cons]
    show (x.accepted ++ t.call.accepted (t.before x.engine)) ++ _ = _
    rw [List.append_assoc]
    exact congrArg (x.accepted ++ ·) hcall.symm

/-- A run on a basis, where the rows of the blocks `stored` are in the table and those of the blocks
`held` are held back. -/
structure Sound (b : Basis) (x : Session) (stored held : List BlockEvents) : Prop where
  grounded : x.engine.Grounded b stored held
  accepted : x.accepted = stored ++ held
  published : x.published.flatten = kept b.owners stored

theorem Sound.turn {b : Basis} {stored held : List BlockEvents} (h : x.Sound b stored held)
    {t : Turn} (hok : (t.call.run (t.before x.engine)).1 = .ok ()) :
    ∃ stored' held', (x.turn t).Sound b stored' held' := by
  obtain ⟨stored', held', hafter, haccepted, hpublished⟩ := (h.grounded.before t).call
    (Prod.ext hok rfl : t.call.run (t.before x.engine) = (.ok (), _))
  refine ⟨stored', held', hafter, ?_, ?_⟩
  · rw [haccepted, ← h.accepted]
    rfl
  · rw [hpublished, ← h.published]
    simp [Session.turn]

theorem Sound.run {b : Basis} {stored held : List BlockEvents} (h : x.Sound b stored held)
    {turns : List Turn} (hok : ∀ r ∈ (x.run turns).results, r = .ok ()) :
    ∃ stored' held', (x.run turns).Sound b stored' held' := by
  induction turns using List.reverseRecOn with
  | nil => exact ⟨stored, held, h⟩
  | append_singleton turns t ih =>
    rw [run_append_singleton] at hok ⊢
    obtain ⟨hturns, ht⟩ := List.forall_mem_append.mp hok
    obtain ⟨stored₁, held₁, h₁⟩ := ih hturns
    exact h₁.turn (ht _ (List.mem_singleton_self _))

end Session

end Engine

namespace Basis
variable {b : Basis}

theorem checkpoint?_tableAfter (b : Basis) (bs : List BlockEvents) :
    (b.tableAfter bs).checkpoint? = b.checkpointAfter bs := by
  unfold Table.checkpoint?
  rw [get?_tableAfter_checkpoint]
  cases b.checkpointAfter bs with
  | none => rfl
  | some c => simp [Except.toOption]

theorem InOrder.upTo {bs rest : List BlockEvents} (h : b.InOrder (bs ++ rest)) :
    upTo (b.checkpointAfter bs) (bs ++ rest) = bs := by
  rcases bs.eq_nil_or_concat' with rfl | ⟨front, l, rfl⟩
  · refine List.filter_eq_nil_iff.mpr fun x hx => ?_
    show ¬ b.checkpoint.any (x.slot ≤ ·.slot)
    cases hc : b.checkpoint with
    | none => simp
    | some c =>
      have hlt := h.above c hc x hx
      simpa using hlt
  · rw [checkpointAfter_append_singleton, ← lastCheckpoint?_append_singleton]
    exact upTo_last h.ordered

end Basis

namespace Engine

open Session in
/-- However an engine gets on with its calls, as long as none of them fails: the blocks accepted are
those above all accepted before; what is published are their events up to the durable checkpoint,
which is the one in the table, without the fills of unknown traders; the other events are held back;
and the sink is given what is published. The sink makes no difference, also where calls fail. -/
theorem emits_once {config : Config} {store : Store} {e₀ : Engine}
    (h : Engine.start config store = .ok e₀) (turns : List Turn) :
    (∀ answers : List Bool,
      let x := (ofEngine (e₀.withSink (some ⟨answers, []⟩))).run turns
      (∀ r ∈ x.results, r = .ok ()) →
      x.accepted = Block.accepted e₀.programs e₀.lastSlot (turns.flatMap (·.call.blocks)) ∧
      x.engine.live = (turns.zip x.published).foldl
        (fun live p => (p.1.meanwhile live).publish p.2) e₀.live ∧
      x.engine.sunk? = some x.published.flatten ∧
      x.engine.table.checkpoint? = x.engine.checkpoint? ∧
      (x.engine.writer.pending = [] → x.engine.writer.unpublished = []) ∧
      ∃ owners,
        (∀ a, store.table.get? (Ownership.encodeKey a) =
          (Ownership.first? owners a).map Ownership.encodeTrader) ∧
        x.engine.table =
          store.table.insertAll (heldRows owners (upTo x.engine.checkpoint? x.accepted)) ∧
        x.published.flatten = kept owners (upTo x.engine.checkpoint? x.accepted) ∧
        x.published.flatten ++ x.engine.writer.unpublished = kept owners x.accepted) ∧
    (∀ sink, ∃ sink', (ofEngine (e₀.withSink sink)).run turns =
      ((ofEngine e₀).run turns).withSink sink') := by
  refine ⟨?_, fun sink => (ofEngine e₀).run_withSink sink turns⟩
  intro answers x hok
  -- what the store has at the start is the basis, and the run stands for two lists of blocks on it
  obtain ⟨b, htable, hstart⟩ := exists_grounded_of_start h
  have hsound : Session.Sound b (ofEngine (e₀.withSink (some ⟨answers, []⟩))) [] [] :=
    ⟨⟨hstart.holds, hstart.lastSlot⟩, rfl, rfl⟩
  obtain ⟨stored, held, ⟨hholds, _⟩, haccepted, hpublished⟩ := hsound.run hok
  have hupTo : upTo x.engine.checkpoint? x.accepted = stored := by
    rw [haccepted, checkpoint?, hholds.durable]
    exact hholds.inOrder.upTo
  refine ⟨accepted_run hok, live_run _ turns, sunk?_run _ turns, ?_, ?_, b.owners, ?_, ?_, ?_, ?_⟩
  · rw [table, hholds.table, Basis.checkpoint?_tableAfter, checkpoint?, hholds.durable]
  · intro hpending
    have hheld : held = [] := heldRows_eq_nil (hholds.pending ▸ hpending)
    rw [hholds.unpublished, hheld]
    rfl
  · rw [← htable]
    exact b.owners_eq
  · rw [hupTo, ← htable]
    exact hholds.table
  · rw [hupTo]
    exact hpublished
  · rw [hpublished, hholds.unpublished, haccepted, kept_append]
    rfl

end Engine

/-! ### A fill of an unknown trader -/

namespace DroppedFill
open TwoFills

/-- One of the two fills is that of an account whose owner nobody named. -/
def queue : EventQueue :=
  { TwoFills.queue with entries := [entry 1, { entry 2 with owner := key 9 }] }

def block : Block :=
  { placing with
    transactions := placing.transactions.map fun t =>
      { t with
        invocations := t.invocations.map fun i =>
          { i with
            changes := [⟨key 2, (requests 6).encode, (requests 7).encode⟩,
              ⟨key 3, [], queue.encode⟩] } } }

/-- The block is held back, met again and made durable. -/
def turns : List Engine.Turn :=
  [⟨id, ⟨[], []⟩, .process block .epoch⟩, ⟨id, ⟨[], []⟩, .process block .epoch⟩,
    ⟨id, ⟨[], []⟩, .shutdown .epoch⟩]

/-- What becomes of a started engine whose sink fails. -/
def session? : Option Engine.Session :=
  (Engine.start (Execution.sampleConfig 3) (.ofTable .empty)).toOption.map fun e =>
    (Engine.Session.ofEngine (e.withSink (some ⟨[false, false], []⟩))).run turns

end DroppedFill

open DroppedFill TwoFills in
theorem Engine.emits_once_of_dropped_fill :
    ∃ e₀ x, Engine.start (Execution.sampleConfig 3) (.ofTable .empty) = .ok e₀ ∧
      x = (Session.ofEngine (e₀.withSink (some ⟨[false, false], []⟩))).run turns ∧
      (∀ r ∈ x.results, r = .ok ()) ∧ x.accepted.map (·.events.length) = [3] ∧
      x.published = [[], [], [placed, placedFill 1]] ∧
      x.engine.sunk? = some [placed, placedFill 1] := by
  have hresults : session?.map (·.results.map (·.toOption)) =
      some [some (), some (), some ()] := by
    decide +kernel
  have haccepted : session?.map (·.accepted.map (·.events.length)) = some [3] := by
    decide +kernel
  have hpublished : session?.map (·.published) = some [[], [], [placed, placedFill 1]] := by
    decide +kernel
  cases hstart : Engine.start (Execution.sampleConfig 3) (.ofTable .empty) with
  | error err =>
    rw [session?, hstart] at hresults
    cases hresults
  | ok e₀ =>
    obtain ⟨x, hx⟩ : ∃ x, x = (Session.ofEngine
        (e₀.withSink (some ⟨[false, false], []⟩))).run turns := ⟨_, rfl⟩
    have hsession : session? = some x := by
      rw [session?, hstart, hx]
      rfl
    rw [hsession, Option.map_some, Option.some_inj] at hresults haccepted hpublished
    have hok : ∀ r ∈ x.results, r = .ok () := by
      intro r hr
      have hmem : r.toOption ∈ x.results.map (·.toOption) := List.mem_map_of_mem hr
      rw [hresults] at hmem
      exact Results.toOption_eq_some.mp (by simpa using hmem)
    obtain ⟨_, _, hsunk, _⟩ := (Engine.emits_once hstart turns).1 [false, false] (hx ▸ hok)
    refine ⟨e₀, x, rfl, hx, hok, haccepted, hpublished, ?_⟩
    rw [← hx, hpublished] at hsunk
    exact hsunk

end DexIndex
