import DexIndex.Proofs.Lifecycle.Replay

/-!
# Coherent machines

What the fields of a machine say of each other after any events of any orders, in any order of their
positions (`OrderMachine.Coherent`), and what folding one more event can do to them
(`OrderMachine.Onward`): the state only goes up, fills are only added, and nothing but the last
position and the count of fills moves unless the state changes.
-/

namespace DexIndex

/-- How far an order has come; both terminal states are last. -/
def OrderState.rank : OrderState → Nat
  | unknown => 0
  | approved => 1
  | partiallyFilled => 2
  | executed | cancelled => 3

namespace OrderMachine
variable {m m' : OrderMachine} {e : Event}

/-- The fields of a machine agree with each other. -/
structure Coherent (m : OrderMachine) : Prop where
  hasEvents : m.hasEvents ↔ m.state ≠ .unknown
  transition : m.transition?.isSome ↔ m.state ≠ .unknown
  unknown : m.state = .unknown → m.fillCount = 0 ∧ m.order = none
  approved : m.state = .approved → m.fillCount = 0 ∧ ∃ o, m.order = some o ∧ o.fills = []
  partiallyFilled : m.state = .partiallyFilled → 0 < m.fillCount
  fills : m.state.isTerminal = false → ∀ o ∈ m.order, o.fills.length = m.fillCount
  cancellation : m.cancellation.isSome ↔ m.state = .cancelled
  trader : m.order.isSome ↔ m.trader.isSome

/-- What folding one event leaves of a machine, where `changed` tells whether the state changed. -/
structure Onward (m : OrderMachine) (m' : OrderMachine) (changed : Bool) : Prop where
  key : m'.key = m.key
  rank : m.state.rank ≤ m'.state.rank
  terminal : m.state.isTerminal → m'.state = m.state
  fills : ∀ o ∈ m.order, ∃ o' ∈ m'.order, o.fills <+: o'.fills
  fillCount : m.fillCount ≤ m'.fillCount
  lastPosition : ∀ p ∈ m.lastPosition, ∃ q ∈ m'.lastPosition, p = q ∨ p.before q
  unchanged : changed = false →
    m' = { m with fillCount := m'.fillCount, lastPosition := m'.lastPosition }

theorem coherent_start (key : OrderKey) : (start key).Coherent := by
  constructor <;> simp [start, OrderMachine.hasEvents, transition?]

/-! ### An event that changes nothing -/

theorem fillCount_observe_of_ne_fill (h : e.type ≠ .fill) : (m.observe e).fillCount = m.fillCount :=
  if_neg h

theorem le_fillCount_observe (m : OrderMachine) (e : Event) :
    m.fillCount ≤ (m.observe e).fillCount := by
  simp only [observe]
  split <;> omega

/-- A machine that takes note of an event stays coherent if it is at its end, or if it has begun and
the event places the order once more. -/
theorem Coherent.observe (h : m.Coherent)
    (ends : m.state.isTerminal ∨ m.state ≠ .unknown ∧ e.type = .newOrder) :
    (m.observe e).Coherent := by
  have hbegun : m.state ≠ .unknown := by
    rcases ends with hterminal | ⟨hstate, _⟩
    · intro hstate
      simp [hstate, OrderState.isTerminal] at hterminal
    · exact hstate
  have hcount (hlive : m.state.isTerminal = false) : (m.observe e).fillCount = m.fillCount := by
    rcases ends with hterminal | ⟨_, htype⟩
    · simp [hlive] at hterminal
    · exact fillCount_observe_of_ne_fill (by simp [htype])
  refine ⟨?_, h.transition, fun hs => absurd hs hbegun, fun hs => ?_, fun hs => ?_,
    fun hlive => ?_, h.cancellation, h.trader⟩
  · simpa [OrderMachine.hasEvents, OrderMachine.observe] using hbegun
  · have hs : m.state = .approved := hs
    rw [hcount (by rw [hs]; rfl)]
    exact h.approved hs
  · have hs : m.state = .partiallyFilled := hs
    rw [hcount (by rw [hs]; rfl)]
    exact h.partiallyFilled hs
  · rw [hcount hlive]
    exact h.fills hlive

/-! ### An event that changes the state -/

/-- The ways in which a machine changes. -/
inductive Change (m : OrderMachine) : EventKind → OrderMachine → Prop
  | placed (order : Order) (trader : PublicKey) (unknown : m.state = .unknown) :
      Change m (.newOrder order trader) { m.enter .approved .newOrder with
        order := some { order with fills := [] }
        trader := some trader }
  | filled (account : PublicKey) (fill : Fill) :
      Change m (.fill account fill) { m.enter .partiallyFilled .fill with
        order := m.order.map fun o => { o with fills := o.fills ++ [fill] } }
  | executed : Change m .orderExecuted (m.enter .executed .orderExecuted)
  | cancelled (i : InstructionRef) : Change m (.orderCancelled i)
      { m.enter .cancelled .orderCancelled with cancellation := some i }
  | closedWithoutFills (i : InstructionRef) (empty : m.fillCount = 0) : Change m (.orderClosed i)
      { m.enter .cancelled .orderClosed with cancellation := some i }
  | closedWithFills (i : InstructionRef) (filled : m.fillCount ≠ 0) :
      Change m (.orderClosed i) (m.enter .executed .orderClosed)

theorem Change.of_change? {kind : EventKind} (h : m.change? kind = some m') :
    m.Change kind m' := by
  cases kind with
  | newOrder order trader =>
    simp only [change?] at h
    split at h
    · next hs =>
      cases h
      exact .placed order trader hs
    · cases h
  | fill account fill =>
    cases h
    exact .filled account fill
  | orderExecuted =>
    cases h
    exact .executed
  | orderCancelled i =>
    cases h
    exact .cancelled i
  | orderClosed i =>
    simp only [change?] at h
    split at h
    · next hc =>
      cases h
      exact .closedWithoutFills i hc
    · next hc =>
      cases h
      exact .closedWithFills i hc

theorem Coherent.no_cancellation (h : m.Coherent) (live : m.state.isTerminal = false) :
    m.cancellation = none := by
  cases hc : m.cancellation with
  | none => rfl
  | some i =>
    have hs := h.cancellation.mp (by rw [hc]; rfl)
    simp [hs, OrderState.isTerminal] at live

theorem coherent_of_entered (hlast : m.lastPosition.isSome) (hcause : m.cause.isSome)
    (hstate : m.state ≠ .unknown)
    (approved : m.state = .approved → m.fillCount = 0 ∧ ∃ o, m.order = some o ∧ o.fills = [])
    (partiallyFilled : m.state = .partiallyFilled → 0 < m.fillCount)
    (fills : m.state.isTerminal = false → ∀ o ∈ m.order, o.fills.length = m.fillCount)
    (cancellation : m.cancellation.isSome ↔ m.state = .cancelled)
    (trader : m.order.isSome ↔ m.trader.isSome) : m.Coherent := by
  refine ⟨iff_of_true hlast hstate, iff_of_true ?_ hstate, fun hs => absurd hs hstate, approved,
    partiallyFilled, fills, cancellation, trader⟩
  rw [transition?, Option.isSome_map]
  exact hcause

theorem Coherent.change (h : m.Coherent) (live : m.state.isTerminal = false)
    (change : (m.observe e).change? e.kind = some m') : m'.Coherent := by
  have hnone : m.cancellation = none := h.no_cancellation live
  obtain ⟨ref, kind⟩ := e
  cases Change.of_change? change with
  | placed order trader hs =>
    have hzero := (h.unknown hs).1
    apply coherent_of_entered <;>
      simp [enter, OrderMachine.observe, Event.type, EventKind.type, OrderState.isTerminal, hnone,
        hzero]
  | filled account fill =>
    apply coherent_of_entered <;>
      simp [enter, OrderMachine.observe, Event.type, EventKind.type, OrderState.isTerminal, hnone,
        h.trader]
    exact h.fills live
  | executed =>
    apply coherent_of_entered <;>
      simp [enter, OrderMachine.observe, OrderState.isTerminal, hnone, h.trader]
  | cancelled i =>
    apply coherent_of_entered <;>
      simp [enter, OrderMachine.observe, OrderState.isTerminal, h.trader]
  | closedWithoutFills i =>
    apply coherent_of_entered <;>
      simp [enter, OrderMachine.observe, OrderState.isTerminal, h.trader]
  | closedWithFills i =>
    apply coherent_of_entered <;>
      simp [enter, OrderMachine.observe, OrderState.isTerminal, hnone, h.trader]

/-! ### What an event leaves -/

theorem rank_le_of_change {kind : EventKind} (live : m.state.isTerminal = false)
    (change : m.Change kind m') : m.state.rank ≤ m'.state.rank := by
  have hlast : m.state.rank ≤ 3 := by cases m.state <;> decide
  cases change with
  | placed order trader hs =>
    rw [hs]
    exact Nat.zero_le _
  | filled =>
    show m.state.rank ≤ 2
    cases hs : m.state <;> first | decide | simp [hs, OrderState.isTerminal] at live
  | executed => exact hlast
  | cancelled => exact hlast
  | closedWithoutFills => exact hlast
  | closedWithFills => exact hlast

/-- A change adds fills to an order, or takes up one where there was none. -/
theorem fills_prefix_of_change {kind : EventKind} (hunknown : m.state = .unknown → m.order = none)
    (change : m.Change kind m') : ∀ o ∈ m.order, ∃ o' ∈ m'.order, o.fills <+: o'.fills := by
  intro o ho
  cases change with
  | placed order trader hs =>
    rw [hunknown hs] at ho
    cases ho
  | filled account fill =>
    exact ⟨{ o with fills := o.fills ++ [fill] }, Option.mem_map_of_mem _ ho,
      List.prefix_append _ _⟩
  | executed => exact ⟨o, ho, List.prefix_refl _⟩
  | cancelled => exact ⟨o, ho, List.prefix_refl _⟩
  | closedWithoutFills => exact ⟨o, ho, List.prefix_refl _⟩
  | closedWithFills => exact ⟨o, ho, List.prefix_refl _⟩

theorem before_of_isNext (h : m.isNext e) :
    ∀ p ∈ m.lastPosition, ∃ q ∈ (m.observe e).lastPosition, p = q ∨ p.before q := by
  intro p hp
  rw [isNext, Bool.and_eq_true] at h
  have hbefore : p.before e.position := by
    have hall := h.2
    rw [Option.mem_def.mp hp] at hall
    exact hall
  exact ⟨e.position, rfl, .inr hbefore⟩

theorem Onward.refl (m : OrderMachine) (changed : Bool) : m.Onward m changed :=
  ⟨rfl, Nat.le_refl _, fun _ => rfl, fun o ho => ⟨o, ho, List.prefix_refl _⟩, Nat.le_refl _,
    fun p hp => ⟨p, hp, .inl rfl⟩, fun _ => rfl⟩

theorem Coherent.onward (h : m.Coherent) (e : Event) : m.Onward (m.apply e).1 (m.apply e).2 := by
  have ha := m.apply_applied e
  generalize m.apply e = r at ha
  cases ha with
  | ignored => exact .refl m false
  | observed next =>
    exact ⟨rfl, Nat.le_refl _, fun _ => rfl, fun o ho => ⟨o, ho, List.prefix_refl _⟩,
      le_fillCount_observe m e, before_of_isNext next, fun _ => rfl⟩
  | changed next live change =>
    have hc := changedFrom_of_change? change
    have hway := Change.of_change? change
    refine ⟨hc.key, rank_le_of_change (m := m.observe e) live hway, fun hterminal => ?_,
      fills_prefix_of_change (m := m.observe e) (fun hs => (h.unknown hs).2) hway, ?_, ?_, nofun⟩
    · simp [live] at hterminal
    · rw [hc.fillCount]
      exact le_fillCount_observe m e
    · rw [hc.lastPosition]
      exact before_of_isNext next

/-! ### All events -/

theorem Coherent.apply (h : m.Coherent) (e : Event) : (m.apply e).1.Coherent := by
  have ha := m.apply_applied e
  generalize m.apply e = r at ha
  cases ha with
  | ignored => exact h
  | observed _ ends => exact h.observe ends
  | changed _ live change => exact h.change live change

theorem Coherent.applyAll (h : m.Coherent) (es : List Event) : (m.applyAll es).Coherent := by
  induction es generalizing m with
  | nil => exact h
  | cons e es ih => exact ih (h.apply e)

theorem Onward.trans {m'' : OrderMachine} {changed changed' : Bool} (h : m.Onward m' changed)
    (h' : m'.Onward m'' changed') : m.Onward m'' (changed || changed') := by
  refine ⟨h'.key.trans h.key, Nat.le_trans h.rank h'.rank, fun hterminal => ?_, fun o ho => ?_,
    Nat.le_trans h.fillCount h'.fillCount, fun p hp => ?_, fun hchanged => ?_⟩
  · have hstate := h.terminal hterminal
    exact (h'.terminal (hstate ▸ hterminal)).trans hstate
  · obtain ⟨o', ho', hle⟩ := h.fills o ho
    obtain ⟨o'', ho'', hle'⟩ := h'.fills o' ho'
    exact ⟨o'', ho'', hle.trans hle'⟩
  · obtain ⟨q, hq, hpq⟩ := h.lastPosition p hp
    obtain ⟨r, hr, hqr⟩ := h'.lastPosition q hq
    refine ⟨r, hr, ?_⟩
    rcases hpq with rfl | hpq
    · exact hqr
    · rcases hqr with rfl | hqr
      · exact .inr hpq
      · exact .inr (EventPosition.before_trans hpq hqr)
  · obtain ⟨hfirst, hsecond⟩ := Bool.or_eq_false_iff.mp hchanged
    rw [h'.unchanged hsecond, h.unchanged hfirst]

/-- A run of events leaves of a machine what each event does; the state has changed if a transition
was sent. -/
theorem Coherent.onward_applyAll (h : m.Coherent) (es : List Event) :
    m.Onward (m.applyAll es) (!(m.changes es).isEmpty) := by
  induction es generalizing m with
  | nil => exact .refl m _
  | cons e es ih =>
    have hrun := (h.onward e).trans (ih (h.apply e))
    have hflag : (!(m.changes (e :: es)).isEmpty) =
        ((m.apply e).2 || !((m.apply e).1.changes es).isEmpty) := by
      rw [changes]
      cases hchanged : (m.apply e).2 with
      | false => rfl
      | true =>
        obtain ⟨item, hitem⟩ := Option.isSome_iff_exists.mp (isSome_transition?_of_changed hchanged)
        rw [hitem]
        rfl
    rw [hflag]
    exact hrun

theorem coherent_replay (key : OrderKey) (es : List Event) : (replay key es).Coherent :=
  (coherent_start key).applyAll es

/-- The state machine of any order, whatever events it was given and is given next, one at a time or
several. -/
theorem coherent_and_onward (key : OrderKey) (es : List Event) :
    (replay key es).Coherent ∧
      (∀ e, (replay key es).Onward ((replay key es).apply e).1 ((replay key es).apply e).2) ∧
      ∀ later, (replay key es).Onward (replay key (es ++ later))
        (!((replay key es).changes later).isEmpty) := by
  have hcoherent := coherent_replay key es
  refine ⟨hcoherent, hcoherent.onward, fun later => ?_⟩
  rw [replay_append]
  exact hcoherent.onward_applyAll later

end OrderMachine

end DexIndex
