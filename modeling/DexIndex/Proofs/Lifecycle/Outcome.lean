import DexIndex.Proofs.Lifecycle.Redelivery
import Mathlib.Data.List.DropRight

/-!
# What the events of an order come to

The events of an order, in the order of their positions, are cut at the first one that ends it
(`Event.ending?`). The events before it (`Event.beforeEnd`) and that event give the state, the order
with its fills, the trader and the cancellation; what comes after is counted if it is a fill.

`OrderMachine.Outcome` says this field by field, of a fold from the start. One more event goes on
from there in three ways: it changes the state (`Outcome.changed`), places the order again
(`Outcome.placedAgain`) or comes after the end (`Outcome.late`). The result for all events follows by
induction from the last one (`OrderMachine.replay_outcome`).
-/

namespace DexIndex

/-- The fill that an event tells of. -/
def EventKind.fill? : EventKind → Option Fill
  | fill _ f => some f
  | _ => none

/-- The instruction by which an order was cancelled or closed. -/
def EventKind.instruction? : EventKind → Option InstructionRef
  | orderCancelled i | orderClosed i => some i
  | _ => none

namespace Event
variable {es : List Event} {e : Event}

def isFill (e : Event) : Bool := e.type = .fill

def ends (e : Event) : Bool := e.type.isTerminal

/-- The first event that ends the order. -/
def ending? (es : List Event) : Option Event := es.find? ends

/-- The events before the first one that ends the order. -/
def beforeEnd (es : List Event) : List Event := es.takeWhile fun e => !e.ends

/-- The order and the trader of the event that a history starts with, if that places the order. -/
def placed? (es : List Event) : Option (Order × PublicKey) :=
  match es.head?.map Event.kind with
  | some (.newOrder order trader) => some (order, trader)
  | _ => none

/-- The events before the last one that changes the state: the end, or else the last fill, or else
the first event. -/
def beforeChange (es : List Event) : List Event :=
  if (ending? es).isSome then beforeEnd es else (es.rdropWhile fun e => !e.isFill).dropLast

/-- The type of the last event that changes the state. -/
def changeType? (es : List Event) : Option EventType :=
  match ending? es with
  | some t => some t.type
  | none => if es.any isFill then some .fill else if es.isEmpty then none else some .newOrder

/-! ### Cutting at the end -/

theorem type_eq_newOrder (hends : e.ends = false) (hfill : e.isFill = false) :
    e.type = .newOrder := by
  obtain ⟨ref, kind⟩ := e
  cases kind with
  | newOrder => rfl
  | fill => cases hfill
  | _ => cases hends

theorem ending?_append_of_isSome (h : (ending? es).isSome) (b : List Event) :
    ending? (es ++ b) = ending? es := by
  rw [ending?, List.find?_append]
  exact Option.or_of_isSome h

theorem ending?_append_of_ends (h : ending? es = none) (he : e.ends) :
    ending? (es ++ [e]) = some e := by
  rw [ending?, List.find?_append, List.find?_singleton, if_pos he, ← ending?, h, Option.none_or]

theorem ending?_append_of_not_ends (h : ending? es = none) (he : e.ends = false) :
    ending? (es ++ [e]) = none := by
  rw [ending?, List.find?_append, List.find?_singleton, he, ← ending?, h]
  rfl

theorem beforeEnd_of_none (h : ending? es = none) : beforeEnd es = es := by
  refine List.takeWhile_eq_self_iff.mpr fun e he => ?_
  simpa using List.find?_eq_none.mp h e he

theorem beforeEnd_append_of_isSome (h : (ending? es).isSome) (b : List Event) :
    beforeEnd (es ++ b) = beforeEnd es := by
  have hlength : (es.takeWhile fun e => !e.ends).length ≠ es.length := by
    intro hlength
    obtain ⟨e, he, hends⟩ := List.find?_isSome.mp h
    have hself := (List.takeWhile_prefix fun e : Event => !e.ends).eq_of_length hlength
    have hlive := List.takeWhile_eq_self_iff.mp hself e he
    simp [hends] at hlive
  rw [beforeEnd, List.takeWhile_append, if_neg hlength]
  rfl

theorem beforeEnd_append_of_ends (h : ending? es = none) (he : e.ends) :
    beforeEnd (es ++ [e]) = es := by
  have hlive : ∀ x ∈ es, (!x.ends) = true := by
    intro x hx
    simpa using List.find?_eq_none.mp h x hx
  rw [beforeEnd, List.takeWhile_append_of_pos hlive, List.takeWhile_cons_of_neg (by simp [he]),
    List.append_nil]

theorem placed?_append (hne : es ≠ []) (b : List Event) : placed? (es ++ b) = placed? es := by
  cases es with
  | nil => exact absurd rfl hne
  | cons e es => rfl

theorem beforeChange_append (h : ending? es = none) (he : e.ends ∨ e.isFill ∨ es = []) :
    beforeChange (es ++ [e]) = es := by
  rw [beforeChange]
  by_cases hends : e.ends
  · rw [ending?_append_of_ends h hends, beforeEnd_append_of_ends h hends]
    rfl
  · rw [ending?_append_of_not_ends h (by simpa using hends), if_neg (by simp)]
    by_cases hfill : e.isFill
    · rw [List.rdropWhile_concat_neg _ _ _ (by simp [hfill]), List.dropLast_concat]
    · obtain rfl : es = [] := (he.resolve_left hends).resolve_left hfill
      rw [List.rdropWhile_concat_pos _ _ _ (by simp [hfill]), List.rdropWhile_nil]
      rfl

theorem changeType?_append (h : ending? es = none) (he : e.ends ∨ e.isFill ∨ es = []) :
    changeType? (es ++ [e]) = some e.type := by
  rw [changeType?]
  by_cases hends : e.ends
  · rw [ending?_append_of_ends h hends]
  · have hends : e.ends = false := by simpa using hends
    rw [ending?_append_of_not_ends h hends]
    by_cases hfill : e.isFill
    · have htype : e.type = .fill := by simpa [isFill] using hfill
      simp [hfill, htype]
    · have hfill : e.isFill = false := by simpa using hfill
      obtain rfl : es = [] := by simpa [hends, hfill] using he
      simp [hfill, type_eq_newOrder hends hfill]

end Event

/-- The state that an order has by the events before its end and the type of the end, if it has one.
A closed order was executed if it had a fill, otherwise it was cancelled. -/
def OrderState.after (before : List Event) : Option EventType → OrderState
  | some .orderExecuted => .executed
  | some .orderCancelled => .cancelled
  | some .orderClosed => if before.any Event.isFill then .executed else .cancelled
  | _ =>
    if before.any Event.isFill then .partiallyFilled
    else if before.isEmpty then .unknown
    else .approved

namespace OrderState

theorem isTerminal_after_some {t : Event} (h : t.ends) (before : List Event) :
    (after before (some t.type)).isTerminal := by
  obtain ⟨ref, kind⟩ := t
  cases kind with
  | newOrder => cases h
  | fill => cases h
  | orderExecuted => rfl
  | orderCancelled => rfl
  | orderClosed =>
    show (if before.any Event.isFill then executed else cancelled).isTerminal = true
    split <;> rfl

theorem isTerminal_after_none (before : List Event) : (after before none).isTerminal = false := by
  show (if before.any Event.isFill then partiallyFilled
    else if before.isEmpty then unknown else approved).isTerminal = false
  split
  · rfl
  · split <;> rfl

theorem after_none_eq_unknown_iff {before : List Event} :
    after before none = unknown ↔ before = [] := by
  constructor
  · intro h
    by_contra hne
    have hempty : before.isEmpty = false := by simpa using hne
    simp only [after, hempty] at h
    split at h <;> cases h
  · rintro rfl
    rfl

theorem exists_end_of_after_eq_cancelled {es : List Event}
    (h : after (Event.beforeEnd es) ((Event.ending? es).map Event.type) = cancelled) :
    ((Event.ending? es).bind (·.kind.instruction?)).isSome := by
  cases hend : Event.ending? es with
  | none =>
    rw [hend] at h
    have hlive := isTerminal_after_none (Event.beforeEnd es)
    rw [show after (Event.beforeEnd es) none = cancelled from h] at hlive
    cases hlive
  | some t =>
    rw [hend] at h
    obtain ⟨ref, kind⟩ := t
    cases kind with
    | newOrder => cases List.find?_some hend
    | fill => cases List.find?_some hend
    | orderExecuted => cases h
    | orderCancelled => rfl
    | orderClosed => rfl

end OrderState

namespace OrderMachine
open Event
variable {key : OrderKey} {es : List Event} {e : Event}

/-- After the events `a` the next of `es` changes the state, and none after it does. -/
def LastChange (key : OrderKey) (es a : List Event) : Prop :=
  ∃ e c, es = a ++ e :: c ∧ ((replay key a).apply e).2 = true ∧
    (replay key (a ++ [e])).changes c = []

/-- What the fold of an order's events says of them. -/
structure Outcome (key : OrderKey) (es : List Event) : Prop where
  state : (replay key es).state = .after (beforeEnd es) ((ending? es).map Event.type)
  order : (replay key es).order = (placed? (beforeEnd es)).map fun p =>
    { p.1 with fills := (beforeEnd es).filterMap (·.kind.fill?) }
  trader : (replay key es).trader = (placed? (beforeEnd es)).map (·.2)
  cancellation : (replay key es).cancellation =
    if (replay key es).state = .cancelled then (ending? es).bind (·.kind.instruction?) else none
  cause : (replay key es).transition?.map (·.cause) = changeType? es
  previous : (replay key es).previous = .after (beforeChange es) none
  change : es ≠ [] → LastChange key es (beforeChange es)

/-! ### One event more -/

theorem LastChange.append {a : List Event} (h : LastChange key es a)
    (hsame : ((replay key es).apply e).2 = false) : LastChange key (es ++ [e]) a := by
  obtain ⟨x, c, rfl, hx, hc⟩ := h
  refine ⟨x, c ++ [e], by simp, hx, ?_⟩
  have hfold : (replay key (a ++ [x])).applyAll c = replay key (a ++ x :: c) := by
    rw [← replay_append, List.append_assoc]
    rfl
  rw [changes_append, hc, hfold, changes_singleton, hsame]
  rfl

theorem lastChange_of_changed (h : ((replay key es).apply e).2 = true) :
    LastChange key (es ++ [e]) es :=
  ⟨e, [], rfl, h, rfl⟩

section Step
variable {m : OrderMachine}

theorem apply_of_isNext (hnext : m.isNext e) :
    m.apply e =
      if m.state.isTerminal then (m.observe e, false)
      else match (m.observe e).change? e.kind with
        | some m' => (m', true)
        | none => (m.observe e, false) := by
  rw [apply, if_pos hnext]
  rfl

theorem apply_of_change? {m' : OrderMachine} (hnext : m.isNext e)
    (hlive : m.state.isTerminal = false) (hchange : (m.observe e).change? e.kind = some m') :
    m.apply e = (m', true) := by
  rw [apply_of_isNext hnext, hlive, hchange]
  rfl

theorem fillCount_apply (hnext : m.isNext e) :
    (m.apply e).1.fillCount = m.fillCount + if e.isFill then 1 else 0 := by
  have hobserve : (m.observe e).fillCount = m.fillCount + if e.isFill then 1 else 0 := by
    show (if e.type = .fill then m.fillCount + 1 else m.fillCount) = _
    by_cases hfill : e.type = .fill
    · simp [isFill, hfill]
    · simp [isFill, hfill]
  have ha := m.apply_applied e
  generalize m.apply e = r at ha
  cases ha with
  | ignored next => simp [next] at hnext
  | observed => exact hobserve
  | changed _ _ change => exact (changedFrom_of_change? change).fillCount.trans hobserve

end Step

/-- Every fill is counted, also after the end. -/
theorem InOrder.fillCount_replay (h : InOrder key es) :
    (replay key es).fillCount = es.countP isFill := by
  induction es using List.reverseRecOn with
  | nil => rfl
  | append_singleton es e ih =>
    have hinit := ih (h.of_le (List.prefix_append _ _))
    rw [replay_concat, fillCount_apply h.isNext_replay, hinit, List.countP_append,
      List.countP_singleton]

theorem Outcome.state_of_live (h : Outcome key es) (hend : ending? es = none) :
    (replay key es).state = .after es none := by
  rw [h.state, hend, beforeEnd_of_none hend]
  rfl

theorem Outcome.cancellation_of_live (h : Outcome key es) (hend : ending? es = none) :
    (replay key es).cancellation = none := by
  rw [h.cancellation, hend, Option.bind_none, ite_self]

/-- An event that is only counted, since what it adds to the history says nothing new. -/
theorem Outcome.observed (h : Outcome key es) (hne : es ≠ [])
    (happly : (replay key es).apply e = ((replay key es).observe e, false))
    (hstate : OrderState.after (beforeEnd (es ++ [e])) ((ending? (es ++ [e])).map Event.type) =
      .after (beforeEnd es) ((ending? es).map Event.type))
    (hplaced : placed? (beforeEnd (es ++ [e])) = placed? (beforeEnd es))
    (hfills : (beforeEnd (es ++ [e])).filterMap (·.kind.fill?) =
      (beforeEnd es).filterMap (·.kind.fill?))
    (hend : ending? (es ++ [e]) = ending? es) (hcause : changeType? (es ++ [e]) = changeType? es)
    (hchange : beforeChange (es ++ [e]) = beforeChange es) : Outcome key (es ++ [e]) := by
  have hreplay : replay key (es ++ [e]) = (replay key es).observe e := by
    rw [replay_concat, happly]
  constructor
  · rw [hreplay, hstate]
    exact h.state
  · rw [hreplay, hplaced, hfills]
    exact h.order
  · rw [hreplay, hplaced]
    exact h.trader
  · rw [hreplay, hend]
    exact h.cancellation
  · rw [hreplay, hcause]
    exact h.cause
  · rw [hreplay, hchange]
    exact h.previous
  · rw [hchange]
    intro _
    exact (h.change hne).append (by rw [happly])

theorem Outcome.late (h : Outcome key es) (hin : InOrder key (es ++ [e]))
    (hend : (ending? es).isSome) : Outcome key (es ++ [e]) := by
  have hend' := ending?_append_of_isSome hend [e]
  have hbefore := beforeEnd_append_of_isSome hend [e]
  obtain ⟨t, ht⟩ := Option.isSome_iff_exists.mp hend
  have hterminal : (replay key es).state.isTerminal := by
    rw [h.state, ht]
    exact OrderState.isTerminal_after_some (List.find?_some ht) _
  refine h.observed ?_ ?_ (by rw [hbefore, hend']) (by rw [hbefore]) (by rw [hbefore]) hend' ?_ ?_
  · rintro rfl
    cases hend
  · rw [apply_of_isNext hin.isNext_replay, if_pos hterminal]
  · rw [changeType?, changeType?, hend', ht]
  · rw [beforeChange, beforeChange, hend', if_pos hend, if_pos hend, hbefore]

/-- An event that changes the state. What is left to show is what the change says of the order. -/
theorem Outcome.changed {m' : OrderMachine} (h : Outcome key es) (hin : InOrder key (es ++ [e]))
    (hend : ending? es = none) (he : e.ends ∨ e.isFill ∨ es = [])
    (hchange : ((replay key es).observe e).change? e.kind = some m')
    (hstate : m'.state = .after (beforeEnd (es ++ [e])) ((ending? (es ++ [e])).map Event.type))
    (horder : m'.order = (placed? (beforeEnd (es ++ [e]))).map fun p =>
      { p.1 with fills := (beforeEnd (es ++ [e])).filterMap (·.kind.fill?) })
    (htrader : m'.trader = (placed? (beforeEnd (es ++ [e]))).map (·.2))
    (hcancellation : m'.cancellation =
      if m'.state = .cancelled then (ending? (es ++ [e])).bind (·.kind.instruction?) else none) :
    Outcome key (es ++ [e]) := by
  have hlive := h.state_of_live hend
  have happly := apply_of_change? hin.isNext_replay
    (hlive ▸ OrderState.isTerminal_after_none es) hchange
  have hfrom := changedFrom_of_change? hchange
  have hreplay : replay key (es ++ [e]) = m' := by rw [replay_concat, happly]
  have hbefore := beforeChange_append hend he
  refine ⟨hreplay ▸ hstate, hreplay ▸ horder, hreplay ▸ htrader, hreplay ▸ hcancellation,
    ?_, ?_, ?_⟩
  · rw [hreplay, changeType?_append hend he, transition?, hfrom.cause]
    rfl
  · rw [hreplay, hbefore, hfrom.previous]
    exact hlive
  · rw [hbefore]
    intro _
    exact lastChange_of_changed (by rw [happly])

/-- An order that was placed is not placed again. -/
theorem Outcome.placedAgain {order : Order} {trader : PublicKey} (h : Outcome key es)
    (hin : InOrder key (es ++ [e])) (hend : ending? es = none) (hne : es ≠ [])
    (he : e.kind = .newOrder order trader) : Outcome key (es ++ [e]) := by
  have htype : e.type = .newOrder := congrArg EventKind.type he
  have hfill : e.isFill = false := by rw [isFill, htype]; rfl
  have hends : e.ends = false := by rw [ends, htype]; rfl
  have hend' : ending? (es ++ [e]) = none := ending?_append_of_not_ends hend hends
  have hlive := h.state_of_live hend
  have hunchanged : ((replay key es).observe e).change? e.kind = none := by
    have hstate : ((replay key es).observe e).state ≠ .unknown := by
      show (replay key es).state ≠ .unknown
      rw [hlive]
      exact fun h => hne (OrderState.after_none_eq_unknown_iff.mp h)
    rw [he, change?, if_neg hstate]
  have happly : (replay key es).apply e = ((replay key es).observe e, false) := by
    rw [apply_of_isNext hin.isNext_replay, hlive, OrderState.isTerminal_after_none, hunchanged]
    rfl
  refine h.observed hne happly ?_ ?_ ?_ (hend'.trans hend.symm) ?_ ?_
  · rw [hend', hend, beforeEnd_of_none hend', beforeEnd_of_none hend]
    simp [OrderState.after, hfill, hne]
  · rw [beforeEnd_of_none hend', beforeEnd_of_none hend, placed?_append hne]
  · rw [beforeEnd_of_none hend', beforeEnd_of_none hend]
    simp [he, EventKind.fill?]
  · simp [changeType?, hend, hend', hfill, hne]
  · rw [beforeChange, beforeChange, hend', hend, if_neg (by simp), if_neg (by simp),
      List.rdropWhile_concat_pos _ _ _ (by simp [hfill])]

theorem Outcome.placed {order : Order} {trader : PublicKey} (h : Outcome key [])
    (hin : InOrder key ([] ++ [e])) (he : e.kind = .newOrder order trader) :
    Outcome key ([] ++ [e]) := by
  have htype : e.type = .newOrder := congrArg EventKind.type he
  have hends : e.ends = false := by rw [ends, htype]; rfl
  have hend : ending? ([] ++ [e]) = none := ending?_append_of_not_ends rfl hends
  have hfill : e.isFill = false := by rw [isFill, htype]; rfl
  refine h.changed hin rfl (.inr (.inr rfl)) (by rw [he]; rfl) ?_ ?_ ?_ ?_
  · rw [hend, beforeEnd_of_none hend]
    simp [OrderState.after, hfill, enter]
  · rw [beforeEnd_of_none hend]
    simp [placed?, he, EventKind.fill?]
  · rw [beforeEnd_of_none hend]
    simp [placed?, he]
  · rfl

theorem Outcome.filled {account : PublicKey} {fill : Fill} (h : Outcome key es)
    (hin : InOrder key (es ++ [e])) (hend : ending? es = none) (he : e.kind = .fill account fill) :
    Outcome key (es ++ [e]) := by
  have htype : e.type = .fill := congrArg EventKind.type he
  have hfill : e.isFill := by rw [isFill, htype]; rfl
  have hends : e.ends = false := by rw [ends, htype]; rfl
  have hend' : ending? (es ++ [e]) = none := ending?_append_of_not_ends hend hends
  have hplaced : placed? (es ++ [e]) = placed? es := by
    by_cases hne : es = []
    · simp [hne, placed?, he]
    · exact placed?_append hne [e]
  have hfills : (es ++ [e]).filterMap (·.kind.fill?) = es.filterMap (·.kind.fill?) ++ [fill] := by
    simp [he, EventKind.fill?]
  have horder := h.order
  have htrader := h.trader
  rw [beforeEnd_of_none hend] at horder htrader
  refine h.changed hin hend (.inr (.inl hfill)) (by rw [he]; rfl) ?_ ?_ ?_ ?_
  · rw [hend', beforeEnd_of_none hend']
    simp [OrderState.after, hfill, enter]
  · rw [beforeEnd_of_none hend', hplaced, hfills]
    show (replay key es).order.map _ = _
    rw [horder, Option.map_map]
    rfl
  · rw [beforeEnd_of_none hend', hplaced]
    exact htrader
  · exact h.cancellation_of_live hend

/-- The end leaves the order as it is. -/
theorem Outcome.ended {m' : OrderMachine} (h : Outcome key es) (hin : InOrder key (es ++ [e]))
    (hend : ending? es = none) (he : e.ends)
    (hchange : ((replay key es).observe e).change? e.kind = some m')
    (horder : m'.order = (replay key es).order) (htrader : m'.trader = (replay key es).trader)
    (hstate : m'.state = .after es (some e.type))
    (hcancellation : m'.cancellation =
      if m'.state = .cancelled then e.kind.instruction? else none) :
    Outcome key (es ++ [e]) := by
  have hend' := ending?_append_of_ends hend he
  have hbefore := beforeEnd_append_of_ends hend he
  have hsame := beforeEnd_of_none hend
  refine h.changed hin hend (.inl he) hchange ?_ ?_ ?_ ?_
  · rw [hbefore, hend']
    exact hstate
  · rw [hbefore, horder, h.order, hsame]
  · rw [hbefore, htrader, h.trader, hsame]
  · rw [hend']
    exact hcancellation

/-- A closed order was executed just if a fill was counted. -/
theorem Outcome.closed (h : Outcome key es) (hin : InOrder key (es ++ [e]))
    (hend : ending? es = none) {i : InstructionRef} (he : e.kind = .orderClosed i) :
    Outcome key (es ++ [e]) := by
  have htype : e.type = .orderClosed := congrArg EventKind.type he
  have hends : e.ends := by rw [ends, htype]; rfl
  have hcount : ((replay key es).observe e).fillCount = es.countP isFill := by
    rw [← (hin.of_le (List.prefix_append _ _)).fillCount_replay, observe, htype]
    rfl
  have hstate : OrderState.after es (some e.type) =
      if es.any isFill then .executed else .cancelled := by
    rw [htype]
    rfl
  by_cases hfills : es.any isFill
  · have hne : ((replay key es).observe e).fillCount ≠ 0 := by
      obtain ⟨x, hx, hfill⟩ := List.any_eq_true.mp hfills
      have hpos : 0 < es.countP isFill := List.countP_pos_iff.mpr ⟨x, hx, hfill⟩
      omega
    have hchange : ((replay key es).observe e).change? e.kind =
        some (((replay key es).observe e).enter .executed .orderClosed) := by
      rw [he, change?, if_neg hne]
    refine h.ended hin hend hends hchange rfl rfl ?_ ?_
    · rw [hstate, if_pos hfills]
      rfl
    · exact h.cancellation_of_live hend
  · have hzero : ((replay key es).observe e).fillCount = 0 := by
      rw [hcount, List.countP_eq_zero]
      intro x hx hfill
      exact hfills (List.any_eq_true.mpr ⟨x, hx, hfill⟩)
    have hchange : ((replay key es).observe e).change? e.kind =
        some { ((replay key es).observe e).enter .cancelled .orderClosed with
          cancellation := some i } := by
      rw [he, change?, if_pos hzero]
    refine h.ended hin hend hends hchange rfl rfl ?_ ?_
    · rw [hstate, if_neg hfills]
      rfl
    · rw [he]
      rfl

theorem InOrder.outcome (h : InOrder key es) : Outcome key es := by
  induction es using List.reverseRecOn with
  | nil => exact ⟨rfl, rfl, rfl, rfl, rfl, rfl, fun hne => absurd rfl hne⟩
  | append_singleton es e ih =>
    have hinit := ih (h.of_le (List.prefix_append _ _))
    by_cases hend : (ending? es).isSome
    · exact hinit.late h hend
    have hend : ending? es = none := by simpa using hend
    cases hkind : e.kind with
    | newOrder order trader =>
      by_cases hne : es = []
      · subst hne
        exact hinit.placed h hkind
      · exact hinit.placedAgain h hend hne hkind
    | fill account fill => exact hinit.filled h hend hkind
    | orderExecuted =>
      have htype : e.type = .orderExecuted := congrArg EventKind.type hkind
      have hends : e.ends := by rw [ends, htype]; rfl
      have hchange : ((replay key es).observe e).change? e.kind =
          some (((replay key es).observe e).enter .executed .orderExecuted) := by
        rw [hkind]
        rfl
      refine hinit.ended h hend hends hchange rfl rfl ?_ ?_
      · rw [htype]
        rfl
      · exact hinit.cancellation_of_live hend
    | orderCancelled i =>
      have htype : e.type = .orderCancelled := congrArg EventKind.type hkind
      have hends : e.ends := by rw [ends, htype]; rfl
      have hchange : ((replay key es).observe e).change? e.kind =
          some { ((replay key es).observe e).enter .cancelled .orderCancelled with
            cancellation := some i } := by
        rw [hkind]
        rfl
      refine hinit.ended h hend hends hchange rfl rfl ?_ ?_
      · rw [htype]
        rfl
      · rw [hkind]
        rfl
    | orderClosed i => exact hinit.closed h hend hkind

/-- Folding the events of an order gives the state, the order, the trader, the cancellation and the
last change that the events declare. The order is cancelled just if an instruction is named for it,
and every fill is counted. -/
theorem replay_outcome (h : InOrder key es) :
    Outcome key es ∧
      ((replay key es).cancellation.isSome ↔ (replay key es).state = .cancelled) ∧
      (replay key es).fillCount = es.countP isFill := by
  have houtcome := h.outcome
  refine ⟨houtcome, ?_, h.fillCount_replay⟩
  rw [houtcome.cancellation]
  constructor
  · intro hsome
    by_contra hstate
    rw [if_neg hstate] at hsome
    cases hsome
  · intro hstate
    rw [if_pos hstate]
    exact OrderState.exists_end_of_after_eq_cancelled (houtcome.state.symm.trans hstate)

namespace FilledAgain

/-- An order that is placed twice and filled once more after it was closed. -/
def late : List Event :=
  [placed, filled, event 6 12 placed.kind, closed, event 6 14 filled.kind]

end FilledAgain

open FilledAgain in
/-- An order that was closed after one of its fills is executed, and stays so when the other comes. -/
theorem replay_outcome_of_late_fill :
    InOrder placed.order late ∧ Outcome placed.order late ∧
      (replay placed.order late).state = .executed ∧
      (replay placed.order late).previous = .partiallyFilled ∧
      (replay placed.order late).cancellation.isSome = false ∧
      (replay placed.order late).fillCount = 2 := by
  have h : InOrder placed.order late := ⟨by decide, by decide⟩
  obtain ⟨houtcome, hcancelled, hcount⟩ := replay_outcome h
  have hstate : (replay placed.order late).state = .executed := houtcome.state.trans (by decide)
  refine ⟨h, houtcome, hstate, houtcome.previous.trans (by decide), ?_, hcount.trans (by decide)⟩
  rw [Bool.eq_false_iff]
  intro hsome
  cases hstate.symm.trans (hcancelled.mp hsome)

end OrderMachine
end DexIndex
