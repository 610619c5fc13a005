import DexIndex.Lifecycle
import DexIndex.Proofs.Key.Order
import Mathlib.Data.List.Induction

/-!
# Folding the events of an order

What folding one event can do (`OrderMachine.apply_cases`), the transitions that folding a list of
events sends (`OrderMachine.changes`), and events that are folded again: on top of the first events of
an order, any run of events that goes on from within them gives the fold of the longer list
(`OrderMachine.applyAll_overlap`).
-/

namespace DexIndex.OrderMachine
variable {m m' : OrderMachine} {e : Event} {key : OrderKey}

/-! ### One event -/

/-- What a change leaves as it was, and what it says of itself. -/
structure ChangedFrom (m m' : OrderMachine) (e : Event) : Prop where
  key : m'.key = m.key
  lastPosition : m'.lastPosition = m.lastPosition
  fillCount : m'.fillCount = m.fillCount
  previous : m'.previous = m.state
  cause : m'.cause = some e.type

theorem changedFrom_of_change? (h : m.change? e.kind = some m') : m.ChangedFrom m' e := by
  obtain ⟨ref, kind⟩ := e
  cases kind with
  | newOrder order trader =>
    simp only [change?] at h
    split at h
    · cases h
      exact ⟨rfl, rfl, rfl, rfl, rfl⟩
    · cases h
  | fill account fill =>
    cases h
    exact ⟨rfl, rfl, rfl, rfl, rfl⟩
  | orderExecuted =>
    cases h
    exact ⟨rfl, rfl, rfl, rfl, rfl⟩
  | orderCancelled i =>
    cases h
    exact ⟨rfl, rfl, rfl, rfl, rfl⟩
  | orderClosed i =>
    simp only [change?] at h
    split at h
    · cases h
      exact ⟨rfl, rfl, rfl, rfl, rfl⟩
    · cases h
      exact ⟨rfl, rfl, rfl, rfl, rfl⟩

/-- How folding an event can end. -/
inductive Applied (m : OrderMachine) (e : Event) : OrderMachine × Bool → Prop
  | ignored (next : m.isNext e = false) : Applied m e (m, false)
  | observed (next : m.isNext e) (ends : m.state.isTerminal ∨ m.state ≠ .unknown ∧
      e.type = .newOrder) : Applied m e (m.observe e, false)
  | changed {m' : OrderMachine} (next : m.isNext e) (live : m.state.isTerminal = false)
      (change : (m.observe e).change? e.kind = some m') : Applied m e (m', true)

theorem apply_applied (m : OrderMachine) (e : Event) : Applied m e (m.apply e) := by
  unfold apply
  by_cases hnext : m.isNext e
  · rw [if_pos hnext]
    have hstate : (m.observe e).state = m.state := rfl
    dsimp only
    by_cases hterminal : m.state.isTerminal
    · rw [hstate, if_pos hterminal]
      exact .observed hnext (.inl hterminal)
    · rw [hstate, if_neg hterminal]
      cases hchange : (m.observe e).change? e.kind with
      | some m' => exact .changed hnext (by simpa using hterminal) hchange
      | none =>
        refine .observed hnext (.inr ?_)
        obtain ⟨ref, kind⟩ := e
        cases kind with
        | newOrder order trader =>
          refine ⟨fun h => ?_, rfl⟩
          simp [change?, hstate, h] at hchange
        | orderClosed i =>
          simp only [change?] at hchange
          split at hchange <;> cases hchange
        | _ => cases hchange
  · rw [if_neg hnext]
    exact .ignored (by simpa using hnext)

theorem apply_of_not_next (h : m.isNext e = false) : m.apply e = (m, false) := by
  rw [apply, if_neg (by simp [h])]

@[simp] theorem key_apply (m : OrderMachine) (e : Event) : (m.apply e).1.key = m.key := by
  have h := m.apply_applied e
  generalize m.apply e = r at h
  cases h with
  | ignored => rfl
  | observed => rfl
  | changed _ _ change => exact (changedFrom_of_change? change).key

theorem lastPosition_apply (h : m.isNext e) : (m.apply e).1.lastPosition = some e.position := by
  have ha := m.apply_applied e
  generalize m.apply e = r at ha
  cases ha with
  | ignored next => simp [next] at h
  | observed => rfl
  | changed _ _ change => exact (changedFrom_of_change? change).lastPosition

theorem isSome_transition?_of_changed (h : (m.apply e).2) : (m.apply e).1.transition?.isSome := by
  have ha := m.apply_applied e
  generalize m.apply e = r at h ha
  cases ha with
  | ignored => cases h
  | observed => cases h
  | changed _ _ change => simp [transition?, (changedFrom_of_change? change).cause]

/-! ### Many events -/

theorem applyAll_append (m : OrderMachine) (a b : List Event) :
    m.applyAll (a ++ b) = (m.applyAll a).applyAll b :=
  List.foldl_append

theorem applyAll_singleton (m : OrderMachine) (e : Event) : m.applyAll [e] = (m.apply e).1 := rfl

theorem replay_append (key : OrderKey) (a b : List Event) :
    replay key (a ++ b) = (replay key a).applyAll b :=
  applyAll_append _ a b

@[simp] theorem key_applyAll (m : OrderMachine) (es : List Event) : (m.applyAll es).key = m.key := by
  induction es generalizing m with
  | nil => rfl
  | cons e es ih => exact (ih _).trans (key_apply m e)

@[simp] theorem key_replay (key : OrderKey) (es : List Event) : (replay key es).key = key :=
  key_applyAll _ es

theorem applyAll_of_not_next {es : List Event} (h : ∀ e ∈ es, m.isNext e = false) :
    m.applyAll es = m := by
  induction es with
  | nil => rfl
  | cons e es ih =>
    obtain ⟨he, hes⟩ := List.forall_mem_cons.mp h
    show (m.apply e).1.applyAll es = m
    rw [apply_of_not_next he]
    exact ih hes

/-- An event is next if it is of the order and stands after all events of the order so far. -/
theorem isNext_replay_iff {es : List Event} :
    (replay key es).isNext e ↔
      e.order = key ∧ ∀ x ∈ es, x.order = key → x.position.before e.position := by
  induction es using List.reverseRecOn generalizing e with
  | nil => simp [replay, applyAll, isNext, start]
  | append_singleton es x ih =>
    rw [replay_append, applyAll_singleton]
    by_cases hx : (replay key es).isNext x
    · obtain ⟨hxkey, hlast⟩ := ih.mp hx
      rw [isNext, lastPosition_apply hx, key_apply, key_replay, Option.all_some,
        Bool.and_eq_true, beq_iff_eq]
      refine and_congr_right fun _ => ⟨fun hbefore y hy hykey => ?_, fun hall => ?_⟩
      · rcases List.mem_append.mp hy with hy | hy
        · exact EventPosition.before_trans (hlast y hy hykey) hbefore
        · exact List.mem_singleton.mp hy ▸ hbefore
      · exact hall x (by simp) hxkey
    · rw [apply_of_not_next (by simpa using hx), ih]
      refine and_congr_right fun _ => ⟨fun hall y hy hykey => ?_, fun hall y hy => ?_⟩
      · rcases List.mem_append.mp hy with hy | hy
        · exact hall y hy hykey
        · -- an event that was not next stands no later than one before it
          obtain rfl := List.mem_singleton.mp hy
          by_contra hbefore
          refine hx (ih.mpr ⟨hykey, fun z hz hzkey => ?_⟩)
          by_contra hzy
          exact hbefore (EventPosition.before_of_not_before hzy (hall z hz hzkey))
      · exact hall y (List.mem_append_left _ hy)

/-! ### Events in order -/

/-- Events of one order in the order of their positions. -/
structure InOrder (key : OrderKey) (es : List Event) : Prop where
  positions : es.Pairwise fun a b => a.position.before b.position
  orders : ∀ e ∈ es, e.order = key

theorem InOrder.of_le {a b : List Event} (h : InOrder key b) (hab : a <+: b) : InOrder key a :=
  ⟨h.positions.sublist hab.sublist, fun e he => h.orders e (hab.subset he)⟩

theorem InOrder.isNext_replay {es : List Event} (h : InOrder key (es ++ [e])) :
    (replay key es).isNext e := by
  refine isNext_replay_iff.mpr ⟨h.orders e (by simp), fun x hx _ => ?_⟩
  exact (List.pairwise_append.mp h.positions).2.2 x hx e (by simp)

theorem InOrder.lastPosition_replay {es : List Event} (h : InOrder key es) :
    (replay key es).lastPosition = es.getLast?.map Event.position := by
  rcases List.eq_nil_or_concat es with rfl | ⟨init, e, rfl⟩
  · rfl
  · rw [List.concat_eq_append] at h ⊢
    rw [replay_append, applyAll_singleton, lastPosition_apply h.isNext_replay, List.getLast?_append]
    rfl

/-- No event that was folded is next again. -/
theorem InOrder.not_isNext_replay {es : List Event} (h : InOrder key es) (he : e ∈ es) :
    (replay key es).isNext e = false := by
  rw [Bool.eq_false_iff]
  intro hnext
  have hself := (isNext_replay_iff.mp hnext).2 e he (h.orders e he)
  rw [EventPosition.before_self] at hself
  cases hself

/-- A run of events that goes on from within the events that were folded first. -/
theorem InOrder.applyAll_overlap {written first old events : List Event} (h : InOrder key written)
    (hfirst : first <+: written) (hevents : old ++ events <+: written) (hold : old <+: first) :
    (old ++ events <+: first ∧ (replay key first).applyAll events = replay key first) ∨
      (first <+: old ++ events ∧
        (replay key first).applyAll events = replay key (old ++ events)) := by
  rcases List.prefix_or_prefix_of_prefix hevents hfirst with hle | hle
  · refine .inl ⟨hle, applyAll_of_not_next fun e he => ?_⟩
    exact (h.of_le hfirst).not_isNext_replay (hle.subset (List.mem_append_right _ he))
  · refine .inr ⟨hle, ?_⟩
    obtain ⟨mid, rfl⟩ := hold
    obtain ⟨rest, hrest⟩ := hle
    obtain rfl : mid ++ rest = events := by simpa using hrest
    have hseen : (replay key (old ++ mid)).applyAll mid = replay key (old ++ mid) :=
      applyAll_of_not_next fun e he =>
        (h.of_le hfirst).not_isNext_replay (List.mem_append_right _ he)
    rw [applyAll_append, hseen, ← List.append_assoc, replay_append key (old ++ mid)]

theorem isSome_transition?_apply (h : m.transition?.isSome) (e : Event) :
    (m.apply e).1.transition?.isSome := by
  have ha := m.apply_applied e
  generalize m.apply e = r at ha
  cases ha with
  | ignored => exact h
  | observed => simpa [transition?, observe] using h
  | changed _ _ change => simp [transition?, (changedFrom_of_change? change).cause]

/-- Whatever the first event of an order is, it changes the state. -/
theorem InOrder.isSome_transition?_replay {es : List Event} (h : InOrder key es) (hne : es ≠ []) :
    (replay key es).transition?.isSome := by
  induction es using List.reverseRecOn with
  | nil => exact absurd rfl hne
  | append_singleton es e ih =>
    rw [replay_append, applyAll_singleton]
    by_cases hes : es = []
    · subst hes
      refine isSome_transition?_of_changed ?_
      have hnext : (start key).isNext e := h.isNext_replay
      have ha := (start key).apply_applied e
      show ((start key).apply e).2 = true
      generalize (start key).apply e = r at ha
      cases ha with
      | ignored next => simp [next] at hnext
      | observed _ ends =>
        rcases ends with hends | ⟨hends, _⟩
        · cases hends
        · exact absurd rfl hends
      | changed => rfl
    · exact isSome_transition?_apply (ih (h.of_le (List.prefix_append _ _)) hes) e

/-! ### Transitions sent -/

/-- The transitions that folding events makes, one for each event that changes the state. -/
def changes (m : OrderMachine) : List Event → List OrderTransition
  | [] => []
  | e :: es =>
    (if (m.apply e).2 then (m.apply e).1.transition?.toList else []) ++ (m.apply e).1.changes es

theorem changes_append (m : OrderMachine) (a b : List Event) :
    m.changes (a ++ b) = m.changes a ++ (m.applyAll a).changes b := by
  induction a generalizing m with
  | nil => rfl
  | cons e a ih =>
    rw [List.cons_append, changes, changes, ih, List.append_assoc]
    rfl

theorem changes_singleton (m : OrderMachine) (e : Event) :
    m.changes [e] = if (m.apply e).2 then (m.apply e).1.transition?.toList else [] := by
  simp [changes]

theorem apply_of_isTerminal (h : m.state.isTerminal) (e : Event) :
    (m.apply e).2 = false ∧ (m.apply e).1.state = m.state := by
  have ha := m.apply_applied e
  generalize m.apply e = r at ha
  cases ha with
  | ignored => exact ⟨rfl, rfl⟩
  | observed => exact ⟨rfl, rfl⟩
  | changed _ live => simp [h] at live

theorem changes_of_isTerminal (h : m.state.isTerminal) (es : List Event) : m.changes es = [] := by
  induction es generalizing m with
  | nil => rfl
  | cons e es ih =>
    obtain ⟨hchanged, hstate⟩ := apply_of_isTerminal h e
    rw [changes, hchanged, ih (hstate ▸ h)]
    rfl

theorem current_of_mem_transition? {item : OrderTransition} (h : m.transition? = some item) :
    item.current = m.state := by
  obtain ⟨cause, _, rfl⟩ := Option.map_eq_some_iff.mp h
  rfl

/-- Nothing follows the transition to a terminal state. -/
theorem pairwise_changes (m : OrderMachine) (es : List Event) :
    (m.transition?.toList ++ m.changes es).Pairwise fun a _ => a.current.isTerminal = false := by
  have hsplit (m : OrderMachine) (es : List Event)
      (h : (m.changes es).Pairwise fun a _ => a.current.isTerminal = false) :
      (m.transition?.toList ++ m.changes es).Pairwise fun a _ => a.current.isTerminal = false := by
    cases ht : m.transition? with
    | none => exact h
    | some item =>
      refine List.pairwise_cons.mpr ⟨fun b hb => ?_, h⟩
      rw [current_of_mem_transition? ht]
      by_contra hterminal
      rw [changes_of_isTerminal (by simpa using hterminal)] at hb
      cases hb
  refine hsplit m es ?_
  induction es generalizing m with
  | nil => exact .nil
  | cons e es ih =>
    rw [changes]
    split
    · exact hsplit _ _ (ih _)
    · exact ih _

end DexIndex.OrderMachine
