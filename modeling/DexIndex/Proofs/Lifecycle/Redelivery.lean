import DexIndex.Proofs.Lifecycle.Replay

/-!
# Events delivered again

An event of another order, and one that stands no later than an event of the order that was delivered
before it, make no difference wherever they come among the events (`Redelivered.fold_eq`). What counts
of a list of events are those of the order that stand after all events of the order before them
(`fresh`): the fold of these is the fold of the list, and so are its transitions.
-/

namespace DexIndex.OrderMachine
variable {key : OrderKey} {seen es es' : List Event} {e : Event}

/-- Whether an event is of the order and stands after all events of the order that were delivered. -/
def IsFresh (key : OrderKey) (seen : List Event) (e : Event) : Prop :=
  e.order = key ∧ ∀ x ∈ seen, x.order = key → x.position.before e.position

instance : Decidable (IsFresh key seen e) := inferInstanceAs (Decidable (_ ∧ _))

/-- The events that are fresh when their turn comes, after those already delivered. -/
def fresh (key : OrderKey) (seen : List Event) : List Event → List Event
  | [] => []
  | e :: es =>
    if IsFresh key seen e then e :: fresh key (seen ++ [e]) es else fresh key (seen ++ [e]) es

/-- Whether an event is of another order, or stands no later than an event of the order that was
delivered. -/
def IsStale (key : OrderKey) (seen : List Event) (e : Event) : Prop :=
  e.order = key → ∃ x ∈ seen, x.order = key ∧ ¬x.position.before e.position

theorem isStale_iff : IsStale key seen e ↔ ¬IsFresh key seen e := by
  simp [IsStale, IsFresh]

theorem IsStale.append (h : IsStale key seen e) (more : List Event) :
    IsStale key (seen ++ more) e := by
  intro hkey
  obtain ⟨x, hx, hbefore⟩ := h hkey
  exact ⟨x, List.mem_append_left _ hx, hbefore⟩

/-- `es'` delivers the events of `es`, with events among them that are stale when their turn comes. -/
inductive Redelivered (key : OrderKey) : (seen es es' : List Event) → Prop
  | nil {seen : List Event} : Redelivered key seen [] []
  | deliver {seen es es' : List Event} (e : Event)
      (rest : Redelivered key (seen ++ [e]) es es') : Redelivered key seen (e :: es) (e :: es')
  | again {seen es es' : List Event} {x : Event} (stale : IsStale key seen x)
      (rest : Redelivered key (seen ++ [x]) es es') : Redelivered key seen es (x :: es')

theorem replay_isNext_iff : (replay key seen).isNext e ↔ IsFresh key seen e := isNext_replay_iff

theorem replay_concat (key : OrderKey) (seen : List Event) (e : Event) :
    replay key (seen ++ [e]) = ((replay key seen).apply e).1 :=
  replay_append key seen [e]

theorem apply_of_isStale (h : IsStale key seen e) :
    (replay key seen).apply e = (replay key seen, false) := by
  refine apply_of_not_next ?_
  rw [Bool.eq_false_iff]
  exact fun hnext => isStale_iff.mp h (replay_isNext_iff.mp hnext)

namespace Redelivered

theorem refl (key : OrderKey) (seen es : List Event) : Redelivered key seen es es := by
  induction es generalizing seen with
  | nil => exact .nil
  | cons e es ih => exact .deliver e (ih _)

theorem insert {a b xs : List Event} (h : ∀ x ∈ xs, IsStale key (seen ++ a) x) :
    Redelivered key seen (a ++ b) (a ++ xs ++ b) := by
  induction a generalizing seen with
  | nil =>
    -- an event stays stale when more has been delivered
    rw [List.append_nil] at h
    rw [List.nil_append, List.nil_append]
    induction xs generalizing seen with
    | nil => exact refl ..
    | cons x xs ih =>
      obtain ⟨hx, hxs⟩ := List.forall_mem_cons.mp h
      exact .again hx (ih fun y hy => (hxs y hy).append [x])
  | cons e a ih =>
    refine .deliver e (ih fun x hx => ?_)
    rw [List.append_assoc]
    exact h x hx

theorem of_fresh (key : OrderKey) (seen es : List Event) :
    Redelivered key seen (fresh key seen es) es := by
  induction es generalizing seen with
  | nil => exact .nil
  | cons e es ih =>
    rw [fresh]
    split
    · exact .deliver e (ih _)
    · next hfresh => exact .again (isStale_iff.mpr hfresh) (ih _)

/-- After the same events, both lists are folded to the same machine and make the same transitions. -/
theorem fold_eq (h : Redelivered key seen es es') :
    (replay key seen).applyAll es' = (replay key seen).applyAll es ∧
      (replay key seen).changes es' = (replay key seen).changes es := by
  induction h with
  | nil => exact ⟨rfl, rfl⟩
  | @deliver seen es es' e rest ih =>
    rw [replay_concat] at ih
    exact ⟨ih.1, congrArg (_ ++ ·) ih.2⟩
  | @again seen es es' x stale rest ih =>
    -- the machine is the same before and after, so that what follows is folded from the same machine
    have happly := apply_of_isStale stale
    rw [replay_concat, happly] at ih
    refine ⟨?_, ?_⟩
    · show ((replay key seen).apply x).1.applyAll es' = _
      rw [happly]
      exact ih.1
    · rw [changes, happly]
      exact ih.2

end Redelivered

/-- Only the fresh events of a list count, in every field of the machine and in the transitions, and
events that are delivered again in any number and at any place count for nothing. -/
theorem replay_redelivered (key : OrderKey) (es : List Event) :
    (replay key (fresh key [] es) = replay key es ∧
      (start key).changes (fresh key [] es) = (start key).changes es) ∧
    (∀ es', Redelivered key [] es es' →
      replay key es' = replay key es ∧ (start key).changes es' = (start key).changes es) ∧
    ∀ a b xs, es = a ++ b → (∀ x ∈ xs, IsStale key a x) →
      replay key (a ++ xs ++ b) = replay key es ∧
        (start key).changes (a ++ xs ++ b) = (start key).changes es := by
  refine ⟨?_, fun es' h => h.fold_eq, ?_⟩
  · obtain ⟨hfold, hchanges⟩ := (Redelivered.of_fresh key [] es).fold_eq
    exact ⟨hfold.symm, hchanges.symm⟩
  · rintro a b xs rfl h
    have hredelivered : Redelivered key [] (a ++ b) (a ++ xs ++ b) := .insert h
    exact hredelivered.fold_eq

namespace FilledAgain

/-- An event of a market in a slot of its own. -/
def event (seq slot : UInt64) (kind : EventKind) : Event :=
  ⟨⟨⟨⟨List.replicate 32 7, rfl⟩, seq⟩, ⟨slot, 0, 0⟩, "", .epoch⟩, kind⟩

def placed : Event :=
  event 6 10 (.newOrder ⟨.bid, 7, 3, .limit, 0, "", []⟩ ⟨List.replicate 32 8, rfl⟩)

def filled : Event :=
  event 6 11 (.fill ⟨List.replicate 32 9, rfl⟩ ⟨.bid, false, 7, 1, 0, 0, 0, 0, ""⟩)

def elsewhere : Event := event 8 12 .orderExecuted

def closed : Event := event 6 13 (.orderClosed ⟨"", ⟨13, 0, 0⟩⟩)

end FilledAgain

open FilledAgain in
/-- An order whose fill comes twice, before and after it is closed, has one fill. -/
theorem replay_redelivered_of_fill :
    Redelivered filled.order [] [placed, filled, closed]
        [placed, filled, placed, filled, elsewhere, closed, filled] ∧
      replay filled.order [placed, filled, placed, filled, elsewhere, closed, filled] =
        replay filled.order [placed, filled, closed] ∧
      (replay filled.order [placed, filled, closed]).fillCount = 1 := by
  have h : Redelivered filled.order [] [placed, filled, closed]
      [placed, filled, placed, filled, elsewhere, closed, filled] :=
    .deliver placed <| .deliver filled <|
      .again (isStale_iff.mpr (by decide)) <| .again (isStale_iff.mpr (by decide)) <|
        .again (isStale_iff.mpr (by decide)) <| .deliver closed <|
          .again (isStale_iff.mpr (by decide)) .nil
  exact ⟨h, ((replay_redelivered filled.order _).2.1 _ h).1, by decide⟩

end DexIndex.OrderMachine
