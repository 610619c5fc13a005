import DexIndex.Live

/-!
# Subscribers and their mailboxes

A subscriber touches its own mailbox only. `Subscriber.Delivered` and `Subscriber.Taken` say all that
sending what is known and taking an event can do to the two, and `Subscriber.takeAll_taken` that an
event given to several subscribers does this to each.
-/

namespace DexIndex

namespace Mailboxes

theorem find?_update (boxes : Mailboxes) (id : Nat) (f : Mailbox → Mailbox) (i : Nat) :
    (boxes.update id f).find? i = if i = id then (boxes.find? i).map f else boxes.find? i := by
  unfold find? update
  induction boxes with
  | nil => simp
  | cons b boxes ih =>
    obtain ⟨j, box⟩ := b
    rw [List.map_cons]
    by_cases hj : j = id
    · subst hj
      simp only [if_true, List.lookup_cons]
      by_cases hi : i = j
      · simp [hi]
      · rw [beq_eq_false_iff_ne.mpr hi]
        exact ih
    · simp only [if_neg hj, List.lookup_cons]
      by_cases hi : i = j
      · subst hi
        simp [hj]
      · rw [beq_eq_false_iff_ne.mpr hi]
        exact ih

theorem find?_eq_ite {boxes : Mailboxes} {id : Nat} {box : Mailbox} (h : boxes.find? id = some box)
    (i : Nat) : boxes.find? i = if i = id then some box else boxes.find? i := by
  split
  · next hi => rw [hi, h]
  · rfl

theorem find?_concat {boxes : Mailboxes} {id : Nat} (h : boxes.find? id = none) (box : Mailbox)
    (i : Nat) :
    find? (boxes ++ [(id, box)]) i = if i = id then some box else boxes.find? i := by
  unfold find? at *
  rw [List.lookup_append, List.lookup_cons, List.lookup_nil]
  by_cases hi : i = id
  · subst hi
    simp [h]
  · rw [beq_eq_false_iff_ne.mpr hi, Option.or_none, if_neg hi]

theorem isReceiving_of_find? {boxes : Mailboxes} {id : Nat} {box : Mailbox}
    (h : boxes.find? id = some box) : boxes.isReceiving id = box.receiving := by
  rw [isReceiving, h, Option.any_some]

end Mailboxes

namespace Subscriber
variable {s : Subscriber} {limit : Nat} {boxes : Mailboxes} {box : Mailbox} {e : Event}

/-- What sending what is known does to a mailbox; the flag tells whether the subscriber stays. -/
inductive Delivered (s : Subscriber) (limit : Nat) (box : Mailbox) : Bool × Mailbox → Prop
  | nothing (unknown : s.machine.transition? = none) : Delivered s limit box (true, box)
  | sent {item : OrderTransition} (known : s.machine.transition? = some item)
      (receiving : box.receiving) (room : box.items.length < limit) :
      Delivered s limit box
        (!OrderState.isTerminal s.machine.state, { box with items := box.items ++ [item] })
  | refused {item : OrderTransition} (known : s.machine.transition? = some item)
      (full : box.receiving = false ∨ limit ≤ box.items.length) : Delivered s limit box (false, box)

theorem deliver_delivered (h : boxes.find? s.id = some box) :
    ∃ box', Delivered s limit box ((s.deliver limit boxes).1, box') ∧
      ∀ i, (s.deliver limit boxes).2.find? i = if i = s.id then some box' else boxes.find? i := by
  have hsame := Mailboxes.find?_eq_ite h
  unfold deliver
  cases hitem : s.machine.transition? with
  | none => exact ⟨box, .nothing hitem, hsame⟩
  | some item =>
    have hcurrent : item.current = s.machine.state := by
      obtain ⟨cause, _, rfl⟩ := Option.map_eq_some_iff.mp hitem
      rfl
    simp only [Mailboxes.send?, h]
    by_cases hroom : box.receiving ∧ box.items.length < limit
    · refine ⟨{ box with items := box.items ++ [item] }, ?_, fun i => ?_⟩
      · rw [if_pos hroom]
        dsimp only
        rw [hcurrent]
        exact .sent hitem hroom.1 hroom.2
      · rw [if_pos hroom]
        dsimp only
        rw [Mailboxes.find?_update]
        split
        · next hi => rw [hi, h, Option.map_some]
        · rfl
    · refine ⟨box, ?_, fun i => ?_⟩
      · rw [if_neg hroom]
        refine .refused hitem ?_
        by_cases hr : box.receiving
        · exact .inr (Nat.not_lt.mp fun hlt => hroom ⟨hr, hlt⟩)
        · exact .inl (by simpa using hr)
      · rw [if_neg hroom]
        exact hsame i

/-- A subscriber after it has folded an event. -/
def fold (s : Subscriber) (e : Event) : Subscriber := { s with machine := (s.machine.apply e).1 }

/-- What taking an event does to a subscriber and its mailbox. -/
inductive Taken (s : Subscriber) (limit : Nat) (e : Event) (box : Mailbox) :
    Option Subscriber × Mailbox → Prop
  | waiting {events : List Event} (waiting : s.waiting = some events) :
      Taken s limit e box (some { s with waiting := some (events ++ [e]) }, box)
  | unchanged (seeded : s.waiting = none) (changed : (s.machine.apply e).2 = false) :
      Taken s limit e box (some (s.fold e), box)
  | changed {stays : Bool} {box' : Mailbox} (seeded : s.waiting = none)
      (changed : (s.machine.apply e).2) (delivered : (s.fold e).Delivered limit box (stays, box')) :
      Taken s limit e box (if stays then some (s.fold e) else none, box')

theorem take_taken (s : Subscriber) (limit : Nat) (e : Event) (h : boxes.find? s.id = some box) :
    ∃ box', Taken s limit e box ((s.take limit e boxes).1, box') ∧
      ∀ i, (s.take limit e boxes).2.find? i = if i = s.id then some box' else boxes.find? i := by
  have hsame := Mailboxes.find?_eq_ite h
  obtain ⟨id, machine, waiting⟩ := s
  cases waiting with
  | some events => exact ⟨box, .waiting rfl, hsame⟩
  | none =>
    by_cases hc : (machine.apply e).2
    · obtain ⟨box', hd, hframe⟩ :=
        deliver_delivered (s := fold ⟨id, machine, none⟩ e) h
      refine ⟨box', ?_, ?_⟩
      · simp only [take, hc, if_true]
        exact .changed rfl hc hd
      · simp only [take, hc, if_true]
        exact hframe
    · refine ⟨box, ?_, ?_⟩
      · simp only [take, hc]
        exact .unchanged rfl (by simpa using hc)
      · simp only [take, hc]
        exact hsame

theorem Taken.id_eq {s' : Subscriber} {box' : Mailbox} (h : Taken s limit e box (some s', box')) :
    s'.id = s.id := by
  generalize hr : (some s', box') = r at h
  cases h with
  | waiting => cases hr; rfl
  | unchanged => cases hr; rfl
  | @changed stays =>
    cases stays with
    | true => cases hr; rfl
    | false => cases hr

/-- A subscriber that does not stay could not be sent anything, or nothing more is to come. -/
theorem Taken.delivered {box' : Mailbox} (h : Taken s limit e box (none, box')) :
    (s.fold e).Delivered limit box (false, box') := by
  generalize hr : (none, box') = r at h
  cases h with
  | waiting => cases hr
  | unchanged => cases hr
  | @changed stays _ _ _ delivered =>
    cases stays with
    | true => cases hr
    | false => cases hr; exact delivered

theorem ids_takeAll (limit : Nat) (e : Event) (subs : List Subscriber) (boxes : Mailboxes)
    (h : ∀ s ∈ subs, (boxes.find? s.id).isSome) :
    ((takeAll limit e subs boxes).1.map (·.id)).Sublist (subs.map (·.id)) ∧
      ∀ i, ((takeAll limit e subs boxes).2.find? i).isSome = (boxes.find? i).isSome := by
  induction subs generalizing boxes with
  | nil => exact ⟨.slnil, fun _ => rfl⟩
  | cons s rest ih =>
    obtain ⟨hs, hrest⟩ := List.forall_mem_cons.mp h
    obtain ⟨box, hbox⟩ := Option.isSome_iff_exists.mp hs
    obtain ⟨box', htaken, hframe⟩ := s.take_taken limit e hbox
    have hsome (i : Nat) : ((s.take limit e boxes).2.find? i).isSome = (boxes.find? i).isSome := by
      rw [hframe i]
      split
      · next hi => rw [hi, hbox]; rfl
      · rfl
    obtain ⟨hsub, hkeep⟩ := ih (s.take limit e boxes).2 fun t ht => by rw [hsome]; exact hrest t ht
    refine ⟨?_, fun i => (hkeep i).trans (hsome i)⟩
    simp only [takeAll, List.map_append, List.map_cons]
    cases hkept : (s.take limit e boxes).1 with
    | none => exact hsub.cons _
    | some s' =>
      rw [hkept] at htaken
      rw [Option.toList_some, List.map_singleton, htaken.id_eq]
      exact hsub.cons_cons _

/-- An event given to several subscribers is taken by each on its own. -/
theorem takeAll_taken (limit : Nat) (e : Event) {subs : List Subscriber} {boxes : Mailboxes}
    (hids : (subs.map (·.id)).Nodup) (hboxes : ∀ s ∈ subs, (boxes.find? s.id).isSome) (i : Nat) :
    (subs.find? (·.id == i) = none ∧
        (takeAll limit e subs boxes).1.find? (·.id == i) = none ∧
        (takeAll limit e subs boxes).2.find? i = boxes.find? i) ∨
      ∃ s box box', subs.find? (·.id == i) = some s ∧ boxes.find? i = some box ∧
        (takeAll limit e subs boxes).2.find? i = some box' ∧
        Taken s limit e box ((takeAll limit e subs boxes).1.find? (·.id == i), box') := by
  induction subs generalizing boxes with
  | nil => exact .inl ⟨rfl, rfl, rfl⟩
  | cons s rest ih =>
    obtain ⟨hs, hrest⟩ := List.forall_mem_cons.mp hboxes
    obtain ⟨hnew, hids⟩ := List.nodup_cons.mp hids
    obtain ⟨box, hbox⟩ := Option.isSome_iff_exists.mp hs
    obtain ⟨box', htaken, hframe⟩ := s.take_taken limit e hbox
    have hboxes' : ∀ t ∈ rest, ((s.take limit e boxes).2.find? t.id).isSome := by
      intro t ht
      rw [hframe]
      split
      · rfl
      · exact hrest t ht
    have hih := ih hids hboxes'
    have hkept : (s.take limit e boxes).1.toList.find? (·.id == i) =
        if i = s.id then (s.take limit e boxes).1 else none := by
      cases hk : (s.take limit e boxes).1 with
      | none => simp
      | some s' =>
        rw [hk] at htaken
        have hid := htaken.id_eq
        by_cases hi : i = s.id
        · simp [hi, hid]
        · simp [hid, hi, Ne.symm hi]
    simp only [takeAll, List.find?_append, hkept]
    by_cases hi : i = s.id
    · -- the other subscribers have other numbers
      have hnone : rest.find? (·.id == i) = none := by
        refine List.find?_eq_none.mpr fun t ht heq => hnew ?_
        exact List.mem_map.mpr ⟨t, ht, (eq_of_beq heq).trans hi⟩
      rcases hih with ⟨_, hothers, hbox''⟩ | ⟨_, _, _, hsome, _⟩
      · refine .inr ⟨s, box, box', ?_, hi ▸ hbox, ?_, ?_⟩
        · simp [hi]
        · rw [hbox'', hframe, if_pos hi]
        · rw [if_pos hi, hothers, Option.or_none]
          exact htaken
      · rw [hnone] at hsome
        cases hsome
    · have hfind : (s :: rest).find? (·.id == i) = rest.find? (·.id == i) := by
        rw [List.find?_cons_of_neg (by simpa using Ne.symm hi)]
      rw [if_neg hi, Option.none_or, hfind]
      rw [hframe, if_neg hi] at hih
      exact hih

end Subscriber

end DexIndex
