import DexIndex.Proofs.Lifecycle.Replay

/-!
# Events that a fold takes note of

A fold takes note of an event of its order that stands after all those before it (`isNext_replay_iff`)
and is no different for the others, so that it is the fold of the events that it takes note of
(`applyAll_taken`). Of several events at one position these have the first one.
-/

namespace DexIndex

namespace Event
variable {es : List Event} {e : Event} {k : OrderEventKey}

/-- The last event with a key. -/
def lastAt (es : List Event) (k : OrderEventKey) : Option Event :=
  (es.filter (OrderEventKey.ofEvent · = k)).getLast?

theorem mem_of_lastAt (h : lastAt es k = some e) : e ∈ es ∧ OrderEventKey.ofEvent e = k := by
  simpa using List.mem_filter.mp (List.mem_of_getLast? h)

theorem exists_lastAt (h : e ∈ es) :
    ∃ last, lastAt es (.ofEvent e) = some last ∧
      OrderEventKey.ofEvent last = OrderEventKey.ofEvent e := by
  obtain ⟨last, hlast⟩ : ∃ last, lastAt es (.ofEvent e) = some last := by
    refine Option.ne_none_iff_exists'.mp fun hnone => ?_
    rw [lastAt, List.getLast?_eq_none_iff, List.filter_eq_nil_iff] at hnone
    exact hnone e h (by simp)
  exact ⟨last, hlast, (mem_of_lastAt hlast).2⟩

end Event

namespace OrderMachine
variable {m : OrderMachine} {key : OrderKey} {e : Event} {es : List Event}

/-- The events that a fold takes note of. -/
def taken (m : OrderMachine) : List Event → List Event
  | [] => []
  | e :: es => (if m.isNext e then [e] else []) ++ (m.apply e).1.taken es

theorem taken_append (m : OrderMachine) (a b : List Event) :
    m.taken (a ++ b) = m.taken a ++ (m.applyAll a).taken b := by
  induction a generalizing m with
  | nil => rfl
  | cons e a ih =>
    rw [List.cons_append, taken, taken, ih, List.append_assoc]
    rfl

theorem taken_singleton (m : OrderMachine) (e : Event) :
    m.taken [e] = if m.isNext e then [e] else [] := by
  simp [taken]

theorem applyAll_taken (m : OrderMachine) (es : List Event) :
    m.applyAll (m.taken es) = m.applyAll es := by
  induction es using List.reverseRecOn with
  | nil => rfl
  | append_singleton es e ih =>
    rw [taken_append, applyAll_append, applyAll_append, ih, taken_singleton]
    split
    · rfl
    · next hnext =>
      rw [applyAll_singleton, apply_of_not_next (by simpa using hnext)]
      rfl

theorem mem_taken_iff :
    e ∈ m.taken es ↔ ∃ a b, es = a ++ e :: b ∧ (m.applyAll a).isNext e := by
  induction es using List.reverseRecOn with
  | nil => simp [taken]
  | append_singleton es x ih =>
    rw [taken_append, taken_singleton, List.mem_append, ih]
    constructor
    · rintro (⟨a, b, rfl, hnext⟩ | hx)
      · exact ⟨a, b ++ [x], by simp, hnext⟩
      · split at hx
        · next hnext =>
          obtain rfl := List.mem_singleton.mp hx
          exact ⟨es, [], rfl, hnext⟩
        · cases hx
    · rintro ⟨a, b, hsplit, hnext⟩
      rcases List.eq_nil_or_concat b with rfl | ⟨b, y, rfl⟩
      · obtain ⟨rfl, hx⟩ := List.append_inj' hsplit rfl
        obtain rfl : x = e := (List.cons.inj hx).1
        exact .inr (by simp [hnext])
      · rw [List.concat_eq_append, ← List.cons_append, ← List.append_assoc] at hsplit
        obtain ⟨rfl, _⟩ := List.append_inj' hsplit rfl
        exact .inl ⟨a, b, rfl, hnext⟩

theorem mem_of_mem_taken (h : e ∈ (start key).taken es) : e ∈ es ∧ e.order = key := by
  obtain ⟨a, b, rfl, hnext⟩ := mem_taken_iff.mp h
  exact ⟨by simp, (isNext_replay_iff.mp hnext).1⟩

theorem inOrder_taken (key : OrderKey) (es : List Event) : InOrder key ((start key).taken es) := by
  refine ⟨?_, fun e he => (mem_of_mem_taken he).2⟩
  induction es using List.reverseRecOn with
  | nil => exact .nil
  | append_singleton es x ih =>
    rw [taken_append, taken_singleton]
    split
    · next hnext =>
      refine List.pairwise_append.mpr ⟨ih, List.pairwise_singleton _ _, fun e he y hy => ?_⟩
      obtain ⟨hmem, hkey⟩ := mem_of_mem_taken he
      rw [List.mem_singleton.mp hy]
      exact (isNext_replay_iff.mp hnext).2 e hmem hkey
    · rwa [List.append_nil]

theorem replay_filter (key : OrderKey) (es : List Event) :
    replay key (es.filter (·.order = key)) = replay key es := by
  induction es using List.reverseRecOn with
  | nil => rfl
  | append_singleton es e ih =>
    rw [List.filter_append, replay_append, replay_append, ih]
    by_cases hkey : e.order = key
    · rw [List.filter_cons_of_pos (by simpa using hkey), List.filter_nil]
    · have hnext : (replay key es).isNext e = false := by
        simpa using fun hnext => hkey (isNext_replay_iff.mp hnext).1
      rw [List.filter_cons_of_neg (by simpa using hkey), List.filter_nil, applyAll_singleton,
        apply_of_not_next hnext]
      rfl

/-! ### The last events -/

/-- Whether among the events of an order at each place the last one of each type comes after events of
lower types only. -/
def InStep (key : OrderKey) (es : List Event) : Prop :=
  ∀ e, e.order = key → Event.lastAt es (.ofEvent e) = some e →
    ∃ a b, es = a ++ e :: b ∧
      ∀ x ∈ a, x.order = key → x.ref.place = e.ref.place → x.type.toByte < e.type.toByte

/-- Of events in chain order, only those at the place of an event can keep it from being next. -/
theorem isNext_replay_iff_of_inChain {a b : List Event} (h : Event.InChain (a ++ e :: b)) :
    (replay key a).isNext e ↔
      e.order = key ∧
        ∀ x ∈ a, x.order = key → x.ref.place = e.ref.place → x.type.toByte < e.type.toByte := by
  rw [isNext_replay_iff]
  refine and_congr_right fun _ => forall₃_congr fun x hx _ => ?_
  have hchain := (List.pairwise_append.mp h).2.2 x hx e List.mem_cons_self
  rw [EventPosition.before_iff_place]
  change x.ref.place.Before e.ref.place ∨ x.ref.place = e.ref.place ∧ _ ↔ _
  constructor
  · rintro (hbefore | ⟨_, htype⟩) hplace
    · exact absurd (hplace ▸ hbefore) (Place.not_before_self _)
    · exact htype
  · intro htype
    rcases hchain with hplace | hbefore
    · exact .inr ⟨hplace, htype hplace⟩
    · exact .inl hbefore

/-- A fold takes note of just the last event at each position if the events are in step. -/
theorem taken_eq_iff {history : List Event} (hchain : Event.InChain es) (h : InOrder key history)
    (hmem : ∀ e, e ∈ history ↔ e.order = key ∧ Event.lastAt es (.ofEvent e) = some e) :
    (start key).taken es = history ↔ InStep key es := by
  constructor
  · rintro rfl e hkey hlast
    obtain ⟨a, b, hsplit, hnext⟩ := mem_taken_iff.mp ((hmem e).mpr ⟨hkey, hlast⟩)
    exact ⟨a, b, hsplit, ((isNext_replay_iff_of_inChain (hsplit ▸ hchain)).mp hnext).2⟩
  · intro hstep
    have hall : ∀ e ∈ history, e ∈ (start key).taken es := by
      intro e he
      obtain ⟨hkey, hlast⟩ := (hmem e).mp he
      obtain ⟨a, b, hsplit, hbefore⟩ := hstep e hkey hlast
      exact mem_taken_iff.mpr
        ⟨a, b, hsplit, (isNext_replay_iff_of_inChain (hsplit ▸ hchain)).mpr ⟨hkey, hbefore⟩⟩
    have htaken := inOrder_taken key es
    refine Event.eq_of_pairwise_before htaken.positions h.positions fun e => ⟨fun he => ?_, hall e⟩
    obtain ⟨hes, hkey⟩ := mem_of_mem_taken he
    obtain ⟨last, hlast, hsame⟩ := Event.exists_lastAt hes
    have hin : last ∈ history :=
      (hmem last).mpr ⟨(congrArg OrderEventKey.order hsame).trans hkey, hsame ▸ hlast⟩
    -- the last event at the position is taken note of as well, so that it is this one
    have heq := Event.eq_of_position_eq htaken.positions he (hall last hin)
      (Event.position_eq_of_ofEvent_eq hsame.symm)
    exact heq ▸ hin

end OrderMachine

end DexIndex
