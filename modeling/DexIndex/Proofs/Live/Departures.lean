import DexIndex.Proofs.Live.Upkeep
import Mathlib.Data.List.Induction
import Mathlib.Data.List.Nodup

/-!
# Receivers that are gone

A receiver that was dropped stays gone, and its subscriber does not come back once it has left. It
leaves when the registry is taken to publish and when a call enters, so that after either no
subscriber is left whose receiver was gone before (`Clients.Tidy`). Main statement: whatever the
calls, the publishing and the receivers have done, the registry is in order and stays tidy
(`Clients.orderly_and_tidy`).
-/

namespace DexIndex

namespace Live
variable {l : Live} {id : Nat}

/-- The receiver of a number was dropped. -/
def IsGone (l : Live) (id : Nat) : Prop :=
  ∃ box, l.mailboxes.find? id = some box ∧ box.receiving = false

theorem IsGone.not_isReceiving (h : l.IsGone id) : l.mailboxes.isReceiving id = false := by
  obtain ⟨box, hbox, hgone⟩ := h
  rw [Mailboxes.isReceiving_of_find? hbox, hgone]

theorem IsGone.allot (h : l.IsGone id) (hl : l.Sound) : l.allot.IsGone id := by
  obtain ⟨box, hbox, hgone⟩ := h
  have hid : id ≠ l.nextId := by
    rintro rfl
    cases hl.find?_nextId.symm.trans hbox
  exact ⟨box, (find?_allot hl id).trans ((if_neg hid).trans hbox), hgone⟩

theorem IsGone.seed (h : l.IsGone id) (hl : l.Sound) (key : OrderKey) (n : Nat)
    (m : OrderMachine) : (l.seed key n m).IsGone id := by
  obtain ⟨box, hbox, hgone⟩ := h
  rcases seed_cases hl key n m with ⟨_, hsame⟩ | ⟨s, _, stays, box', _, hb, hd, hframe, _, _⟩
  · rw [hsame]
    exact ⟨box, hbox, hgone⟩
  · by_cases hid : id = n
    · subst hid
      cases hbox.symm.trans hb
      exact ⟨box', (hframe id).trans (if_pos rfl), hd.receiving.trans hgone⟩
    · exact ⟨box, ((hframe id).trans (if_neg hid)).trans hbox, hgone⟩

theorem IsGone.publishOne (h : l.IsGone id) (hl : l.Sound) (e : Event) :
    (l.publishOne e).IsGone id := by
  obtain ⟨box, hbox, hgone⟩ := h
  rcases publishOne_taken hl e id with ⟨_, _, hsame⟩ | ⟨s, _, box', _, hb, hb', htaken⟩
  · exact ⟨box, hsame.trans hbox, hgone⟩
  · cases hbox.symm.trans hb
    exact ⟨box', hb', htaken.receiving.trans hgone⟩

theorem IsGone.update (h : l.IsGone id) (n : Nat) {f : Mailbox → Mailbox}
    (hf : ∀ box, box.receiving = false → (f box).receiving = false) :
    IsGone { l with mailboxes := l.mailboxes.update n f } id := by
  obtain ⟨box, hbox, hgone⟩ := h
  have hfind := Mailboxes.find?_update l.mailboxes n f id
  rw [hbox] at hfind
  split at hfind
  · exact ⟨f box, hfind, hf box hgone⟩
  · exact ⟨box, hfind, hgone⟩

/-- The numbers of all subscribers. -/
def ids (l : Live) : List Nat := (l.tables.flatMap (·.2)).map (·.id)

theorem find?_of_mem {subs : List Subscriber} (hids : (subs.map (·.id)).Nodup) {s : Subscriber}
    (hs : s ∈ subs) : subs.find? (·.id == s.id) = some s := by
  induction subs with
  | nil => cases hs
  | cons x rest ih =>
    obtain ⟨hx, hrest⟩ := List.nodup_cons.mp hids
    rcases List.mem_cons.mp hs with rfl | hs
    · simp
    · have hne : x.id ≠ s.id := fun heq => hx (List.mem_map.mpr ⟨s, hs, heq.symm⟩)
      rw [List.find?_cons_of_neg (by simpa using hne)]
      exact ih hrest hs

theorem subscriber?_of_mem (hl : l.Sound) {t : OrderKey × List Subscriber} (ht : t ∈ l.tables)
    {s : Subscriber} (hs : s ∈ t.2) : l.subscriber? t.1 s.id = some s := by
  have hids := hl.ids t.1
  rw [table_of_mem hl ht] at hids
  rw [subscriber?, table_of_mem hl ht]
  exact find?_of_mem hids hs

end Live

namespace Clients
variable {c : Clients} {id : Nat}

/-! ### One step -/

theorem Kept.isGone_step (h : c.Kept) (hg : c.live.IsGone id) (a : Action) :
    (c.step a).live.IsGone id := by
  have hstep := c.step_stepped a
  generalize c.step a = c' at hstep
  cases hstep with
  | notDue => exact hg
  | allotted => exact hg.allot h.sound
  | entered => exact hg
  | read => exact hg
  | returned => exact hg.seed h.sound _ _ _
  | failed => exact hg
  | unsubscribed => exact hg
  | pruned => exact hg
  | published e => exact hg.publishOne h.sound e
  | received => exact hg.update _ fun _ hgone => hgone
  | dropped => exact hg.update _ fun _ _ => rfl

/-- Only a call that enters adds a subscriber, and its receiver is there. -/
theorem Kept.subscriber?_step (h : c.Kept) (hg : c.live.IsGone id) (a : Action) {k : OrderKey}
    {s : Subscriber} (hs : (c.step a).live.subscriber? k id = some s) :
    ∃ t, c.live.subscriber? k id = some t := by
  have hstep := c.step_stepped a
  generalize c.step a = c' at hstep hs
  cases hstep with
  | notDue => exact ⟨s, hs⟩
  | allotted => exact ⟨s, hs⟩
  | @entered n key due =>
    have hfind := (Live.subscriber?_enter h.sound (h.not_entered due key) k id).symm.trans hs
    rw [hg.not_isReceiving] at hfind
    split at hfind
    · next hk =>
      obtain ⟨rfl, rfl⟩ := hk
      obtain ⟨box, hbox, hgone⟩ := hg
      cases ((h.serves id).attends _ _ due hbox).underWay rfl
      cases hgone
    · cases hfind
  | read => exact ⟨s, hs⟩
  | @returned n key m due =>
    rcases Live.seed_cases h.sound key n m with
      ⟨_, hsame⟩ | ⟨t, _, stays, _, ht, _, _, _, hsub, _⟩
    · exact ⟨s, (congrArg (·.subscriber? k id) hsame).symm.trans hs⟩
    · have hfind := (hsub k id).symm.trans hs
      split at hfind
      · next hk => exact ⟨t, by rw [hk.1, hk.2]; exact ht⟩
      · exact ⟨s, hfind⟩
  | @failed n key _ _ =>
    have hfind := (Live.subscriber?_unsubscribe c.live key n k id).symm.trans hs
    split at hfind
    · cases hfind
    · exact ⟨s, hfind⟩
  | unsubscribed key n =>
    have hfind := (Live.subscriber?_unsubscribe c.live key n k id).symm.trans hs
    split at hfind
    · cases hfind
    · exact ⟨s, hfind⟩
  | pruned =>
    have hfind := (Live.subscriber?_prune h.sound k id).symm.trans hs
    split at hfind
    · exact ⟨s, hfind⟩
    · cases hfind
  | published e =>
    by_cases hk : k = e.order
    · subst hk
      rcases Live.publishOne_taken h.sound e id with ⟨_, hafter, _⟩ | ⟨t, _, _, ht, _⟩
      · cases hafter.symm.trans hs
      · exact ⟨t, ht⟩
    · exact ⟨s, (Live.subscriber?_publishOne_of_ne hk id).symm.trans hs⟩
  | received => exact ⟨s, hs⟩
  | dropped => exact ⟨s, hs⟩

theorem Kept.not_isRegistered_step (h : c.Kept) (hg : c.live.IsGone id)
    (hr : ¬ c.live.isRegistered id) (a : Action) : ¬ (c.step a).live.isRegistered id := by
  intro hr'
  obtain ⟨k, s, hs⟩ := (Live.isRegistered_iff (h.step a).sound id).mp hr'
  exact hr ((Live.isRegistered_iff h.sound id).mpr ⟨k, h.subscriber?_step hg a hs⟩)

theorem Kept.not_isRegistered_prune (h : c.Kept) (hg : c.live.IsGone id) :
    ¬ (c.step .prune).live.isRegistered id := by
  intro hr
  obtain ⟨k, s, hs⟩ := (Live.isRegistered_iff h.prune.sound id).mp hr
  have hfind := (Live.subscriber?_prune h.sound k id).symm.trans hs
  rw [hg.not_isReceiving] at hfind
  cases hfind

theorem Kept.not_isRegistered_enter (h : c.Kept) (hg : c.live.IsGone id) {n : Nat} {key : OrderKey}
    (due : c.calls n = some ⟨key, .allotted⟩) : ¬ (c.step (.enter n)).live.isRegistered id := by
  have hstep : c.step (.enter n) =
      setCall { c with live := c.live.enter key n } n ⟨key, .entered⟩ := by
    simp only [Clients.step, due]
  intro hr
  obtain ⟨k, s, hs⟩ := (Live.isRegistered_iff (h.step (.enter n)).sound id).mp hr
  obtain ⟨t, ht⟩ := h.subscriber?_step hg (.enter n) hs
  rw [hstep] at hs
  have hfind := (Live.subscriber?_enter h.sound (h.not_entered due key) k id).symm.trans hs
  rw [hg.not_isReceiving] at hfind
  split at hfind
  · next hk =>
    obtain ⟨rfl, rfl⟩ := hk
    cases (h.not_entered due k).symm.trans ht
  · cases hfind

theorem hasEntered_of_cancel {s : SubscribeStage} (h : s.cancel.hasEntered) : s.hasEntered := by
  cases s <;> first | rfl | exact h

theorem hasEntered_step {n : Nat} {call : SubscribeCall} (a : Action)
    (hc : (c.step a).calls n = some call) (he : call.stage.hasEntered) :
    (∃ call', c.calls n = some call' ∧ call'.stage.hasEntered) ∨
      a = .enter n ∧ ∃ key, c.calls n = some ⟨key, .allotted⟩ := by
  -- the call of another number than the step is about is as it was
  have hset {c' : Clients} (hcalls : c'.calls = c.calls) {id : Nat} {call' : SubscribeCall}
      (h : (c'.setCall id call').calls n = some call) :
      n = id ∧ call' = call ∨ c.calls n = some call := by
    rw [calls_setCall, hcalls] at h
    split at h
    · next hn => exact .inl ⟨hn, Option.some.inj h⟩
    · exact .inr h
  have hstep := c.step_stepped a
  generalize c.step a = c' at hstep hc
  cases hstep with
  | notDue => exact .inl ⟨call, hc, he⟩
  | allotted =>
    rcases hset rfl hc with ⟨_, rfl⟩ | hc
    · cases he
    · exact .inl ⟨call, hc, he⟩
  | entered due =>
    rcases hset rfl hc with ⟨rfl, _⟩ | hc
    · exact .inr ⟨rfl, _, due⟩
    · exact .inl ⟨call, hc, he⟩
  | read _ due =>
    rcases hset rfl hc with ⟨rfl, _⟩ | hc
    · exact .inl ⟨_, due, rfl⟩
    · exact .inl ⟨call, hc, he⟩
  | returned due =>
    rcases hset rfl hc with ⟨rfl, _⟩ | hc
    · exact .inl ⟨_, due, rfl⟩
    · exact .inl ⟨call, hc, he⟩
  | failed due =>
    rcases hset rfl hc with ⟨rfl, _⟩ | hc
    · exact .inl ⟨_, due, rfl⟩
    · exact .inl ⟨call, hc, he⟩
  | unsubscribed => exact .inl ⟨call, hc, he⟩
  | pruned => exact .inl ⟨call, hc, he⟩
  | published => exact .inl ⟨call, hc, he⟩
  | received => exact .inl ⟨call, hc, he⟩
  | dropped due =>
    rcases hset rfl hc with ⟨rfl, rfl⟩ | hc
    · exact .inl ⟨_, due, hasEntered_of_cancel he⟩
    · exact .inl ⟨call, hc, he⟩

/-! ### Many steps -/

theorem Kept.isGone_run (h : c.Kept) (hg : c.live.IsGone id) (actions : List Action) :
    (c.run actions).live.IsGone id := by
  induction actions generalizing c with
  | nil => exact hg
  | cons a actions ih => exact ih (h.step a) (h.isGone_step hg a)

theorem Kept.not_isRegistered_run (h : c.Kept) (hg : c.live.IsGone id)
    (hr : ¬ c.live.isRegistered id) (actions : List Action) :
    ¬ (c.run actions).live.isRegistered id := by
  induction actions generalizing c with
  | nil => exact hr
  | cons a actions ih =>
    exact ih (h.step a) (h.isGone_step hg a) (h.not_isRegistered_step hg hr a)

/-- Once a call has entered, whoever was gone before it did is not registered. -/
theorem Kept.not_isRegistered_of_entered (h : c.Kept) (hg : c.live.IsGone id) {n : Nat}
    (hn : ∀ call, c.calls n = some call → ¬ call.stage.hasEntered) {actions : List Action}
    {call : SubscribeCall} (hc : (c.run actions).calls n = some call) (he : call.stage.hasEntered) :
    ¬ (c.run actions).live.isRegistered id := by
  induction actions using List.reverseRecOn generalizing call with
  | nil => exact absurd he (hn call hc)
  | append_singleton actions a ih =>
    rw [run_append] at hc ⊢
    have hkept := h.run actions
    have hgone := h.isGone_run hg actions
    rcases hasEntered_step a hc he with ⟨call', hc', he'⟩ | ⟨rfl, key, due⟩
    · exact hkept.not_isRegistered_step hgone (ih hc' he') a
    · exact hkept.not_isRegistered_enter hgone due

/-! ### The registry in order -/

/-- What holds of the registry and of the calls in every state. -/
structure Orderly (c : Clients) : Prop where
  noEmptyTable : ∀ t ∈ c.live.tables, t.2 ≠ []
  distinct : c.live.ids.Nodup
  below : ∀ id ∈ c.live.ids, id < c.live.nextId
  /-- A subscriber, its call and its mailbox are all about the order under which it stands. -/
  filed : ∀ t ∈ c.live.tables, ∀ s ∈ t.2, s.machine.key = t.1 ∧
    (∃ call, c.calls s.id = some call ∧ call.key = t.1) ∧
    ∃ box, c.live.mailboxes.find? s.id = some box ∧ ∀ item ∈ box.items, item.key = t.1
  seeded : ∀ t ∈ c.live.tables, ∀ s ∈ t.2, s.waiting = none → s.machine.state.isTerminal = false
  /-- What seeding has to send finds room in the mailbox. -/
  room : ∀ id key m s item, c.calls id = some ⟨key, .read (.ok m)⟩ →
    c.live.subscriber? key id = some s → (s.seed m).machine.transition? = some item →
    (c.live.mailboxes.send? c.live.buffer id item).isSome
  failed : ∀ id key e, c.calls id = some ⟨key, .failed e⟩ → ¬ c.live.isRegistered id

/-- Whose receiver is gone by now is not registered once the registry has been taken to publish, or
a call has entered that had not yet. -/
structure Tidy (c : Clients) : Prop where
  publish : ∀ id later, c.live.IsGone id → .prune ∈ later → ¬ (c.run later).live.isRegistered id
  subscribe : ∀ id later n call, c.live.IsGone id →
    (∀ call, c.calls n = some call → ¬ call.stage.hasEntered) →
    (c.run later).calls n = some call → call.stage.hasEntered →
    ¬ (c.run later).live.isRegistered id

/-- Subscribers of different orders have calls for different orders. -/
theorem Kept.nodup_ids (h : c.Kept) : c.live.ids.Nodup := by
  unfold Live.ids
  rw [List.map_flatMap, List.nodup_flatMap]
  refine ⟨fun t ht => ?_, ?_⟩
  · have hids := h.sound.ids t.1
    rwa [Live.table_of_mem h.sound ht] at hids
  · refine (List.pairwise_map.mp h.sound.keys).imp_of_mem fun {t u} ht hu hne => ?_
    intro id hid hid'
    obtain ⟨s, hs, rfl⟩ := List.mem_map.mp hid
    obtain ⟨s', hs', heq⟩ := List.mem_map.mp hid'
    obtain ⟨call, _, hcall, _, _, hkey, _⟩ := h.filed (Live.subscriber?_of_mem h.sound ht hs)
    obtain ⟨call', _, hcall', _, _, hkey', _⟩ := h.filed (Live.subscriber?_of_mem h.sound hu hs')
    rw [heq] at hcall'
    cases hcall.symm.trans hcall'
    exact hne (hkey.symm.trans hkey')

theorem Kept.orderly (h : c.Kept) : c.Orderly := by
  have hmem {t : OrderKey × List Subscriber} (ht : t ∈ c.live.tables) {s : Subscriber}
      (hs : s ∈ t.2) := h.filed (Live.subscriber?_of_mem h.sound ht hs)
  refine ⟨h.noEmptyTable, h.nodup_ids, fun id hid => ?_, fun t ht s hs => ?_, fun t ht s hs => ?_,
    fun id key m s item hcall hs hitem => ?_, fun id key e hcall hr => ?_⟩
  · obtain ⟨s, hs, rfl⟩ := List.mem_map.mp hid
    obtain ⟨t, ht, hs⟩ := List.mem_flatMap.mp hs
    obtain ⟨_, box, _, hbox, _⟩ := hmem ht hs
    exact h.sound.fresh s.id (by rw [hbox]; rfl)
  · obtain ⟨call, box, hcall, hbox, ha, hkey, hf⟩ := hmem ht hs
    exact ⟨hf.key.trans hkey, ⟨call, hcall, hkey⟩, box, hbox,
      fun item hitem => (ha.items item hitem).trans hkey⟩
  · obtain ⟨_, _, _, _, _, _, hf⟩ := hmem ht hs
    exact hf.seeded
  · obtain ⟨call, box, hc, hbox, ha, _⟩ := h.filed hs
    cases hcall.symm.trans hc
    obtain rfl := ha.underWay rfl
    rw [Mailboxes.send?, hbox]
    dsimp only
    rw [if_pos ⟨rfl, h.buffer_pos⟩]
    rfl
  · obtain ⟨k, s, hs⟩ := (Live.isRegistered_iff h.sound id).mp hr
    obtain ⟨call, _, hc, _, _, _, hf⟩ := h.filed hs
    cases hcall.symm.trans hc
    exact hf.notFailed e rfl

theorem Kept.tidy (h : c.Kept) : c.Tidy := by
  refine ⟨fun id later hg hmem => ?_, fun id later n call hg hn hc he => ?_⟩
  · obtain ⟨before, after, rfl⟩ := List.append_of_mem hmem
    have hkept := h.run before
    have hgone := h.isGone_run hg before
    rw [run_append]
    exact (hkept.step .prune).not_isRegistered_run (hkept.isGone_step hgone .prune)
      (hkept.not_isRegistered_prune hgone) after
  · exact h.not_isRegistered_of_entered hg hn hc he

/-- With nothing in between, the steps are the functions of the registry. -/
structure Sequential (c : Clients) : Prop where
  subscribe : ∀ key ledger, (c.run [.allot key, .enter c.live.nextId, .read c.live.nextId ledger,
    .finish c.live.nextId]).live = (c.live.subscribe ledger key).2.1
  publish : ∀ events, c.live.publish events =
    if events.isEmpty || c.live.tables.isEmpty then c.live
    else (c.run (.prune :: events.map .publish)).live

theorem orderly_and_tidy (buffer : Nat) (actions : List Action) :
    ((start buffer).run actions).Orderly ∧ ((start buffer).run actions).Tidy ∧
      ((start buffer).run actions).Sequential := by
  have hkept := (kept_start buffer).run actions
  exact ⟨hkept.orderly, hkept.tidy, run_subscribe hkept.sound, run_publish _⟩

/-- A subscriber without receiver leaves when a call for another order enters. -/
example : ((start 1).run [.allot ⟨⟨List.replicate 32 1, rfl⟩, 1⟩, .enter 1,
    .read 1 (.ofStore (.ofTable .empty)), .finish 1, .drop 1,
    .allot ⟨⟨List.replicate 32 1, rfl⟩, 2⟩, .enter 2]).live.ids = [2] := by decide

end Clients

end DexIndex
