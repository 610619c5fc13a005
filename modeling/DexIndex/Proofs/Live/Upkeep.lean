import DexIndex.Proofs.Lifecycle.Coherence
import DexIndex.Proofs.Live.Clients

/-!
# The upkeep of the registry

However the steps of subscribing, publishing and dropping receivers are mixed, no order has an empty
table, and what is known of a number fits together (`Clients.Kept`): its call, its mailbox
(`SubscribeCall.Attends`) and its subscriber (`Subscriber.Filed`). Nothing is sent while a call is
under way, since its subscriber only waits, so that seeding finds an empty mailbox; and a subscriber
that was seeded stays only while there is more to come.
-/

namespace DexIndex

/-! ### No empty tables -/

namespace Live
variable {l : Live} {key : OrderKey}

def NoEmptyTable (l : Live) : Prop := ∀ t ∈ l.tables, t.2 ≠ []

theorem NoEmptyTable.setTable (h : l.NoEmptyTable) (key : OrderKey) (subs : List Subscriber) :
    (l.setTable key subs).NoEmptyTable := by
  have hothers : ∀ t ∈ l.tables.filter (·.1 != key), t.2 ≠ [] :=
    fun t ht => h t (List.mem_filter.mp ht).1
  intro t ht
  simp only [Live.setTable] at ht
  split at ht
  · exact hothers t ht
  · next hne =>
    rcases List.mem_cons.mp ht with rfl | ht
    · simpa using hne
    · exact hothers t ht

theorem noEmptyTable_prune (l : Live) : l.prune.NoEmptyTable := by
  intro t ht
  simpa using (List.mem_filter.mp ht).2

theorem NoEmptyTable.seed (h : l.NoEmptyTable) (key : OrderKey) (id : Nat)
    (history : OrderMachine) : (l.seed key id history).NoEmptyTable := by
  unfold Live.seed
  split
  · exact h
  · exact NoEmptyTable.setTable (l := { l with mailboxes := _ }) h key _

theorem NoEmptyTable.publishOne (h : l.NoEmptyTable) (e : Event) :
    (l.publishOne e).NoEmptyTable :=
  NoEmptyTable.setTable (l := { l with mailboxes := _ }) h e.order _

theorem find?_drop (l : Live) (id i : Nat) : (l.drop id).mailboxes.find? i =
    if i = id then (l.mailboxes.find? i).map fun _ => ⟨[], false⟩ else l.mailboxes.find? i :=
  Mailboxes.find?_update l.mailboxes id (fun _ => ⟨[], false⟩) i

theorem buffer_seed (l : Live) (key : OrderKey) (id : Nat) (history : OrderMachine) :
    (l.seed key id history).buffer = l.buffer := by
  unfold seed
  split <;> rfl

end Live

/-! ### One number -/

/-- A call and the mailbox of its number. Nothing is sent and nothing dropped while the call is
under way. -/
structure SubscribeCall.Attends (call : SubscribeCall) (box : Mailbox) : Prop where
  underWay : call.stage.underWay → box = ⟨[], true⟩
  items : ∀ item ∈ box.items, item.key = call.key
  history : ∀ m, call.stage = .read (.ok m) → m.key = call.key ∧ m.Coherent

/-- A call and its subscriber, which waits while the call is under way. -/
structure Subscriber.Filed (s : Subscriber) (call : SubscribeCall) : Prop where
  key : s.machine.key = call.key
  coherent : s.machine.Coherent
  entered : call.stage ≠ .allotted
  notFailed : ∀ e, call.stage ≠ .failed e
  underWay : call.stage.underWay → s.waiting.isSome
  seeded : s.waiting = none → s.machine.state.isTerminal = false

namespace Subscriber
variable {s s' : Subscriber} {call : SubscribeCall} {box box' : Mailbox} {limit : Nat}
  {stays : Bool}  {e : Event} {kept : Option Subscriber}

theorem key_of_transition? {m : OrderMachine} {item : OrderTransition}
    (h : m.transition? = some item) : item.key = m.key := by
  obtain ⟨cause, _, rfl⟩ := Option.map_eq_some_iff.mp h
  rfl

/-- What is sent is about the order of the machine. -/
theorem Delivered.items (h : s.Delivered limit box (stays, box')) {key : OrderKey}
    (hkey : s.machine.key = key) (hitems : ∀ item ∈ box.items, item.key = key) :
    ∀ item ∈ box'.items, item.key = key := by
  generalize hr : (stays, box') = r at h
  cases h with
  | nothing =>
    cases hr
    exact hitems
  | sent known =>
    cases hr
    intro item hitem
    rcases List.mem_append.mp hitem with hitem | hitem
    · exact hitems item hitem
    · rw [List.mem_singleton.mp hitem, key_of_transition? known, hkey]
  | refused =>
    cases hr
    exact hitems

theorem Delivered.receiving (h : s.Delivered limit box (stays, box')) :
    box'.receiving = box.receiving := by
  generalize hr : (stays, box') = r at h
  cases h with
  | nothing => cases hr; rfl
  | sent => cases hr; rfl
  | refused => cases hr; rfl

/-- A subscriber that stays after it was sent what is known waits for more. -/
theorem Delivered.not_isTerminal (h : s.Delivered limit box (true, box'))
    (hc : s.machine.Coherent) : s.machine.state.isTerminal = false := by
  generalize hr : (true, box') = r at h
  cases h with
  | nothing unknown =>
    have hstate : s.machine.state = .unknown := by
      by_contra hne
      have hsome := hc.transition.mpr hne
      rw [unknown] at hsome
      cases hsome
    rw [hstate]
    rfl
  | sent =>
    have hstays : true = !s.machine.state.isTerminal := congrArg Prod.fst hr
    simpa using hstays.symm
  | refused => cases hr

theorem Taken.receiving (h : s.Taken limit e box (kept, box')) :
    box'.receiving = box.receiving := by
  generalize hr : (kept, box') = r at h
  cases h with
  | waiting => cases hr; rfl
  | unchanged => cases hr; rfl
  | changed _ _ delivered => cases hr; exact delivered.receiving

theorem Taken.attends (h : s.Taken limit e box (kept, box')) (hf : s.Filed call)
    (ha : call.Attends box) : call.Attends box' := by
  generalize hr : (kept, box') = r at h
  cases h with
  | waiting =>
    cases hr
    exact ha
  | unchanged =>
    cases hr
    exact ha
  | changed seeded _ delivered =>
    cases hr
    refine ⟨fun hway => ?_, ?_, ha.history⟩
    · have hwaits := hf.underWay hway
      rw [seeded] at hwaits
      cases hwaits
    · exact delivered.items ((OrderMachine.key_apply s.machine e).trans hf.key) ha.items

theorem Taken.filed (h : s.Taken limit e box (some s', box')) (hf : s.Filed call) :
    s'.Filed call := by
  have hkey : (s.fold e).machine.key = call.key := (OrderMachine.key_apply s.machine e).trans hf.key
  have hcoherent : (s.fold e).machine.Coherent := hf.coherent.apply e
  generalize hr : (some s', box') = r at h
  cases h with
  | waiting =>
    cases hr
    exact ⟨hf.key, hf.coherent, hf.entered, hf.notFailed, fun _ => rfl, nofun⟩
  | unchanged seeded changed =>
    cases hr
    refine ⟨hkey, hcoherent, hf.entered, hf.notFailed, hf.underWay, fun _ => ?_⟩
    -- nothing but the count of fills and the position of the machine moved
    have hsame := (hf.coherent.onward e).unchanged changed
    have hstate : (s.machine.apply e).1.state = s.machine.state := by rw [hsame]
    exact hstate ▸ hf.seeded seeded
  | @changed stays _ _ _ delivered =>
    cases stays with
    | false => cases hr
    | true =>
      cases hr
      exact ⟨hkey, hcoherent, hf.entered, hf.notFailed, hf.underWay,
        fun _ => delivered.not_isTerminal hcoherent⟩

end Subscriber

namespace Clients
variable {c c' : Clients} {id : Nat}

/-- What holds of the call, the mailbox and the subscriber of one number. -/
structure Serves (c : Clients) (id : Nat) : Prop where
  boxed : (c.calls id).isSome = (c.live.mailboxes.find? id).isSome
  attends : ∀ call box, c.calls id = some call → c.live.mailboxes.find? id = some box →
    call.Attends box
  filed : ∀ key s call, c.live.subscriber? key id = some s → c.calls id = some call →
    call.key = key ∧ s.Filed call

/-- Nothing changes for a number when others are served or its own subscriber leaves. -/
theorem Serves.of_same (h : c.Serves id) (hcalls : c'.calls id = c.calls id)
    (hbox : c'.live.mailboxes.find? id = c.live.mailboxes.find? id)
    (hsub : ∀ key s, c'.live.subscriber? key id = some s → c.live.subscriber? key id = some s) :
    c'.Serves id := by
  refine ⟨by rw [hcalls, hbox]; exact h.boxed, fun call box => ?_, fun key s call hs => ?_⟩
  · rw [hcalls, hbox]
    exact h.attends call box
  · rw [hcalls]
    exact h.filed key s call (hsub key s hs)

structure Kept (c : Clients) : Prop where
  sound : c.live.Sound
  buffer_pos : 0 < c.live.buffer
  noEmptyTable : c.live.NoEmptyTable
  serves : ∀ id, c.Serves id

theorem Kept.box_of_call (h : c.Kept) {call : SubscribeCall} (hcall : c.calls id = some call) :
    ∃ box, c.live.mailboxes.find? id = some box := by
  refine Option.isSome_iff_exists.mp ?_
  rw [← (h.serves id).boxed, hcall]
  rfl

theorem Kept.filed (h : c.Kept) {key : OrderKey} {s : Subscriber}
    (hs : c.live.subscriber? key id = some s) : ∃ call box, c.calls id = some call ∧
      c.live.mailboxes.find? id = some box ∧ call.Attends box ∧ call.key = key ∧ s.Filed call := by
  obtain ⟨box, hbox⟩ := h.sound.box_of_subscriber? hs
  have hsome : (c.calls id).isSome := by
    rw [(h.serves id).boxed, hbox]
    rfl
  obtain ⟨call, hcall⟩ := Option.isSome_iff_exists.mp hsome
  exact ⟨call, box, hcall, hbox, (h.serves id).attends call box hcall hbox,
    (h.serves id).filed key s call hs hcall⟩

theorem kept_start (buffer : Nat) : (start buffer).Kept := by
  refine ⟨⟨.nil, fun _ => .nil, fun _ s hs => ?_, fun _ hi => ?_⟩, ?_, fun t ht => ?_,
    fun id => ⟨rfl, fun call _ hc => ?_, fun _ s _ hs => ?_⟩⟩
  · cases hs
  · cases hi
  · show 0 < max buffer 1
    omega
  · cases ht
  · cases hc
  · cases hs

/-- A step that serves one number keeps the others. -/
theorem Kept.serve (h : c.Kept) (id : Nat) (call : SubscribeCall) (box : Mailbox)
    (sound : c'.live.Sound) (buffer : c'.live.buffer = c.live.buffer)
    (noEmptyTable : c'.live.NoEmptyTable)
    (calls : ∀ i, c'.calls i = if i = id then some call else c.calls i)
    (boxes : ∀ i, c'.live.mailboxes.find? i =
      if i = id then some box else c.live.mailboxes.find? i)
    (others : ∀ i, i ≠ id → ∀ key s, c'.live.subscriber? key i = some s →
      c.live.subscriber? key i = some s)
    (attends : call.Attends box)
    (filed : ∀ key s, c'.live.subscriber? key id = some s → call.key = key ∧ s.Filed call) :
    c'.Kept := by
  refine ⟨sound, buffer ▸ h.buffer_pos, noEmptyTable, fun i => ?_⟩
  by_cases hi : i = id
  · subst hi
    have hcall : c'.calls i = some call := (calls i).trans (if_pos rfl)
    have hbox : c'.live.mailboxes.find? i = some box := (boxes i).trans (if_pos rfl)
    refine ⟨by rw [hcall, hbox]; rfl, fun call' box' hc hb => ?_, fun key s call' hs hc => ?_⟩
    · cases hcall.symm.trans hc
      cases hbox.symm.trans hb
      exact attends
    · cases hcall.symm.trans hc
      exact filed key s hs
  · exact (h.serves i).of_same ((calls i).trans (if_neg hi)) ((boxes i).trans (if_neg hi))
      (others i hi)

/-- A step that only removes subscribers keeps every number. -/
theorem Kept.remove (h : c.Kept) {live : Live} (sound : live.Sound)
    (buffer : live.buffer = c.live.buffer) (noEmptyTable : live.NoEmptyTable)
    (mailboxes : live.mailboxes = c.live.mailboxes)
    (stays : ∀ i key s, live.subscriber? key i = some s → c.live.subscriber? key i = some s) :
    Kept { c with live } :=
  ⟨sound, buffer ▸ h.buffer_pos, noEmptyTable, fun i =>
    (h.serves i).of_same rfl (congrArg (·.find? i) mailboxes) (stays i)⟩

/-! ### The steps -/

theorem Kept.allot (h : c.Kept) (key : OrderKey) :
    (setCall { c with live := c.live.allot } c.live.nextId ⟨key, .allotted⟩).Kept := by
  refine h.serve c.live.nextId ⟨key, .allotted⟩ _ h.sound.allot rfl h.noEmptyTable
    (calls_setCall _ _ _) (Live.find?_allot h.sound) (fun _ _ _ _ hs => hs)
    ⟨fun _ => rfl, fun item hitem => ?_, fun m hm => ?_⟩ fun k s hs => ?_
  · cases hitem
  · cases hm
  · cases (h.sound.subscriber?_nextId k).symm.trans hs

/-- A call that is at its first step has no subscriber. -/
theorem Kept.not_entered (h : c.Kept) {key : OrderKey} (hcall : c.calls id = some ⟨key, .allotted⟩)
    (k : OrderKey) : c.live.subscriber? k id = none := by
  cases hs : c.live.subscriber? k id with
  | none => rfl
  | some s =>
    obtain ⟨call, _, hc, _, _, _, hf⟩ := h.filed hs
    cases hcall.symm.trans hc
    exact absurd rfl hf.entered

theorem Kept.enter (h : c.Kept) {key : OrderKey} (hcall : c.calls id = some ⟨key, .allotted⟩) :
    (setCall { c with live := c.live.enter key id } id ⟨key, .entered⟩).Kept := by
  obtain ⟨box, hbox⟩ := h.box_of_call hcall
  have ha : SubscribeCall.Attends ⟨key, .allotted⟩ box := (h.serves id).attends _ _ hcall hbox
  have hnew := h.not_entered hcall
  have hsub := Live.subscriber?_enter h.sound (hnew key)
  refine h.serve id ⟨key, .entered⟩ box (h.sound.enter (by rw [hbox]; rfl) (hnew key)) rfl
    ((Live.noEmptyTable_prune _).setTable _ _) (calls_setCall _ _ _)
    (Mailboxes.find?_eq_ite hbox) (fun i hi k s hs => ?_)
    ⟨fun _ => ha.underWay rfl, ha.items, fun m hm => ?_⟩ fun k s hs => ?_
  · change (c.live.enter key id).subscriber? k i = some s at hs
    rw [hsub, if_neg fun hki => hi hki.2] at hs
    split at hs
    · exact hs
    · cases hs
  · cases hm
  · change (c.live.enter key id).subscriber? k id = some s at hs
    rw [hsub] at hs
    split at hs
    · next hk =>
      cases hs
      refine ⟨hk.1.symm, rfl, OrderMachine.coherent_start key, ?_, fun _ => ?_, fun _ => rfl,
        fun hw => ?_⟩
      · intro hstage
        cases hstage
      · intro hstage
        cases hstage
      · cases hw
    · rw [hnew k, ite_self] at hs
      cases hs

theorem coherent_of_orderMachine {l : Ledger} {key : OrderKey} {m : OrderMachine}
    (h : (l.orderMachine key).1 = .ok m) : m.key = key ∧ m.Coherent := by
  unfold Ledger.orderMachine at h
  dsimp only at h
  cases hes : (l.orderEvents key).1 with
  | error e =>
    rw [hes] at h
    cases h
  | ok es =>
    rw [hes] at h
    cases h
    exact ⟨OrderMachine.key_replay key es, OrderMachine.coherent_replay key es⟩

theorem Kept.read (h : c.Kept) {key : OrderKey} (hcall : c.calls id = some ⟨key, .entered⟩)
    (l : Ledger) : (c.setCall id ⟨key, .read (l.orderMachine key).1⟩).Kept := by
  obtain ⟨box, hbox⟩ := h.box_of_call hcall
  have ha : SubscribeCall.Attends ⟨key, .entered⟩ box := (h.serves id).attends _ _ hcall hbox
  refine h.serve id _ box h.sound rfl h.noEmptyTable (calls_setCall c id _)
    (Mailboxes.find?_eq_ite hbox) (fun _ _ _ _ hs => hs)
    ⟨fun _ => ha.underWay rfl, ha.items, fun m hm => ?_⟩ fun k s hs => ?_
  · exact coherent_of_orderMachine (SubscribeStage.read.inj hm)
  · obtain ⟨hk, hf⟩ := (h.serves id).filed k s _ hs hcall
    refine ⟨hk, hf.key, hf.coherent, ?_, fun _ => ?_, fun _ => hf.underWay rfl, hf.seeded⟩
    · intro hstage
      cases hstage
    · intro hstage
      cases hstage

/-- A call that returns leaves its subscriber seeded, if there is still more to come. -/
theorem Kept.seed (h : c.Kept) {key : OrderKey} {m : OrderMachine}
    (hcall : c.calls id = some ⟨key, .read (.ok m)⟩) :
    (setCall { c with live := c.live.seed key id m } id ⟨key, .returned⟩).Kept := by
  obtain ⟨box, hbox⟩ := h.box_of_call hcall
  have ha : SubscribeCall.Attends ⟨key, .read (.ok m)⟩ box := (h.serves id).attends _ _ hcall hbox
  obtain ⟨hkey, hcoherent⟩ := ha.history m rfl
  have hown (k : OrderKey) (s : Subscriber) (hs : c.live.subscriber? k id = some s) : k = key :=
    ((h.serves id).filed k s _ hs hcall).1.symm
  have hbuffer := Live.buffer_seed c.live key id m
  have htables := h.noEmptyTable.seed key id m
  rcases Live.seed_cases h.sound key id m with
    ⟨hnone, hsame⟩ | ⟨s, box₀, stays, box', hs, hb, hd, hframe, hsub, hsound⟩
  · rw [hsame]
    refine h.serve id _ box h.sound rfl h.noEmptyTable (calls_setCall _ id _)
      (Mailboxes.find?_eq_ite hbox) (fun _ _ _ _ hs => hs)
      ⟨fun hway => ?_, ha.items, fun m hm => ?_⟩ fun k s hs => ?_
    · cases hway
    · cases hm
    · cases hnone.symm.trans (hown k s hs ▸ hs)
  · cases hbox.symm.trans hb
    have hseeded : (s.seed m).machine.Coherent := hcoherent.applyAll _
    have hseededKey : (s.seed m).machine.key = key := (OrderMachine.key_applyAll m _).trans hkey
    refine h.serve id _ box' hsound hbuffer htables (calls_setCall _ id _) hframe
      (fun i hi k t ht => ?_) ⟨fun hway => ?_, hd.items hseededKey ha.items, fun m hm => ?_⟩
      fun k t ht => ?_
    · exact ((hsub k i).trans (if_neg fun hki => hi hki.2)).symm.trans ht
    · cases hway
    · cases hm
    · have hfind := (hsub k id).symm.trans ht
      split at hfind
      · next hk =>
        cases stays with
        | false => cases hfind
        | true =>
          cases hfind
          refine ⟨hk.1.symm, hseededKey, hseeded, ?_, fun _ => ?_, fun hway => ?_,
            fun _ => hd.not_isTerminal hseeded⟩
          · intro hstage
            cases hstage
          · intro hstage
            cases hstage
          · cases hway
      · next hk => exact absurd ⟨hown k t hfind, rfl⟩ hk

/-- A call that fails leaves no subscriber. -/
theorem Kept.fail (h : c.Kept) {key : OrderKey} {e : ReaderError}
    (hcall : c.calls id = some ⟨key, .read (.error e)⟩) :
    (setCall { c with live := (c.live.unsubscribe key id).2 } id ⟨key, .failed e⟩).Kept := by
  obtain ⟨box, hbox⟩ := h.box_of_call hcall
  have ha : SubscribeCall.Attends ⟨key, .read (.error e)⟩ box :=
    (h.serves id).attends _ _ hcall hbox
  have hsub := Live.subscriber?_unsubscribe c.live key id
  refine h.serve id _ box (h.sound.unsubscribe key id) rfl (h.noEmptyTable.setTable key _)
    (calls_setCall _ id _) (Mailboxes.find?_eq_ite hbox) (fun i hi k s hs => ?_)
    ⟨fun hway => ?_, ha.items, fun m hm => ?_⟩ fun k s hs => ?_
  · exact ((hsub k i).trans (if_neg fun hki => hi hki.2)).symm.trans hs
  · cases hway
  · cases hm
  · have hfind := (hsub k id).symm.trans hs
    split at hfind
    · cases hfind
    · next hk => exact absurd ⟨((h.serves id).filed k s _ hfind hcall).1.symm, rfl⟩ hk

theorem Kept.unsubscribe (h : c.Kept) (key : OrderKey) (id : Nat) :
    Kept { c with live := (c.live.unsubscribe key id).2 } := by
  refine h.remove (h.sound.unsubscribe key id) rfl (h.noEmptyTable.setTable key _) rfl
    fun i k s hs => ?_
  have hfind := (Live.subscriber?_unsubscribe c.live key id k i).symm.trans hs
  split at hfind
  · cases hfind
  · exact hfind

theorem Kept.prune (h : c.Kept) : Kept { c with live := c.live.prune } := by
  refine h.remove h.sound.prune rfl (Live.noEmptyTable_prune c.live) rfl fun i k s hs => ?_
  have hfind := (Live.subscriber?_prune h.sound k i).symm.trans hs
  split at hfind
  · exact hfind
  · cases hfind

theorem Kept.publish (h : c.Kept) (e : Event) : Kept { c with live := c.live.publishOne e } := by
  refine ⟨h.sound.publishOne e, h.buffer_pos, h.noEmptyTable.publishOne e, fun id => ?_⟩
  have hother (k : OrderKey) (hk : k ≠ e.order) :
      (c.live.publishOne e).subscriber? k id = c.live.subscriber? k id :=
    Live.subscriber?_publishOne_of_ne hk id
  rcases Live.publishOne_taken h.sound e id with
    ⟨_, hafter, hsame⟩ | ⟨s, box, box', hs, hbox, hbox', htaken⟩
  · refine (h.serves id).of_same rfl hsame fun k s hs => ?_
    by_cases hk : k = e.order
    · subst hk
      cases hafter.symm.trans hs
    · exact (hother k hk).symm.trans hs
  · obtain ⟨call, _, hcall, hb, ha, _, hf⟩ := h.filed hs
    cases hbox.symm.trans hb
    refine ⟨?_, fun call' _ hc hb' => ?_, fun k t call' ht hc => ?_⟩
    · exact (h.serves id).boxed.trans ((congrArg Option.isSome hbox).trans
        (congrArg Option.isSome hbox').symm)
    · cases hcall.symm.trans hc
      cases hbox'.symm.trans hb'
      exact htaken.attends hf ha
    · by_cases hk : k = e.order
      · subst hk
        have hkept : (c.live.publishOne e).subscriber? e.order id = some t := ht
        rw [hkept] at htaken
        cases hcall.symm.trans hc
        exact ⟨((h.serves id).filed _ s call hs hcall).1, htaken.filed hf⟩
      · exact (h.serves id).filed k t call' ((hother k hk).symm.trans ht) hc

theorem Kept.receive (h : c.Kept) {item : OrderTransition} {rest : List OrderTransition}
    (hbox : c.live.mailboxes.find? id = some ⟨item :: rest, true⟩) :
    Kept { c with live := { c.live with
      mailboxes := c.live.mailboxes.update id fun box => { box with items := rest } } } := by
  have hsome : (c.calls id).isSome := by
    rw [(h.serves id).boxed, hbox]
    rfl
  obtain ⟨call, hcall⟩ := Option.isSome_iff_exists.mp hsome
  have ha := (h.serves id).attends call _ hcall hbox
  refine h.serve id call ⟨rest, true⟩ (h.sound.update id _) rfl h.noEmptyTable (fun i => ?_)
    (fun i => ?_) (fun _ _ _ _ hs => hs) ⟨fun hway => ?_, fun x hx => ?_, ha.history⟩
    fun k s hs => ?_
  · split
    · next hi => exact hi ▸ hcall
    · rfl
  · rw [Mailboxes.find?_update]
    split
    · next hi => rw [hi, hbox, Option.map_some]
    · rfl
  · cases ha.underWay hway
  · exact ha.items x (List.mem_cons_of_mem item hx)
  · exact (h.serves id).filed k s call hs hcall

theorem underWay_cancel (s : SubscribeStage) : s.cancel.underWay = false := by
  cases s <;> rfl

theorem failed_of_cancel {s : SubscribeStage} {e : ReaderError} (h : s.cancel = .failed e) :
    s = .failed e := by
  cases s <;> first | exact h | cases h

theorem Kept.drop (h : c.Kept) {call : SubscribeCall} (hcall : c.calls id = some call) :
    (setCall { c with live := c.live.drop id } id
      { call with stage := call.stage.cancel }).Kept := by
  obtain ⟨box, hbox⟩ := h.box_of_call hcall
  have hidle : ∀ s, call.stage.cancel = s → s.underWay = false := by
    rintro s rfl
    exact underWay_cancel call.stage
  refine h.serve id _ ⟨[], false⟩ (h.sound.update id _) rfl h.noEmptyTable
    (calls_setCall _ id _) (fun i => ?_) (fun _ _ _ _ hs => hs)
    ⟨fun hway => ?_, fun x hx => ?_, fun m hm => ?_⟩ fun k s hs => ?_
  · refine (Live.find?_drop c.live id i).trans ?_
    split
    · next hi => rw [hi, hbox, Option.map_some]
    · rfl
  · cases (hidle _ rfl).symm.trans hway
  · cases hx
  · cases hidle _ hm
  · obtain ⟨hk, hf⟩ := (h.serves id).filed k s call hs hcall
    refine ⟨hk, hf.key, hf.coherent, fun hstage => ?_, fun e hstage => ?_, fun hway => ?_,
      hf.seeded⟩
    · cases hidle _ hstage
    · exact hf.notFailed e (failed_of_cancel hstage)
    · cases (hidle _ rfl).symm.trans hway

theorem Kept.step (h : c.Kept) (a : Action) : (c.step a).Kept := by
  have hstep := c.step_stepped a
  generalize c.step a = c' at hstep
  cases hstep with
  | notDue => exact h
  | allotted key => exact h.allot key
  | entered due => exact h.enter due
  | read ledger due => exact h.read due ledger
  | returned due => exact h.seed due
  | failed due => exact h.fail due
  | unsubscribed key id => exact h.unsubscribe key id
  | pruned => exact h.prune
  | published e => exact h.publish e
  | received due => exact h.receive due
  | dropped due => exact h.drop due

theorem Kept.run (h : c.Kept) (actions : List Action) : (c.run actions).Kept := by
  induction actions generalizing c with
  | nil => exact h
  | cons a actions ih => exact ih (h.step a)

end Clients

end DexIndex
