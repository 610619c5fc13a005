import DexIndex.Proofs.Live.Broadcast

/-!
# What a subscription is sent

The invariant of a subscription (`Subscription.Served`) says for each stage what its subscriber holds: the
events published since it was registered, which go on from within the history it reads, and later
the fold of a first run of events and of those published since. Every step keeps it, and so what a
subscription is sent is one account of its order, without a gap and without a repetition
(`Broadcast.sends_account`).
-/

namespace DexIndex

open BlockEvents

namespace OrderMachine

/-- The items due to who is told the `first` events of an order at once and each `later` one that
changes the state as it comes. -/
def account (key : OrderKey) (first later : List Event) : List OrderTransition :=
  (replay key first).transition?.toList ++ (replay key first).changes later

theorem account_append (key : OrderKey) (first a b : List Event) :
    account key first (a ++ b) = account key first a ++ (replay key (first ++ a)).changes b := by
  rw [account, account, changes_append, replay_append, List.append_assoc]

theorem account_le_append (key : OrderKey) (first a b : List Event) :
    account key first a <+: account key first (a ++ b) := by
  rw [account_append]
  exact List.prefix_append _ _

theorem account_concat (key : OrderKey) (first mid : List Event) (e : Event) :
    account key first (mid ++ [e]) = account key first mid ++
      if ((replay key (first ++ mid)).apply e).2 then
        ((replay key (first ++ mid)).apply e).1.transition?.toList
      else [] := by
  rw [account_append, changes_singleton]

end OrderMachine

open OrderMachine

/-! ### The invariant of a subscription -/

/-- A subscriber that was told the `first` events at once and has folded the `later` ones that were
published. It may have been told more than was published. -/
structure Subscriber.Follows (s : Subscriber) (key : OrderKey) (passed first later : List Event)
    (received : List OrderTransition) (box : Mailbox) : Prop where
  seeded : s.waiting = none
  place : ∃ mid rest, later = mid ++ rest ∧ s.machine = replay key (first ++ mid) ∧
    (mid = [] ∧ passed <+: first ∨ passed = first ++ mid) ∧
    (box.receiving → received ++ box.items = account key first mid)

/-- What holds of a subscription to the order `key`, of which the events `written` are durable and
`passed` of them are published; `member` is its subscriber if it is registered. -/
inductive Subscription.Served (key : OrderKey) (written passed : List Event)
    (member : Option Subscriber) (box : Mailbox) : Subscription → Prop
  | registered (empty : box.items = [])
      (waits : ∀ s ∈ member, ∃ old events, s.waiting = some events ∧ passed = old ++ events) :
      Served key written passed member box ⟨key, .registered, []⟩
  | read {history : Except ReaderError OrderMachine} {first : List Event}
      (empty : box.items = []) (le : first <+: written)
      (folded : ∀ m, history = .ok m → m = replay key first)
      (waits : ∀ s ∈ member, ∃ old events, s.waiting = some events ∧ passed = old ++ events ∧
        old <+: first) :
      Served key written passed member box ⟨key, .read history first.length, []⟩
  | finished {seen : Nat} {received : List OrderTransition} {first later : List Event}
      (split : written = first ++ later) (known : seen ≤ first.length)
      (sent : received ++ box.items <+: account key first later)
      (follows : ∀ s ∈ member, s.Follows key passed first later received box) :
      Served key written passed member box ⟨key, .finished seen, received⟩

namespace Subscriber
variable {s : Subscriber} {key : OrderKey} {passed first later rest : List Event}
  {received : List OrderTransition} {box box' : Mailbox} {limit : Nat} {e : Event}
  {member' : Option Subscriber}

/-- A follower that was told of an event at once is not told of it again when it is published. -/
theorem take_known (hseeded : s.waiting = none) (hmachine : s.machine = replay key first)
    (hitems : box.receiving → received ++ box.items = account key first [])
    (ho : InOrder key first) (hle : passed ++ [e] <+: first)
    (hsent : received ++ box.items <+: account key first later)
    (ht : s.Taken limit e box (member', box')) :
    received ++ box'.items <+: account key first later ∧
      ∀ s' ∈ member', s'.Follows key (passed ++ [e]) first later received box' := by
  have hold : s.machine.isNext e = false := by
    rw [hmachine]
    exact ho.not_isNext_replay (hle.subset (by simp))
  have happly := apply_of_not_next hold
  generalize hr : (member', box') = r at ht
  cases ht with
  | waiting hw => rw [hseeded] at hw; cases hw
  | unchanged =>
    cases hr
    refine ⟨hsent, fun s' hs' => ?_⟩
    obtain rfl := Option.some.inj hs'
    refine ⟨hseeded, [], later, rfl, ?_, .inl ⟨rfl, hle⟩, hitems⟩
    show (s.machine.apply e).1 = _
    rw [happly, hmachine, List.append_nil]
  | changed _ hc => rw [happly] at hc; cases hc

theorem take_new {mid : List Event} (hseeded : s.waiting = none)
    (hmachine : s.machine = replay key (first ++ mid))
    (hitems : box.receiving → received ++ box.items = account key first mid)
    (hsent : received ++ box.items <+: account key first (mid ++ e :: rest))
    (ht : s.Taken limit e box (member', box')) :
    received ++ box'.items <+: account key first (mid ++ e :: rest) ∧ ∀ s' ∈ member',
      s'.Follows key (first ++ mid ++ [e]) first (mid ++ e :: rest) received box' := by
  have hmachine' : (s.machine.apply e).1 = replay key (first ++ (mid ++ [e])) := by
    rw [hmachine, ← List.append_assoc, replay_append key (first ++ mid), applyAll_singleton]
  have hle : account key first (mid ++ [e]) <+: account key first (mid ++ e :: rest) := by
    rw [show mid ++ e :: rest = (mid ++ [e]) ++ rest by simp]
    exact account_le_append key first (mid ++ [e]) rest
  have hconcat := account_concat key first mid e
  rw [← hmachine] at hconcat
  have hfollows (b : Mailbox)
      (hb : b.receiving → received ++ b.items = account key first (mid ++ [e])) :
      (s.fold e).Follows key (first ++ mid ++ [e]) first (mid ++ e :: rest) received b :=
    ⟨hseeded, mid ++ [e], rest, by simp, hmachine', .inr (List.append_assoc ..), hb⟩
  generalize hr : (member', box') = r at ht
  cases ht with
  | waiting hw => rw [hseeded] at hw; cases hw
  | unchanged _ hc =>
    cases hr
    rw [hc, if_neg (by simp), List.append_nil] at hconcat
    refine ⟨hsent, fun s' hs' => ?_⟩
    obtain rfl := Option.some.inj hs'
    exact hfollows box fun hb => (hitems hb).trans hconcat.symm
  | @changed stays _ _ hc hd =>
    cases hr
    rw [if_pos hc] at hconcat
    have hsome := isSome_transition?_of_changed hc
    generalize hr : (stays, box') = r at hd
    cases hd with
    | nothing unknown =>
      rw [show (s.machine.apply e).1.transition? = none from unknown] at hsome
      cases hsome
    | @sent item known receiving =>
      obtain ⟨_, rfl⟩ := Prod.mk.inj hr
      rw [show (s.machine.apply e).1.transition? = some item from known] at hconcat
      have hitems' : received ++ (box.items ++ [item]) = account key first (mid ++ [e]) := by
        rw [← List.append_assoc, hitems receiving, hconcat]
        rfl
      refine ⟨hitems' ▸ hle, fun s' hs' => ?_⟩
      cases stays with
      | true =>
        obtain rfl := Option.some.inj hs'
        exact hfollows _ fun _ => hitems'
      | false => cases hs'
    | refused =>
      cases hr
      exact ⟨hsent, fun _ hs' => by cases hs'⟩

theorem Follows.take (h : s.Follows key passed first later received box)
    (ho : InOrder key (first ++ later)) (hw : first ++ later = passed ++ e :: rest)
    (hsent : received ++ box.items <+: account key first later)
    (ht : s.Taken limit e box (member', box')) :
    received ++ box'.items <+: account key first later ∧
      ∀ s' ∈ member', s'.Follows key (passed ++ [e]) first later received box' := by
  obtain ⟨hseeded, mid, ahead, rfl, hmachine, hplace, hitems⟩ := h
  have hcases : (mid = [] ∧ passed ++ [e] <+: first) ∨ (passed = first ++ mid ∧
      ahead = e :: rest) := by
    rcases hplace with ⟨rfl, more, rfl⟩ | rfl
    · have hmore : more ++ ahead = e :: rest := by simpa using hw
      cases more with
      | nil => exact .inr ⟨by simp, hmore⟩
      | cons x more =>
        obtain ⟨rfl, _⟩ := List.cons.inj hmore
        exact .inl ⟨rfl, ⟨more, by simp⟩⟩
    · exact .inr ⟨rfl, by simpa using hw⟩
  rcases hcases with ⟨rfl, hle⟩ | ⟨rfl, rfl⟩
  · rw [List.append_nil] at hmachine
    exact take_known hseeded hmachine hitems (ho.of_le (List.prefix_append _ _)) hle hsent ht
  · exact take_new hseeded hmachine hitems hsent ht

theorem Follows.grow (h : s.Follows key passed first later received box) (new : List Event) :
    s.Follows key passed first (later ++ new) received box := by
  obtain ⟨hseeded, mid, ahead, rfl, hmachine, hplace, hitems⟩ := h
  exact ⟨hseeded, mid, ahead ++ new, List.append_assoc .., hmachine, hplace, hitems⟩

end Subscriber

namespace Subscription.Served
variable {key : OrderKey} {written passed rest : List Event} {member member' : Option Subscriber}
  {box box' : Mailbox} {sub : Subscription} {s : Subscriber} {limit : Nat} {e : Event}

theorem leave (h : Served key written passed member box sub) (passed' : List Event) :
    Served key written passed' none box sub := by
  cases h with
  | registered empty => exact .registered empty fun _ hs => by cases hs
  | read empty le folded => exact .read empty le folded fun _ hs => by cases hs
  | finished split known sent => exact .finished split known sent fun _ hs => by cases hs

theorem grow (h : Served key written passed member box sub) (new : List Event) :
    Served key (written ++ new) passed member box sub := by
  cases h with
  | registered empty waits => exact .registered empty waits
  | read empty le folded waits =>
    exact .read empty (le.trans (List.prefix_append _ _)) folded waits
  | @finished _ _ first later split known sent follows =>
    refine .finished (by rw [split, List.append_assoc]) known
      (sent.trans (account_le_append key first later new)) fun s hs => ?_
    exact (follows s hs).grow new

theorem publish (h : Served key written passed member box sub) (ho : InOrder key written)
    (hw : written = passed ++ e :: rest)
    (hview : member = none ∧ member' = none ∧ box' = box ∨
      ∃ s, member = some s ∧ s.Taken limit e box (member', box')) :
    Served key written (passed ++ [e]) member' box' sub := by
  rcases hview with ⟨rfl, rfl, rfl⟩ | ⟨s, rfl, ht⟩
  · exact h.leave _
  have htaken {events : List Event} (hs : s.waiting = some events) :
      member' = some { s with waiting := some (events ++ [e]) } ∧ box' = box := by
    generalize hr : (member', box') = r at ht
    cases ht with
    | waiting hw =>
      obtain rfl := Option.some.inj (hs.symm.trans hw)
      exact Prod.mk.inj hr
    | unchanged seeded => rw [seeded] at hs; cases hs
    | changed seeded => rw [seeded] at hs; cases hs
  cases h with
  | registered empty waits =>
    obtain ⟨old, events, hs, rfl⟩ := waits s rfl
    obtain ⟨rfl, rfl⟩ := htaken hs
    refine .registered empty fun s' hs' => ?_
    obtain rfl := Option.some.inj hs'
    exact ⟨old, events ++ [e], rfl, List.append_assoc ..⟩
  | read empty le folded waits =>
    obtain ⟨old, events, hs, rfl, hold⟩ := waits s rfl
    obtain ⟨rfl, rfl⟩ := htaken hs
    refine .read empty le folded fun s' hs' => ?_
    obtain rfl := Option.some.inj hs'
    exact ⟨old, events ++ [e], rfl, List.append_assoc .., hold⟩
  | finished split known sent follows =>
    obtain ⟨hsent, hfollows⟩ := (follows s rfl).take (split ▸ ho) (split ▸ hw) sent ht
    exact .finished split known hsent hfollows

theorem readHistory {received : List OrderTransition} {history : Except ReaderError OrderMachine}
    (h : Served key written passed member box ⟨key, .registered, received⟩)
    (hpassed : passed <+: written) (hm : ∀ m, history = .ok m → m = replay key written) :
    Served key written passed member box ⟨key, .read history written.length, received⟩ := by
  cases h with
  | registered empty waits =>
    refine .read empty List.prefix_rfl hm fun s hs => ?_
    obtain ⟨old, events, hs, rfl⟩ := waits s hs
    exact ⟨old, events, hs, rfl, (List.prefix_append _ _).trans hpassed⟩

theorem abandon {received : List OrderTransition} {history : Except ReaderError OrderMachine}
    {seen : Nat} (h : Served key written passed member box ⟨key, .read history seen, received⟩) :
    Served key written passed none box ⟨key, .finished seen, received⟩ := by
  cases h with
  | read empty le =>
    obtain ⟨later, rfl⟩ := le
    refine .finished rfl (Nat.le_refl _) ?_ fun _ hs => by cases hs
    rw [empty]
    exact List.nil_prefix

/-- The subscriber is seeded with the history and what was published since it was registered. -/
theorem seed {received : List OrderTransition} {m : OrderMachine} {seen : Nat} {stays : Bool}
    (h : Served key written passed (some s) box ⟨key, .read (.ok m) seen, received⟩)
    (ho : InOrder key written) (hpassed : passed <+: written)
    (hd : (s.seed m).Delivered limit box (stays, box')) :
    Served key written passed (if stays then some (s.seed m) else none) box'
      ⟨key, .finished seen, received⟩ := by
  cases h with
  | @read _ first empty le folded waits =>
    obtain ⟨old, events, hs, rfl, hold⟩ := waits s rfl
    obtain rfl := folded m rfl
    have hmachine : (s.seed (replay key first)).machine = (replay key first).applyAll events := by
      rw [Subscriber.seed, hs]
      rfl
    obtain ⟨known, hknown, hfirst, hle, hreplay⟩ : ∃ known, known <+: written ∧ first <+: known ∧
        old ++ events <+: known ∧ (s.seed (replay key first)).machine = replay key known := by
      rw [hmachine]
      -- the history that was read and the events published since overlap; the longer one is known
      rcases ho.applyAll_overlap le hpassed hold with ⟨hle, heq⟩ | ⟨hle, heq⟩
      · exact ⟨first, le, List.prefix_rfl, hle, heq⟩
      · exact ⟨old ++ events, hpassed, hle, List.prefix_rfl, heq⟩
    obtain ⟨later, rfl⟩ := hknown
    have haccount : account key known [] = (replay key known).transition?.toList :=
      List.append_nil _
    have hstart : account key known [] <+: account key known later :=
      account_le_append key known [] later
    have hfollows (b : Mailbox) (hb : b.receiving → b.items = account key known []) :
        (s.seed (replay key first)).Follows key (old ++ events) known later [] b :=
      ⟨rfl, [], later, rfl, by rw [List.append_nil, hreplay], .inl ⟨rfl, hle⟩, hb⟩
    rw [haccount, ← hreplay] at hfollows
    rw [haccount, ← hreplay] at hstart
    generalize hr : (stays, box') = r at hd
    cases hd with
    | nothing unknown =>
      cases hr
      rw [unknown] at hfollows
      refine .finished rfl hfirst.length_le ?_ fun s' hs' => ?_
      · rw [empty]
        exact List.nil_prefix
      · obtain rfl := Option.some.inj hs'
        exact hfollows box fun _ => empty
    | @sent item known' =>
      obtain ⟨_, rfl⟩ := Prod.mk.inj hr
      rw [known'] at hfollows hstart
      refine .finished rfl hfirst.length_le ?_ fun s' hs' => ?_
      · rw [empty]
        exact hstart
      · cases stays with
        | true =>
          obtain rfl := Option.some.inj hs'
          exact hfollows _ fun _ => by rw [empty]; rfl
        | false => cases hs'
    | refused =>
      cases hr
      refine .finished rfl hfirst.length_le ?_ fun _ hs' => by cases hs'
      rw [empty]
      exact List.nil_prefix

theorem receive {item : OrderTransition} {items : List OrderTransition}
    (h : Served key written passed member ⟨item :: items, true⟩ sub) :
    Served key written passed member ⟨items, true⟩
      { sub with received := sub.received ++ [item] } := by
  cases h with
  | registered empty => cases empty
  | read empty => cases empty
  | @finished _ received first later split known sent follows =>
    have hitems : received ++ [item] ++ items = received ++ item :: items := by simp
    refine .finished split known (hitems ▸ sent) fun s hs => ?_
    obtain ⟨hseeded, mid, ahead, hlater, hmachine, hplace, hmid⟩ := follows s hs
    exact ⟨hseeded, mid, ahead, hlater, hmachine, hplace, fun hb => hitems ▸ hmid hb⟩

theorem drop (h : Served key written passed member box sub) :
    Served key written passed member ⟨[], false⟩ sub := by
  cases h with
  | registered _ waits => exact .registered rfl waits
  | read _ le folded waits => exact .read rfl le folded waits
  | finished split known sent follows =>
    refine .finished split known ?_ fun s hs => ?_
    · rw [List.append_nil]
      exact (List.prefix_append _ _).trans sent
    · obtain ⟨hseeded, mid, ahead, hlater, hmachine, hplace, _⟩ := follows s hs
      exact ⟨hseeded, mid, ahead, hlater, hmachine, hplace, fun hb => by cases hb⟩

end Subscription.Served

/-! ### The invariant of the system -/

namespace Broadcast
variable {b : Broadcast} {passed : List Event}

/-- The part of some events that is about an order. -/
def about (events : List Event) (key : OrderKey) : List Event := events.filter (·.order = key)

theorem inOrder_keptOf {bs : List BlockEvents} {key : OrderKey}
    (h : (keptOf bs key).Pairwise fun a b => a.position.before b.position) :
    InOrder key (keptOf bs key) :=
  ⟨h, fun _ he => (mem_keptOf.mp he).2⟩

structure Sound (b : Broadcast) (passed : List Event) : Prop where
  live : b.live.Sound
  events : kept [] b.blocks = passed ++ b.publisher.left
  known : ∀ key id s, b.live.subscriber? key id = some s →
    ∃ sub, b.subscriptions id = some sub ∧ sub.key = key
  served : ∀ id sub, b.subscriptions id = some sub →
    ∃ box, b.live.mailboxes.find? id = some box ∧
      (InOrder sub.key (keptOf b.blocks sub.key) →
        sub.Served sub.key (keptOf b.blocks sub.key) (about passed sub.key)
          (b.live.subscriber? sub.key id) box)

theorem Sound.split (h : b.Sound passed) (key : OrderKey) :
    keptOf b.blocks key = about passed key ++ about b.publisher.left key := by
  rw [keptOf, h.events, List.filter_append]
  rfl

theorem Sound.withLive (h : b.Sound passed) {live : Live} (hl : live.Sound)
    (hsub : ∀ key id, live.subscriber? key id = b.live.subscriber? key id ∨
      live.subscriber? key id = none)
    (hbox : ∀ id, live.mailboxes.find? id = b.live.mailboxes.find? id) :
    Sound { b with live } passed := by
  refine ⟨hl, h.events, fun key id s hs => ?_, fun id sub hid => ?_⟩
  · rcases hsub key id with heq | heq
    · exact h.known key id s (heq ▸ hs)
    · rw [show live.subscriber? key id = some s from hs] at heq
      cases heq
  · obtain ⟨box, hfind, hserved⟩ := h.served id sub hid
    refine ⟨box, (hbox id).trans hfind, fun ho => ?_⟩
    show Subscription.Served _ _ _ (live.subscriber? sub.key id) box sub
    rcases hsub sub.key id with heq | heq
    · rw [heq]
      exact hserved ho
    · rw [heq]
      exact (hserved ho).leave _

/-- Steps of one subscription: no other subscriber and no other mailbox changes. -/
theorem Sound.update (h : b.Sound passed) {id : Nat} {sub sub' : Subscription} {live : Live}
    (hid : b.subscriptions id = some sub) (hkey : sub'.key = sub.key) (hlive : live.Sound)
    (hsubs : ∀ k i, ¬ (k = sub.key ∧ i = id) → live.subscriber? k i = b.live.subscriber? k i)
    (hboxes : ∀ i, i ≠ id → live.mailboxes.find? i = b.live.mailboxes.find? i)
    (hserved : ∀ box, b.live.mailboxes.find? id = some box →
      ∃ box', live.mailboxes.find? id = some box' ∧
        (InOrder sub.key (keptOf b.blocks sub.key) →
          sub.Served sub.key (keptOf b.blocks sub.key) (about passed sub.key)
            (b.live.subscriber? sub.key id) box →
          sub'.Served sub.key (keptOf b.blocks sub.key) (about passed sub.key)
            (live.subscriber? sub.key id) box')) :
    (Broadcast.setSubscription { b with live } id sub').Sound passed := by
  have hfind (i : Nat) : Function.update b.subscriptions id (some sub') i =
      if i = id then some sub' else b.subscriptions i := Function.update_apply ..
  refine ⟨hlive, h.events, fun k i s hs => ?_, fun i t hi => ?_⟩
  · have hs : live.subscriber? k i = some s := hs
    show ∃ t, Function.update b.subscriptions id (some sub') i = some t ∧ t.key = k
    rw [hfind]
    by_cases hown : k = sub.key ∧ i = id
    · exact ⟨sub', if_pos hown.2, hkey.trans hown.1.symm⟩
    · rw [hsubs k i hown] at hs
      obtain ⟨t, ht, htkey⟩ := h.known k i s hs
      have hi : i ≠ id := by
        rintro rfl
        rw [hid] at ht
        obtain rfl := Option.some.inj ht
        exact hown ⟨htkey.symm, rfl⟩
      exact ⟨t, by rw [if_neg hi, ht], htkey⟩
  · have ht : Function.update b.subscriptions id (some sub') i = some t := hi
    show ∃ box, live.mailboxes.find? i = some box ∧
      (_ → t.Served _ _ _ (live.subscriber? t.key i) box)
    rw [hfind] at ht
    split at ht
    · next heq =>
      subst heq
      obtain rfl := Option.some.inj ht
      obtain ⟨box, hbox, hold⟩ := h.served i sub hid
      obtain ⟨box', hbox', hnew⟩ := hserved box hbox
      rw [hkey]
      exact ⟨box', hbox', fun ho => hnew ho (hold ho)⟩
    · next hne =>
      rw [hboxes i hne, hsubs t.key i fun hown => hne hown.2]
      exact h.served i t ht

theorem Sound.setSubscription (h : b.Sound passed) {id : Nat} {sub sub' : Subscription}
    (hid : b.subscriptions id = some sub) (hkey : sub'.key = sub.key)
    (hserved : ∀ box, b.live.mailboxes.find? id = some box →
      InOrder sub.key (keptOf b.blocks sub.key) →
      sub.Served sub.key (keptOf b.blocks sub.key) (about passed sub.key)
        (b.live.subscriber? sub.key id) box →
      sub'.Served sub.key (keptOf b.blocks sub.key) (about passed sub.key)
        (b.live.subscriber? sub.key id) box) :
    (b.setSubscription id sub').Sound passed :=
  h.update hid hkey h.live (fun _ _ _ => rfl) (fun _ _ => rfl) fun box hbox =>
    ⟨box, hbox, hserved box hbox⟩

theorem Sound.updateBox (h : b.Sound passed) {id : Nat} {sub sub' : Subscription}
    {f : Mailbox → Mailbox} (hid : b.subscriptions id = some sub) (hkey : sub'.key = sub.key)
    (hserved : ∀ box, b.live.mailboxes.find? id = some box →
      sub.Served sub.key (keptOf b.blocks sub.key) (about passed sub.key)
        (b.live.subscriber? sub.key id) box →
      sub'.Served sub.key (keptOf b.blocks sub.key) (about passed sub.key)
        (b.live.subscriber? sub.key id) (f box)) :
    (Broadcast.setSubscription { b with
      live := { b.live with mailboxes := b.live.mailboxes.update id f } } id sub').Sound passed := by
  refine h.update hid hkey (h.live.update id f) (fun _ _ _ => rfl) (fun i hi => ?_)
    fun box hbox => ⟨f box, ?_, fun _ => hserved box hbox⟩
  · exact (Mailboxes.find?_update ..).trans (if_neg hi)
  · rw [Mailboxes.find?_update, if_pos rfl, hbox, Option.map_some]

/-! ### One lemma for each step -/

theorem Sound.land (h : b.Sound passed) (blocks : List BlockEvents) :
    (b.step (.land blocks)).Sound passed := by
  rw [step]
  split
  · next hidle =>
    have hevents := h.events
    rw [hidle] at hevents
    have hall : passed = kept [] b.blocks := by rw [hevents]; exact (List.append_nil _).symm
    refine ⟨h.live, ?_, h.known, fun id sub hid => ?_⟩
    · show kept [] (b.blocks ++ blocks) = passed ++ kept (named b.blocks) blocks
      rw [kept_append, hall]
      rfl
    · obtain ⟨box, hbox, hserved⟩ := h.served id sub hid
      have hgrow : keptOf (b.blocks ++ blocks) sub.key = keptOf b.blocks sub.key ++
          about (kept (named b.blocks) blocks) sub.key := by
        rw [keptOf, kept_append, List.filter_append]
        rfl
      refine ⟨box, hbox, fun ho => ?_⟩
      show Subscription.Served _ (keptOf (b.blocks ++ blocks) sub.key) _ _ box sub
      have ho : InOrder sub.key (keptOf (b.blocks ++ blocks) sub.key) := ho
      rw [hgrow] at ho ⊢
      exact (hserved (ho.of_le (List.prefix_append _ _))).grow _
  · exact h

theorem Sound.look (h : b.Sound passed) : ∃ passed', (b.step .look).Sound passed' := by
  rw [step]
  split
  · next events hdue =>
    have hevents := h.events
    rw [hdue] at hevents
    by_cases hempty : events.isEmpty || b.live.tables.isEmpty
    · refine ⟨passed ++ events, h.live, ?_, h.known, fun id sub hid => ?_⟩
      · show kept [] b.blocks = _ ++ (if _ then Publisher.idle else _).left
        rw [if_pos hempty, hevents]
        exact (List.append_nil _).symm
      · obtain ⟨box, hbox, hserved⟩ := h.served id sub hid
        refine ⟨box, hbox, fun ho => ?_⟩
        show Subscription.Served _ _ _ (b.live.subscriber? sub.key id) box sub
        rcases Bool.or_eq_true .. ▸ hempty with hnil | hnil
        · obtain rfl : events = [] := by simpa using hnil
          rw [List.append_nil]
          exact hserved ho
        · have hnone : b.live.subscriber? sub.key id = none := by
            have htables : b.live.tables = [] := by simpa using hnil
            simp [Live.subscriber?, Live.table, htables]
          rw [hnone]
          exact (hserved ho).leave _
    · refine ⟨passed, h.live, ?_, h.known, h.served⟩
      show kept [] b.blocks = passed ++ (if _ then Publisher.idle else _).left
      rw [if_neg hempty, hevents]
      rfl
  · exact ⟨passed, h⟩

theorem Sound.prune (h : b.Sound passed) : (b.step .prune).Sound passed := by
  rw [step]
  split
  · next events hawaited =>
    have hpruned : Sound { b with live := b.live.prune } passed := by
      refine h.withLive h.live.prune (fun key id => ?_) fun _ => rfl
      rw [Live.subscriber?_prune h.live]
      split
      · exact .inl rfl
      · exact .inr rfl
    refine ⟨hpruned.live, ?_, hpruned.known, hpruned.served⟩
    rw [h.events, hawaited]
    rfl
  · exact h

theorem about_concat_of_ne {e : Event} {key : OrderKey} (h : key ≠ e.order) (events : List Event) :
    about (events ++ [e]) key = about events key := by
  simp [about, Ne.symm h]

theorem about_concat_self (events : List Event) (e : Event) :
    about (events ++ [e]) e.order = about events e.order ++ [e] := by
  simp [about]

theorem Sound.find?_publishOne (h : b.Sound passed) (e : Event) {id : Nat} {sub : Subscription}
    (hid : b.subscriptions id = some sub) (hkey : sub.key ≠ e.order) :
    (b.live.publishOne e).mailboxes.find? id = b.live.mailboxes.find? id := by
  rcases Live.publishOne_taken h.live e id with ⟨_, _, hbox⟩ | ⟨s, _, _, hs, _⟩
  · exact hbox
  · -- a subscriber of the event's order has its subscription for this order
    obtain ⟨sub', hsub', hkey'⟩ := h.known _ id s hs
    rw [hid] at hsub'
    obtain rfl := Option.some.inj hsub'
    exact absurd hkey' hkey

theorem Sound.publishEvent (h : b.Sound passed) {e : Event} {events : List Event}
    (hgiving : b.publisher = .giving (e :: events)) :
    Sound { b with publisher := .giving events, live := b.live.publishOne e } (passed ++ [e]) := by
  have hevents : kept [] b.blocks = passed ++ e :: events := by
    rw [h.events, hgiving]
    rfl
  refine ⟨h.live.publishOne e, ?_, fun key id s hs => ?_, fun id sub hid => ?_⟩
  · rw [hevents]
    exact (List.append_assoc passed [e] events).symm
  · have hs : (b.live.publishOne e).subscriber? key id = some s := hs
    by_cases hkey : key = e.order
    · subst hkey
      rcases Live.publishOne_taken h.live e id with ⟨_, hnone, _⟩ | ⟨s', _, _, hs', _⟩
      · rw [hnone] at hs
        cases hs
      · exact h.known _ id s' hs'
    · rw [Live.subscriber?_publishOne_of_ne hkey] at hs
      exact h.known key id s hs
  · obtain ⟨box, hbox, hserved⟩ := h.served id sub hid
    have hwritten := h.split sub.key
    by_cases hkey : sub.key = e.order
    · have hsplit : keptOf b.blocks sub.key =
          about passed sub.key ++ e :: about events sub.key := by
        rw [hwritten, hgiving, hkey]
        simp [about, Publisher.left]
      have hview : ∃ box', (b.live.publishOne e).mailboxes.find? id = some box' ∧
          (b.live.subscriber? sub.key id = none ∧
            (b.live.publishOne e).subscriber? sub.key id = none ∧ box' = box ∨
          ∃ s, b.live.subscriber? sub.key id = some s ∧
            s.Taken b.live.buffer e box ((b.live.publishOne e).subscriber? sub.key id, box')) := by
        rw [hkey]
        rcases Live.publishOne_taken h.live e id with ⟨hs, hs', hbox'⟩ |
          ⟨s, box₁, box', hs, hbox₁, hbox', ht⟩
        · exact ⟨box, hbox'.trans hbox, .inl ⟨hs, hs', rfl⟩⟩
        · obtain rfl := Option.some.inj (hbox.symm.trans hbox₁)
          exact ⟨box', hbox', .inr ⟨s, hs, ht⟩⟩
      obtain ⟨box', hbox', hview⟩ := hview
      refine ⟨box', hbox', fun ho => ?_⟩
      have hpassed : about (passed ++ [e]) sub.key = about passed sub.key ++ [e] := by
        rw [hkey, about_concat_self]
      show sub.Served _ _ _ ((b.live.publishOne e).subscriber? sub.key id) box'
      rw [hpassed]
      exact (hserved ho).publish ho hsplit hview
    · refine ⟨box, (h.find?_publishOne e hid hkey).trans hbox, fun ho => ?_⟩
      show sub.Served _ _ _ ((b.live.publishOne e).subscriber? sub.key id) box
      rw [about_concat_of_ne hkey, Live.subscriber?_publishOne_of_ne hkey]
      exact hserved ho

theorem Sound.publish (h : b.Sound passed) : ∃ passed', (b.step .publish).Sound passed' := by
  rw [step]
  split
  · next e events hgiving => exact ⟨_, h.publishEvent hgiving⟩
  · next hgiving =>
    refine ⟨passed, h.live, ?_, h.known, h.served⟩
    rw [h.events, hgiving]
    rfl
  · exact ⟨passed, h⟩

theorem Sound.register (h : b.Sound passed) (key : OrderKey) :
    (b.step (.register key)).Sound passed := by
  rw [step]
  have hlive := h.live
  have hfind (i : Nat) : (Function.update b.subscriptions b.live.nextId
      (some ⟨key, .registered, []⟩)) i =
        if i = b.live.nextId then some ⟨key, .registered, []⟩ else b.subscriptions i :=
    Function.update_apply ..
  refine ⟨hlive.register key, h.events, fun k i s hs => ?_, fun i sub hi => ?_⟩
  · have hs : (b.live.register key).2.subscriber? k i = some s := hs
    show ∃ sub, Function.update b.subscriptions b.live.nextId _ i = some sub ∧ _
    rw [hfind]
    rw [Live.subscriber?_register hlive] at hs
    split at hs
    · next hnew => exact ⟨_, if_pos hnew.2, hnew.1.symm⟩
    · split at hs
      · obtain ⟨sub, hsub, hkey⟩ := h.known k i s hs
        obtain ⟨box, hbox⟩ := hlive.box_of_subscriber? hs
        have hne : i ≠ b.live.nextId := by
          rintro rfl
          rw [hlive.find?_nextId] at hbox
          cases hbox
        exact ⟨sub, by rw [if_neg hne, hsub], hkey⟩
      · cases hs
  · have hi : Function.update b.subscriptions b.live.nextId
        (some ⟨key, .registered, []⟩) i = some sub := hi
    show ∃ box, (b.live.register key).2.mailboxes.find? i = some box ∧
      (_ → sub.Served _ _ _ ((b.live.register key).2.subscriber? sub.key i) box)
    rw [hfind] at hi
    rw [Live.find?_register hlive, Live.subscriber?_register hlive]
    split at hi
    · next heq =>
      obtain rfl := Option.some.inj hi
      refine ⟨⟨[], true⟩, if_pos heq, fun _ => ?_⟩
      rw [if_pos ⟨rfl, heq⟩]
      refine .registered rfl fun s hs => ?_
      obtain rfl := Option.some.inj hs
      exact ⟨about passed key, [], rfl, (List.append_nil _).symm⟩
    · next hne =>
      obtain ⟨box, hbox, hserved⟩ := h.served i sub hi
      refine ⟨box, by rw [if_neg hne, hbox], fun ho => ?_⟩
      rw [if_neg fun h => hne h.2]
      split
      · exact hserved ho
      · exact (hserved ho).leave _

theorem Sound.read (h : b.Sound passed) (id : Nat) (faults : List (Option StoreError)) :
    (b.step (.read id faults)).Sound passed := by
  rw [step]
  split
  · next key received hid =>
    refine h.setSubscription hid rfl fun box _ ho hserved => hserved.readHistory ?_ fun m hm => ?_
    · exact h.split key ▸ List.prefix_append _ _
    · exact Ledger.orderMachine_eq (l := .ofStore (b.store faults)) rfl ho.positions hm
  · exact h

theorem Sound.unsubscribe (h : b.Sound passed) (key : OrderKey) (id : Nat) :
    (b.step (.unsubscribe key id)).Sound passed := by
  refine h.withLive (h.live.unsubscribe key id) (fun k i => ?_) fun _ => rfl
  rw [Live.subscriber?_unsubscribe]
  split
  · exact .inr rfl
  · exact .inl rfl

theorem Sound.abandon (h : b.Sound passed) {id : Nat} {key : OrderKey} {seen : Nat}
    {history : Except ReaderError OrderMachine} {received : List OrderTransition}
    (hid : b.subscriptions id = some ⟨key, .read history seen, received⟩)
    (hnone : b.live.subscriber? key id = none) :
    (b.setSubscription id ⟨key, .finished seen, received⟩).Sound passed := by
  refine h.setSubscription hid rfl fun box _ _ hserved => ?_
  show Subscription.Served _ _ _ (b.live.subscriber? key id) box _
  rw [hnone]
  exact hserved.abandon

theorem Sound.seed (h : b.Sound passed) {id : Nat} {key : OrderKey} {seen : Nat}
    {m : OrderMachine} {received : List OrderTransition}
    (hid : b.subscriptions id = some ⟨key, .read (.ok m) seen, received⟩) :
    (Broadcast.setSubscription { b with live := b.live.seed key id m } id
      ⟨key, .finished seen, received⟩).Sound passed := by
  rcases Live.seed_cases h.live key id m with
    ⟨hnone, hseed⟩ | ⟨s, box, stays, box', hs, hbox, hd, hboxes, hsubs, hsound⟩
  · rw [hseed]
    exact h.abandon hid hnone
  · refine h.update hid rfl hsound (fun k i hne => (hsubs k i).trans (if_neg hne))
      (fun i hne => (hboxes i).trans (if_neg hne)) fun box₁ hbox₁ => ?_
    obtain rfl := Option.some.inj (hbox.symm.trans hbox₁)
    refine ⟨box', (hboxes id).trans (if_pos rfl), fun ho hserved => ?_⟩
    show Subscription.Served _ _ _ ((b.live.seed key id m).subscriber? key id) box' _
    have hread : Subscription.Served key (keptOf b.blocks key) (about passed key)
        (b.live.subscriber? key id) box ⟨key, .read (.ok m) seen, received⟩ := hserved
    rw [hs] at hread
    rw [hsubs, if_pos ⟨rfl, rfl⟩]
    exact hread.seed ho (h.split key ▸ List.prefix_append _ _) hd

theorem Sound.finish (h : b.Sound passed) (id : Nat) : (b.step (.finish id)).Sound passed := by
  rw [step]
  split
  · next key history seen received hid =>
    cases history with
    | ok m => exact h.seed hid
    | error e =>
      have hgone : ((b.live.unsubscribe key id).2).subscriber? key id = none := by
        rw [Live.subscriber?_unsubscribe, if_pos ⟨rfl, rfl⟩]
      exact Sound.abandon (b := b.step (.unsubscribe key id)) (h.unsubscribe key id) hid hgone
  · exact h

theorem Sound.receive (h : b.Sound passed) (id : Nat) : (b.step (.receive id)).Sound passed := by
  rw [step]
  split
  · next sub hid =>
    rcases b.live.receive_cases id with hnone | ⟨item, rest, hbox, hreceive⟩
    · rw [hnone]
      refine h.setSubscription hid rfl fun box _ _ hserved => ?_
      rw [Option.toList_none, List.append_nil]
      exact hserved
    · rw [hreceive]
      refine h.updateBox hid rfl fun box hbox' hserved => ?_
      obtain rfl := Option.some.inj (hbox.symm.trans hbox')
      exact hserved.receive
  · exact h

theorem Sound.drop (h : b.Sound passed) (id : Nat) : (b.step (.drop id)).Sound passed := by
  rw [step]
  split
  · next sub hid => exact h.updateBox hid rfl fun box _ hserved => hserved.drop
  · exact h

theorem Sound.step (h : b.Sound passed) (a : Action) : ∃ passed', (b.step a).Sound passed' := by
  cases a with
  | land blocks => exact ⟨passed, h.land blocks⟩
  | look => exact h.look
  | prune => exact ⟨passed, h.prune⟩
  | publish => exact h.publish
  | register key => exact ⟨passed, h.register key⟩
  | read id faults => exact ⟨passed, h.read id faults⟩
  | finish id => exact ⟨passed, h.finish id⟩
  | unsubscribe key id => exact ⟨passed, h.unsubscribe key id⟩
  | receive id => exact ⟨passed, h.receive id⟩
  | drop id => exact ⟨passed, h.drop id⟩

theorem sound_start (buffer : Nat) (blocks : List BlockEvents) :
    (start buffer blocks).Sound (kept [] blocks) := by
  refine ⟨⟨.nil, fun _ => .nil, fun _ s hs => ?_, fun _ hs => ?_⟩, (List.append_nil _).symm,
    fun key id s hs => ?_, fun id sub hid => ?_⟩
  · cases hs
  · cases hs
  · cases hs
  · cases hid

theorem Sound.run (h : b.Sound passed) (actions : List Action) :
    ∃ passed', (b.run actions).Sound passed' := by
  induction actions generalizing b passed with
  | nil => exact ⟨passed, h⟩
  | cons a actions ih =>
    obtain ⟨passed', h'⟩ := h.step a
    exact ih h'

/-! ### Leaving the registry -/

/-- Why the subscriber of a subscription may leave the registry at a step. -/
inductive Leaves (b : Broadcast) (a : Action) (id : Nat) : Prop
  | unsubscribed {key : OrderKey} (step : a = .unsubscribe key id)
  | unread {key : OrderKey} {error : ReaderError} {seen : Nat} {received : List OrderTransition}
      (step : a = .finish id)
      (history : b.subscriptions id = some ⟨key, .read (.error error) seen, received⟩)
  | dropped {box : Mailbox} (before : b.live.mailboxes.find? id = some box)
      (receiving : box.receiving = false)
  | full {box : Mailbox} (before : b.live.mailboxes.find? id = some box)
      (items : b.live.buffer ≤ box.items.length)
  | ended {box : Mailbox} {item : OrderTransition}
      (after : (b.step a).live.mailboxes.find? id = some box)
      (last : box.items.getLast? = some item) (terminal : item.current.isTerminal)

theorem leaves_of_delivered {a : Action} {id : Nat} {s : Subscriber} {box box' : Mailbox}
    (hbox : b.live.mailboxes.find? id = some box)
    (hbox' : (b.step a).live.mailboxes.find? id = some box')
    (hd : s.Delivered b.live.buffer box (false, box')) : b.Leaves a id := by
  generalize hr : (false, box') = r at hd
  cases hd with
  | nothing => cases hr
  | @sent item known =>
    obtain ⟨hstays, rfl⟩ := Prod.mk.inj hr
    refine .ended hbox' List.getLast?_concat ?_
    rw [current_of_mem_transition? known]
    simpa using hstays
  | refused _ full =>
    rcases full with hdropped | hfull
    · exact .dropped hbox hdropped
    · exact .full hbox hfull

theorem leaves_of_prune {a : Action} {id : Nat} (hl : b.live.Sound) {key : OrderKey}
    {s : Subscriber} (hs : b.live.subscriber? key id = some s)
    (hgone : ¬ b.live.mailboxes.isReceiving id) : b.Leaves a id := by
  obtain ⟨box, hbox⟩ := hl.box_of_subscriber? hs
  rw [Mailboxes.isReceiving_of_find? hbox] at hgone
  exact .dropped hbox (by simpa using hgone)

theorem leaves_of_same {a : Action} {key : OrderKey} {id : Nat} {s : Subscriber}
    (hs : b.live.subscriber? key id = some s) (hgone : (b.step a).live.subscriber? key id = none)
    (hlive : (b.step a).live.subscriber? key id = b.live.subscriber? key id) : b.Leaves a id := by
  rw [hlive, hs] at hgone
  cases hgone

theorem Sound.leaves_of_publish (h : b.Sound passed) {key : OrderKey} {id : Nat} {s : Subscriber}
    (hs : b.live.subscriber? key id = some s)
    (hgone : (b.step .publish).live.subscriber? key id = none) : b.Leaves .publish id := by
  cases hgiving : b.publisher with
  | idle => exact leaves_of_same hs hgone (by rw [Broadcast.step, hgiving])
  | due => exact leaves_of_same hs hgone (by rw [Broadcast.step, hgiving])
  | awaited => exact leaves_of_same hs hgone (by rw [Broadcast.step, hgiving])
  | giving events =>
    cases events with
    | nil => exact leaves_of_same hs hgone (by rw [Broadcast.step, hgiving])
    | cons e events =>
      have hlive : (b.step .publish).live = b.live.publishOne e := by
        rw [Broadcast.step, hgiving]
      rw [hlive] at hgone
      by_cases hkey : key = e.order
      · subst hkey
        rcases Live.publishOne_taken h.live e id with ⟨hnone, _⟩ | ⟨s', _, _, _, hbox, hbox', ht⟩
        · rw [hs] at hnone
          cases hnone
        · rw [hgone] at ht
          exact leaves_of_delivered hbox (by rw [hlive, hbox']) ht.delivered
      · rw [Live.subscriber?_publishOne_of_ne hkey, hs] at hgone
        cases hgone

theorem Sound.leaves_of_finish (h : b.Sound passed) {key : OrderKey} {id i : Nat} {s : Subscriber}
    (hs : b.live.subscriber? key id = some s)
    (hgone : (b.step (.finish i)).live.subscriber? key id = none) : b.Leaves (.finish i) id := by
  cases hi : b.subscriptions i with
  | none => exact leaves_of_same hs hgone (by rw [Broadcast.step, hi])
  | some sub =>
    obtain ⟨k, stage, received⟩ := sub
    cases stage with
    | registered => exact leaves_of_same hs hgone (by rw [Broadcast.step, hi])
    | finished => exact leaves_of_same hs hgone (by rw [Broadcast.step, hi])
    | read history seen =>
      cases history with
      | error err =>
        have hlive : (b.step (.finish i)).live = (b.live.unsubscribe k i).2 := by
          rw [Broadcast.step, hi]
          rfl
        rw [hlive, Live.subscriber?_unsubscribe] at hgone
        split at hgone
        · next hown => exact .unread (by rw [hown.2]) (hown.2 ▸ hi)
        · rw [hs] at hgone
          cases hgone
      | ok m =>
        have hlive : (b.step (.finish i)).live = b.live.seed k i m := by
          rw [Broadcast.step, hi]
          rfl
        rcases Live.seed_cases h.live k i m with
          ⟨_, hseed⟩ | ⟨s', box, stays, box', _, hbox, hd, hboxes, hsubs, _⟩
        · exact leaves_of_same hs hgone (by rw [hlive, hseed])
        · rw [hlive, hsubs] at hgone
          split at hgone
          · next hown =>
            obtain ⟨rfl, rfl⟩ := hown
            cases stays with
            | true => cases hgone
            | false => exact leaves_of_delivered hbox (by rw [hlive, hboxes, if_pos rfl]) hd
          · rw [hs] at hgone
            cases hgone

/-- A subscriber that is not registered any more after a step had a reason to leave. -/
theorem Sound.leaves (h : b.Sound passed) {a : Action} {key : OrderKey} {id : Nat}
    {s : Subscriber} (hs : b.live.subscriber? key id = some s)
    (hgone : (b.step a).live.subscriber? key id = none) : b.Leaves a id := by
  cases a with
  | land blocks =>
    refine leaves_of_same hs hgone ?_
    rw [Broadcast.step]
    split <;> rfl
  | look =>
    refine leaves_of_same hs hgone ?_
    rw [Broadcast.step]
    split <;> rfl
  | prune =>
    rw [Broadcast.step] at hgone
    split at hgone
    · rw [Live.subscriber?_prune h.live] at hgone
      split at hgone
      · rw [hs] at hgone
        cases hgone
      · next hr => exact leaves_of_prune h.live hs hr
    · rw [hs] at hgone
      cases hgone
  | publish => exact h.leaves_of_publish hs hgone
  | register k =>
    have hgone : (b.live.register k).2.subscriber? key id = none := hgone
    rw [Live.subscriber?_register h.live] at hgone
    split at hgone
    · cases hgone
    · split at hgone
      · rw [hs] at hgone
        cases hgone
      · next hr => exact leaves_of_prune h.live hs hr
  | read i faults =>
    refine leaves_of_same hs hgone ?_
    rw [Broadcast.step]
    split <;> rfl
  | finish i => exact h.leaves_of_finish hs hgone
  | unsubscribe k i =>
    have hgone : (b.live.unsubscribe k i).2.subscriber? key id = none := hgone
    rw [Live.subscriber?_unsubscribe] at hgone
    split at hgone
    · next hown => exact .unsubscribed (by rw [hown.2])
    · rw [hs] at hgone
      cases hgone
  | receive i =>
    refine leaves_of_same hs hgone ?_
    rw [Broadcast.step]
    split
    · rcases b.live.receive_cases i with hreceive | ⟨_, _, _, hreceive⟩
      · rw [hreceive]
        rfl
      · rw [hreceive]
        rfl
    · rfl
  | drop i =>
    refine leaves_of_same hs hgone ?_
    rw [Broadcast.step]
    split <;> rfl

/-! ### What a subscription is sent -/

/-- What a served subscription was sent is a part of one account of its order. -/
theorem account_of_served {key : OrderKey} {written passed : List Event}
    {member : Option Subscriber} {box : Mailbox} {sub : Subscription}
    (h : sub.Served key written passed member box) :
    ∃ first later, written = first ++ later ∧ sub.stage.seen ≤ first.length ∧
      sub.received ++ box.items <+: account key first later ∧
      ((∃ seen, sub.stage = .finished seen) → passed = written → member.isSome →
        box.receiving → sub.received ++ box.items = account key first later) := by
  cases h with
  | registered empty =>
    refine ⟨written, [], (List.append_nil _).symm, Nat.zero_le _, ?_, ?_⟩
    · rw [empty]
      exact List.nil_prefix
    · rintro ⟨_, hstage⟩
      cases hstage
  | read empty le =>
    refine ⟨written, [], (List.append_nil _).symm, le.length_le, ?_, ?_⟩
    · rw [empty]
      exact List.nil_prefix
    · rintro ⟨_, hstage⟩
      cases hstage
  | @finished _ _ first later split known sent follows =>
    refine ⟨first, later, split, known, sent, fun _ hpassed hmember hreceiving => ?_⟩
    obtain ⟨s, hs⟩ := Option.isSome_iff_exists.mp hmember
    obtain ⟨_, mid, ahead, rfl, _, hplace, hitems⟩ := follows s hs
    have hahead : ahead = [] := by
      rw [hpassed, split] at hplace
      rcases hplace with ⟨rfl, hle⟩ | hall
      · have hlen := hle.length_le
        simp only [List.nil_append, List.length_append] at hlen
        exact List.eq_nil_of_length_eq_zero (by omega)
      · simpa using hall
    rw [hitems hreceiving, hahead, List.append_nil]

/-- Whatever the order of the steps, a subscription is sent a part of one account of its order: a
snapshot of its first events, at least those that were durable when the history was read, and then a
transition for each later event that makes one. It is sent the whole account as long as its subscriber
is registered and its receiver there, and nothing after a terminal state. A subscriber leaves
the registry for a reason only. -/
theorem sends_account (buffer : Nat) (blocks : List BlockEvents) (actions : List Action) {id : Nat}
    {sub : Subscription} (hsub : ((start buffer blocks).run actions).subscriptions id = some sub)
    (ho : (keptOf ((start buffer blocks).run actions).blocks sub.key).Pairwise
      fun a b => a.position.before b.position) :
    let b := (start buffer blocks).run actions
    (∃ first later, keptOf b.blocks sub.key = first ++ later ∧ sub.stage.seen ≤ first.length ∧
      ((replay sub.key first).transition?.isSome ↔ first ≠ []) ∧
      b.items id <+: account sub.key first later ∧
      ((∃ seen, sub.stage = .finished seen) → b.publisher = .idle → b.live.isRegistered id →
        b.live.mailboxes.isReceiving id → b.items id = account sub.key first later)) ∧
    ((b.items id).Pairwise fun item _ => item.current.isTerminal = false) ∧
    ∀ a, b.live.isRegistered id → ¬ (b.step a).live.isRegistered id → b.Leaves a id := by
  obtain ⟨passed, h⟩ := (sound_start buffer blocks).run actions
  generalize (start buffer blocks).run actions = b at hsub ho h
  intro b
  have ho := inOrder_keptOf ho
  obtain ⟨box, hbox, hserved⟩ := h.served id sub hsub
  obtain ⟨first, later, hwritten, hseen, hsent, hwhole⟩ := account_of_served (hserved ho)
  have hitems : b.items id = sub.received ++ box.items := by
    rw [items, hsub, hbox]
    rfl
  refine ⟨⟨first, later, hwritten, hseen, ?_, hitems ▸ hsent, ?_⟩, ?_, ?_⟩
  · constructor
    · rintro hsome rfl
      cases hsome
    · exact (ho.of_le (hwritten ▸ List.prefix_append _ _)).isSome_transition?_replay
  · intro hfinished hidle hregistered hreceiving
    obtain ⟨key, s, hs⟩ := (Live.isRegistered_iff h.live id).mp hregistered
    obtain ⟨sub', hsub', rfl⟩ := h.known key id s hs
    obtain rfl := Option.some.inj (hsub.symm.trans hsub')
    have hpassed : about passed sub.key = keptOf b.blocks sub.key := by
      rw [h.split, hidle]
      exact (List.append_nil _).symm
    rw [Mailboxes.isReceiving_of_find? hbox] at hreceiving
    exact hitems.trans (hwhole hfinished hpassed (by rw [hs]; rfl) hreceiving)
  · rw [hitems]
    exact (pairwise_changes _ _).sublist hsent.sublist
  · intro a hregistered hgone
    obtain ⟨key, s, hs⟩ := (Live.isRegistered_iff h.live id).mp hregistered
    obtain ⟨_, h'⟩ := h.step a
    refine h.leaves hs ?_
    rw [← Option.not_isSome_iff_eq_none]
    intro hsome
    obtain ⟨s', hs'⟩ := Option.isSome_iff_exists.mp hsome
    exact hgone ((Live.isRegistered_iff h'.live id).mpr ⟨key, s', hs'⟩)

def sampleOrder : OrderKey := ⟨⟨List.replicate 32 1, rfl⟩, 1⟩

/-- Something happens to the order in a slot. -/
def sampleBlock (slot : UInt64) (kind : EventKind) : BlockEvents :=
  ⟨slot, "", .epoch, [⟨⟨sampleOrder, ⟨slot, 0, 0⟩, "", .epoch⟩, kind⟩], [], 0⟩

def samplePlaced : EventKind := .newOrder ⟨.bid, 1, 1, .limit, 1, "", []⟩ sampleOrder.market

/-- The order is placed while it is subscribed to, and then executed. -/
def sampleActions : List Action :=
  [.land [sampleBlock 1 samplePlaced], .register sampleOrder, .look, .read 1 [], .prune, .publish,
    .finish 1, .receive 1, .publish, .land [sampleBlock 2 .orderExecuted], .look, .prune, .publish]

def sampleSubscription : Subscription :=
  ⟨sampleOrder, .finished 1, [⟨sampleOrder, .unknown, .approved, .newOrder,
    some sampleOrder.market, some ⟨.bid, 1, 1, .limit, 1, "", []⟩, none⟩]⟩

/-- The event that is both read and published is told once. -/
theorem sends_account_of_race :
    ((start 1 []).run sampleActions).subscriptions 1 = some sampleSubscription ∧
      (((start 1 []).run sampleActions).items 1).length = 2 ∧
      ∃ first later, keptOf ((start 1 []).run sampleActions).blocks sampleOrder = first ++ later ∧
        1 ≤ first.length ∧
        ((start 1 []).run sampleActions).items 1 <+: account sampleOrder first later := by
  have hsub : ((start 1 []).run sampleActions).subscriptions 1 = some sampleSubscription := by
    decide +kernel
  have ho : (keptOf ((start 1 []).run sampleActions).blocks sampleOrder).Pairwise
      fun a b => a.position.before b.position := by
    decide +kernel
  obtain ⟨⟨first, later, hwritten, hseen, _, hitems, _⟩, _⟩ :=
    sends_account 1 [] sampleActions hsub ho
  exact ⟨hsub, by decide +kernel, first, later, hwritten, hseen, hitems⟩

end Broadcast

end DexIndex
