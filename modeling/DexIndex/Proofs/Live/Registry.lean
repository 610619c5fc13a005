import DexIndex.Proofs.Lists
import DexIndex.Proofs.Live.Mailboxes

/-!
# The registry

A registry is sound if no order, and no number among the subscribers of an order, stands in it twice
and every subscriber has a mailbox (`Live.Sound`). Each operation keeps it sound, and one lemma for each
says what it does to the subscriber with a given number and to its mailbox.
-/

namespace DexIndex.Live
variable {l : Live} {key : OrderKey} {id : Nat}

/-- The subscriber of an order with a number. -/
def subscriber? (l : Live) (key : OrderKey) (id : Nat) : Option Subscriber :=
  (l.table key).find? (·.id == id)

structure Sound (l : Live) : Prop where
  keys : (l.tables.map (·.1)).Nodup
  ids : ∀ key, ((l.table key).map (·.id)).Nodup
  boxes : ∀ key, ∀ s ∈ l.table key, (l.mailboxes.find? s.id).isSome
  fresh : ∀ id, (l.mailboxes.find? id).isSome → id < l.nextId

theorem mem_table_of_subscriber? {s : Subscriber} (h : l.subscriber? key id = some s) :
    s ∈ l.table key ∧ s.id = id := by
  refine ⟨List.mem_of_find?_eq_some h, ?_⟩
  have hid := List.find?_some h
  simpa using hid

theorem Sound.box_of_subscriber? (hl : l.Sound) {s : Subscriber}
    (h : l.subscriber? key id = some s) : ∃ box, l.mailboxes.find? id = some box := by
  obtain ⟨hmem, rfl⟩ := mem_table_of_subscriber? h
  exact Option.isSome_iff_exists.mp (hl.boxes key s hmem)

theorem isRegistered_iff (hl : l.Sound) (id : Nat) :
    l.isRegistered id ↔ ∃ key s, l.subscriber? key id = some s := by
  rw [isRegistered, List.any_eq_true]
  constructor
  · rintro ⟨⟨key, subs⟩, hmem, hany⟩
    have htable : l.table key = subs := by
      rw [table, Lists.lookup_of_mem hl.keys hmem]
      rfl
    refine ⟨key, ?_⟩
    rw [subscriber?, htable]
    exact Option.isSome_iff_exists.mp (List.find?_isSome.mpr (List.any_eq_true.mp hany))
  · rintro ⟨key, s, hs⟩
    obtain ⟨hmem, hid⟩ := mem_table_of_subscriber? hs
    cases hlookup : l.tables.lookup key with
    | none =>
      rw [table, hlookup] at hmem
      cases hmem
    | some subs =>
      rw [table, hlookup] at hmem
      refine ⟨(key, subs), Lists.mem_of_lookup hlookup, List.any_eq_true.mpr ⟨s, hmem, ?_⟩⟩
      simpa using hid

/-! ### Tables -/

theorem table_setTable (l : Live) (key : OrderKey) (subs : List Subscriber) (k : OrderKey) :
    (l.setTable key subs).table k = if k = key then subs else l.table k := by
  have hothers : (l.tables.filter (·.1 != key)).lookup k =
      if k = key then none else l.tables.lookup k := by
    induction l.tables with
    | nil => simp
    | cons t tables ih =>
      obtain ⟨k', subs'⟩ := t
      by_cases hk' : k' = key
      · subst hk'
        rw [List.filter_cons_of_neg (by simp), ih, List.lookup_cons]
        split
        · rfl
        · next hk => rw [beq_eq_false_iff_ne.mpr hk]
      · rw [List.filter_cons_of_pos (by simpa using hk'), List.lookup_cons, List.lookup_cons, ih]
        by_cases hk : k = k'
        · subst hk
          simp [hk']
        · rw [beq_eq_false_iff_ne.mpr hk]
  unfold table setTable
  dsimp only
  by_cases hempty : subs.isEmpty
  · obtain rfl : subs = [] := by simpa using hempty
    rw [if_pos hempty, hothers]
    split <;> rfl
  · rw [if_neg hempty, List.lookup_cons, hothers]
    by_cases hk : k = key
    · subst hk
      simp
    · rw [beq_eq_false_iff_ne.mpr hk, if_neg hk, if_neg hk]

theorem keys_setTable (h : (l.tables.map (·.1)).Nodup) (key : OrderKey) (subs : List Subscriber) :
    ((l.setTable key subs).tables.map (·.1)).Nodup := by
  have hothers : ((l.tables.filter (·.1 != key)).map (·.1)).Nodup :=
    h.sublist (List.filter_sublist.map _)
  unfold setTable
  dsimp only
  split
  · exact hothers
  · refine List.nodup_cons.mpr ⟨fun hmem => ?_, hothers⟩
    obtain ⟨t, ht, hkey⟩ := List.mem_map.mp hmem
    have hne := (List.mem_filter.mp ht).2
    simp [hkey] at hne

theorem Sound.setTable (hl : l.Sound) {subs : List Subscriber}
    (hids : (subs.map (·.id)).Nodup) (hboxes : ∀ s ∈ subs, (l.mailboxes.find? s.id).isSome) :
    (l.setTable key subs).Sound := by
  refine ⟨keys_setTable hl.keys key subs, fun k => ?_, fun k s hs => ?_, hl.fresh⟩
  · rw [table_setTable]
    split
    · exact hids
    · exact hl.ids k
  · rw [table_setTable] at hs
    split at hs
    · exact hboxes s hs
    · exact hl.boxes k s hs

theorem subscriber?_setTable (l : Live) (key : OrderKey) (subs : List Subscriber) (k : OrderKey)
    (id : Nat) : (l.setTable key subs).subscriber? k id =
      if k = key then subs.find? (·.id == id) else l.subscriber? k id := by
  unfold subscriber?
  rw [table_setTable]
  split <;> rfl

/-! ### Removing -/

theorem table_prune (hl : (l.tables.map (·.1)).Nodup) (key : OrderKey) :
    l.prune.table key = (l.table key).filter fun s => l.mailboxes.isReceiving s.id := by
  unfold table prune
  dsimp only
  revert hl
  induction l.tables with
  | nil => exact fun _ => rfl
  | cons t tables ih =>
    intro hl
    obtain ⟨k, subs⟩ := t
    obtain ⟨hk, htables⟩ := List.nodup_cons.mp hl
    have hih := ih htables
    rw [List.map_cons, List.filter_cons, List.lookup_cons]
    by_cases hkey : key = k
    · subst hkey
      rw [beq_self_eq_true]
      split
      · simp
      · next hempty =>
        -- the order stands nowhere else
        have hnone : tables.lookup key = none := by
          refine List.lookup_eq_none_iff.mpr fun t ht => ?_
          have hne : key ≠ t.1 := fun heq => hk (List.mem_map.mpr ⟨t, ht, heq.symm⟩)
          simpa using hne
        rw [hnone] at hih
        rw [hih]
        simpa using hempty
    · rw [beq_eq_false_iff_ne.mpr hkey]
      split
      · rw [List.lookup_cons, beq_eq_false_iff_ne.mpr hkey]
        exact hih
      · exact hih

/-- Pruning keeps the subscribers whose receiver is there. -/
theorem subscriber?_prune (hl : l.Sound) (key : OrderKey) (id : Nat) :
    l.prune.subscriber? key id =
      if l.mailboxes.isReceiving id then l.subscriber? key id else none := by
  unfold subscriber?
  rw [table_prune hl.keys, List.find?_filter]
  split
  · next hr =>
    congr 1
    funext s
    by_cases hs : s.id = id
    · simp [hs, hr]
    · simp [hs]
  · next hr =>
    refine List.find?_eq_none.mpr fun s _ hs => hr ?_
    rw [decide_eq_true_iff, beq_iff_eq] at hs
    exact hs.2 ▸ hs.1

theorem Sound.prune (hl : l.Sound) : l.prune.Sound := by
  refine ⟨?_, fun k => ?_, fun k s hs => ?_, hl.fresh⟩
  · have hkeys : (l.tables.map fun t => (t.1, t.2.filter fun s => l.mailboxes.isReceiving s.id)).map
        (·.1) = l.tables.map (·.1) := by
      rw [List.map_map]
      rfl
    refine List.Nodup.sublist (List.filter_sublist.map _) ?_
    exact hkeys ▸ hl.keys
  · rw [table_prune hl.keys]
    exact (hl.ids k).sublist (List.filter_sublist.map _)
  · rw [table_prune hl.keys] at hs
    exact hl.boxes k s (List.mem_filter.mp hs).1

theorem find?_others (subs : List Subscriber) (id i : Nat) :
    (subs.filter (·.id != id)).find? (·.id == i) =
      if i = id then none else subs.find? (·.id == i) := by
  rw [List.find?_filter]
  split
  · next hi =>
    refine List.find?_eq_none.mpr fun s _ hs => ?_
    rw [decide_eq_true_iff, bne_iff_ne, beq_iff_eq] at hs
    exact hs.1 (hs.2.trans hi)
  · next hi =>
    congr 1
    funext s
    by_cases hs : s.id = i
    · simp [hs, hi]
    · simp [hs]

theorem subscriber?_unsubscribe (l : Live) (k : OrderKey) (i : Nat) (key : OrderKey) (id : Nat) :
    (l.unsubscribe k i).2.subscriber? key id =
      if key = k ∧ id = i then none else l.subscriber? key id := by
  unfold unsubscribe
  rw [subscriber?_setTable, find?_others]
  by_cases hkey : key = k
  · subst hkey
    rw [if_pos rfl]
    by_cases hid : id = i
    · rw [if_pos hid, if_pos ⟨rfl, hid⟩]
    · rw [if_neg hid, if_neg fun h => hid h.2]
      rfl
  · rw [if_neg hkey, if_neg fun h => hkey h.1]

theorem Sound.unsubscribe (hl : l.Sound) (key : OrderKey) (id : Nat) :
    (l.unsubscribe key id).2.Sound := by
  refine hl.setTable ((hl.ids key).sublist (List.filter_sublist.map _)) fun s hs => ?_
  exact hl.boxes key s (List.mem_filter.mp hs).1

/-! ### Subscribing -/

theorem nextId_register (l : Live) (key : OrderKey) : (l.register key).2.nextId = l.nextId + 1 :=
  rfl

theorem Sound.find?_nextId (hl : l.Sound) : l.mailboxes.find? l.nextId = none := by
  rw [← Option.not_isSome_iff_eq_none]
  intro h
  exact absurd (hl.fresh _ h) (Nat.lt_irrefl _)

theorem find?_register (hl : l.Sound) (key : OrderKey) (id : Nat) :
    (l.register key).2.mailboxes.find? id =
      if id = l.nextId then some ⟨[], true⟩ else l.mailboxes.find? id :=
  Mailboxes.find?_concat hl.find?_nextId _ id

theorem Sound.subscriber?_nextId (hl : l.Sound) (key : OrderKey) :
    l.subscriber? key l.nextId = none := by
  rw [← Option.not_isSome_iff_eq_none]
  intro h
  obtain ⟨s, hs⟩ := Option.isSome_iff_exists.mp h
  obtain ⟨box, hbox⟩ := hl.box_of_subscriber? hs
  rw [hl.find?_nextId] at hbox
  cases hbox

theorem subscriber?_register (hl : l.Sound) (k : OrderKey) (key : OrderKey) (id : Nat) :
    (l.register k).2.subscriber? key id =
      if key = k ∧ id = l.nextId then some ⟨l.nextId, .start k, some []⟩
      else if l.mailboxes.isReceiving id then l.subscriber? key id else none := by
  have htable : (l.register k).2.subscriber? key id =
      (l.prune.setTable k (l.prune.table k ++ [⟨l.nextId, .start k, some []⟩])).subscriber? key id :=
    rfl
  have hprune := subscriber?_prune hl key id
  rw [htable, subscriber?_setTable]
  by_cases hkey : key = k
  · subst hkey
    rw [if_pos rfl, List.find?_append]
    change (l.prune.subscriber? key id).or _ = _
    rw [hprune]
    by_cases hid : id = l.nextId
    · subst hid
      rw [hl.subscriber?_nextId]
      simp
    · simp [hid, Ne.symm hid]
  · rw [if_neg hkey, if_neg fun h => hkey h.1, hprune]

theorem Sound.register (hl : l.Sound) (key : OrderKey) : (l.register key).2.Sound := by
  have hboxes (i : Nat) : ((l.mailboxes.find? i).isSome ∨ i = l.nextId) ↔
      ((l.register key).2.mailboxes.find? i).isSome := by
    rw [find?_register hl]
    by_cases hi : i = l.nextId
    · simp [hi]
    · simp [hi]
  have hold := hl.prune
  refine ⟨keys_setTable hold.keys _ _, fun k => ?_, fun k s hs => ?_, fun i hi => ?_⟩
  · have htable : (l.register key).2.table k =
        (l.prune.setTable key (l.prune.table key ++ [⟨l.nextId, .start key, some []⟩])).table k := rfl
    rw [htable, table_setTable]
    split
    · rw [List.map_append, List.map_singleton, List.nodup_append]
      refine ⟨hold.ids key, by simp, fun a ha b hb => ?_⟩
      obtain ⟨s, hs, rfl⟩ := List.mem_map.mp ha
      rw [List.mem_singleton.mp hb]
      exact Nat.ne_of_lt (hl.fresh _ (hold.boxes key s hs))
    · exact hold.ids k
  · have htable : (l.register key).2.table k =
        (l.prune.setTable key (l.prune.table key ++ [⟨l.nextId, .start key, some []⟩])).table k := rfl
    rw [htable, table_setTable] at hs
    refine (hboxes s.id).mp ?_
    split at hs
    · rcases List.mem_append.mp hs with hs | hs
      · exact .inl (hold.boxes key s hs)
      · rw [List.mem_singleton.mp hs]
        exact .inr rfl
    · exact .inl (hold.boxes k s hs)
  · rw [nextId_register]
    rcases (hboxes i).mpr hi with hi | hi
    · have hlt := hl.fresh i hi
      omega
    · omega

theorem Sound.withMailboxes (hl : l.Sound) {boxes : Mailboxes}
    (h : ∀ i, (boxes.find? i).isSome = (l.mailboxes.find? i).isSome) :
    Sound { l with mailboxes := boxes } := by
  refine ⟨hl.keys, hl.ids, fun k s hs => ?_, fun i hi => ?_⟩
  · show (boxes.find? s.id).isSome
    rw [h]
    exact hl.boxes k s hs
  · exact hl.fresh i ((h i).symm.trans hi)

theorem find?_replaced (s : Subscriber) (subs : List Subscriber) (stays : Bool) (i : Nat) :
    (if stays then s :: subs.filter (·.id != s.id) else subs.filter (·.id != s.id)).find?
        (·.id == i) =
      if i = s.id then (if stays then some s else none) else subs.find? (·.id == i) := by
  have hothers := find?_others subs s.id i
  cases stays with
  | false => exact hothers
  | true =>
    rw [if_pos rfl, if_pos rfl]
    by_cases hi : i = s.id
    · simp [hi]
    · rw [List.find?_cons_of_neg (by simpa using Ne.symm hi), hothers, if_neg hi, if_neg hi]

theorem nodup_replaced {s : Subscriber} {subs : List Subscriber} (h : (subs.map (·.id)).Nodup)
    (stays : Bool) :
    ((if stays then s :: subs.filter (·.id != s.id) else subs.filter (·.id != s.id)).map
      (·.id)).Nodup := by
  have hothers : ((subs.filter (·.id != s.id)).map (·.id)).Nodup :=
    h.sublist (List.filter_sublist.map _)
  cases stays with
  | false => exact hothers
  | true =>
    refine List.nodup_cons.mpr ⟨fun hmem => ?_, hothers⟩
    obtain ⟨t, ht, hid⟩ := List.mem_map.mp hmem
    have hne := (List.mem_filter.mp ht).2
    simp [hid] at hne

/-- What seeding does, if the subscriber is still there. -/
theorem seed_cases (hl : l.Sound) (key : OrderKey) (id : Nat) (history : OrderMachine) :
    (l.subscriber? key id = none ∧ l.seed key id history = l) ∨
      ∃ s box stays box', l.subscriber? key id = some s ∧ l.mailboxes.find? id = some box ∧
        (s.seed history).Delivered l.buffer box (stays, box') ∧
        (∀ i, (l.seed key id history).mailboxes.find? i =
          if i = id then some box' else l.mailboxes.find? i) ∧
        (∀ k i, (l.seed key id history).subscriber? k i =
          if k = key ∧ i = id then (if stays then some (s.seed history) else none)
          else l.subscriber? k i) ∧
        (l.seed key id history).Sound := by
  cases hs : l.subscriber? key id with
  | none =>
    refine .inl ⟨rfl, ?_⟩
    unfold subscriber? at hs
    rw [seed, hs]
  | some s =>
    obtain ⟨hmem, rfl⟩ := mem_table_of_subscriber? hs
    obtain ⟨box, hbox⟩ := hl.box_of_subscriber? hs
    have hbox' : l.mailboxes.find? (s.seed history).id = some box := hbox
    obtain ⟨box', hd, hframe⟩ := Subscriber.deliver_delivered hbox'
    generalize hr : (s.seed history).deliver l.buffer l.mailboxes = r at hd hframe
    obtain ⟨stays, boxes⟩ := r
    have hseed : l.seed key s.id history = setTable { l with mailboxes := boxes } key
        (if stays then s.seed history :: (l.table key).filter (·.id != (s.seed history).id)
        else (l.table key).filter (·.id != (s.seed history).id)) := by
      unfold subscriber? at hs
      rw [seed, hs]
      simp only [hr]
      rfl
    have hsound : Sound { l with mailboxes := boxes } := by
      refine hl.withMailboxes fun i => ?_
      rw [hframe]
      split
      · next hi => rw [hi]; exact (congrArg Option.isSome hbox).symm
      · rfl
    refine .inr ⟨s, box, stays, box', rfl, hbox, hd, ?_, fun k i => ?_, ?_⟩
    · rw [hseed]
      exact hframe
    · rw [hseed, subscriber?_setTable, find?_replaced]
      by_cases hk : k = key
      · subst hk
        simp only [true_and, if_true]
        rfl
      · rw [if_neg hk, if_neg fun h => hk h.1]
        rfl
    · rw [hseed]
      refine hsound.setTable (nodup_replaced (hl.ids key) stays) fun t ht => ?_
      have hold : ∀ t ∈ (l.table key).filter (·.id != (s.seed history).id),
          (boxes.find? t.id).isSome :=
        fun t ht => hsound.boxes key t (List.mem_filter.mp ht).1
      cases stays with
      | false => exact hold t ht
      | true =>
        rcases List.mem_cons.mp ht with rfl | ht
        · show (boxes.find? (s.seed history).id).isSome
          rw [hframe, if_pos rfl]
          rfl
        · exact hold t ht

/-! ### Publishing -/

theorem subscriber?_publishOne_of_ne {e : Event} (h : key ≠ e.order) (id : Nat) :
    (l.publishOne e).subscriber? key id = l.subscriber? key id := by
  unfold publishOne
  dsimp only
  rw [subscriber?_setTable, if_neg h]
  rfl

theorem publishOne_taken (hl : l.Sound) (e : Event) (id : Nat) :
    (l.subscriber? e.order id = none ∧ (l.publishOne e).subscriber? e.order id = none ∧
        (l.publishOne e).mailboxes.find? id = l.mailboxes.find? id) ∨
      ∃ s box box', l.subscriber? e.order id = some s ∧ l.mailboxes.find? id = some box ∧
        (l.publishOne e).mailboxes.find? id = some box' ∧
        s.Taken l.buffer e box ((l.publishOne e).subscriber? e.order id, box') := by
  have htaken := Subscriber.takeAll_taken l.buffer e (hl.ids e.order) (hl.boxes e.order) id
  have hafter : (l.publishOne e).subscriber? e.order id =
      (Subscriber.takeAll l.buffer e (l.table e.order) l.mailboxes).1.find? (·.id == id) := by
    unfold publishOne
    dsimp only
    rw [subscriber?_setTable, if_pos rfl]
  rw [hafter]
  exact htaken

theorem Sound.publishOne (hl : l.Sound) (e : Event) : (l.publishOne e).Sound := by
  obtain ⟨hids, hsome⟩ := Subscriber.ids_takeAll l.buffer e (l.table e.order) l.mailboxes
    (hl.boxes e.order)
  refine (hl.withMailboxes hsome).setTable ((hl.ids e.order).sublist hids) fun s hs => ?_
  obtain ⟨t, ht, hid⟩ := List.mem_map.mp (hids.subset (List.mem_map_of_mem hs))
  show ((Subscriber.takeAll l.buffer e (l.table e.order) l.mailboxes).2.find? s.id).isSome
  rw [hsome, ← hid]
  exact hl.boxes e.order t ht

/-! ### Receivers -/

theorem receive_cases (l : Live) (id : Nat) :
    l.receive id = (none, l) ∨ ∃ item rest, l.mailboxes.find? id = some ⟨item :: rest, true⟩ ∧
      l.receive id = (some item, { l with
        mailboxes := l.mailboxes.update id fun box => { box with items := rest } }) := by
  unfold receive
  split
  · next item rest h => exact .inr ⟨item, rest, h, rfl⟩
  · exact .inl rfl

theorem Sound.update (hl : l.Sound) (id : Nat) (f : Mailbox → Mailbox) :
    Sound { l with mailboxes := l.mailboxes.update id f } := by
  refine hl.withMailboxes fun i => ?_
  rw [Mailboxes.find?_update]
  split
  · exact Option.isSome_map
  · rfl

end DexIndex.Live
