import DexIndex.Proofs.Extraction.Faults

/-!
# Orders that are placed

The number of an order is learned in two ways: from the counter of the request queue at the
instruction that places the order, and from the identifiers that the entries of the event queue carry,
where bids have it complemented. Both ways lead to one number, so that an instruction files the order
that it places and the fills and the removal of that order under one key (`Placement`,
`Block.placements_filed`).
-/

namespace DexIndex
open Extraction

namespace OrderId

theorem toNat_make (price : UInt64) (side : Side) (n : UInt64) :
    (make price side n).toNat = price.toNat * 2 ^ 64 +
      match side with
      | .bid => 2 ^ 64 - 1 - n.toNat
      | .ask => n.toNat := by
  cases side with
  | bid =>
    show _ + (~~~n).toNat = _
    rw [UInt64.toNat_not]
    rfl
  | ask => rfl

theorem toNat_ofNat {n : Nat} (h : n < 2 ^ 128) : (ofNat n).toNat = n := by
  have hprice : n / UInt64.size < UInt64.size := Nat.div_lt_of_lt_mul h
  show (UInt64.ofNat (n / UInt64.size)).toNat * UInt64.size + (UInt64.ofNat n).toNat = n
  rw [UInt64.toNat_ofNat_of_lt' hprice, UInt64.toNat_ofNat']
  exact Nat.div_add_mod' n UInt64.size

theorem ofNat_toNat (id : OrderId) : ofNat id.toNat = id := by
  have hlow : id.low.toNat < UInt64.size := id.low.toNat_lt_size
  have hprice : (id.price.toNat * UInt64.size + id.low.toNat) / UInt64.size = id.price.toNat := by
    rw [Nat.mul_comm, Nat.mul_add_div (by decide), Nat.div_eq_of_lt hlow, Nat.add_zero]
  obtain ⟨price, low⟩ := id
  simp only [ofNat, toNat, hprice, OrderId.mk.injEq]
  refine ⟨UInt64.ofNat_toNat, UInt64.toNat_inj.mp ?_⟩
  rw [UInt64.toNat_ofNat']
  exact (Nat.mul_add_mod_self_right ..).trans (Nat.mod_eq_of_lt hlow)

/-- Another number gives other low bits, whatever the price. -/
theorem seq_eq_iff {id : OrderId} {side : Side} {n : UInt64} (price : UInt64) :
    id.seq side = n ↔ id.low = (make price side n).low := by
  cases side with
  | bid =>
    show ~~~id.low = n ↔ id.low = ~~~n
    constructor
    · rintro rfl
      exact UInt64.not_not.symm
    · intro h
      rw [h, UInt64.not_not]
  | ask => exact Iff.rfl

/-- Identifiers of 128 bits are made of a price and, on each side, a number. -/
structure Composed : Prop where
  seq_make : ∀ price side n, (make price side n).seq side = n
  price_make : ∀ price side n, (make price side n).price = price
  toNat_make : ∀ price side n, (make price side n).toNat = price.toNat * 2 ^ 64 +
    match side with
    | .bid => 2 ^ 64 - 1 - n.toNat
    | .ask => n.toNat
  ofNat_toNat : ∀ id, ofNat id.toNat = id
  make_ofNat : ∀ n < 2 ^ 128, ∀ side,
    (make (ofNat n).price side ((ofNat n).seq side)).toNat = n

theorem composed : Composed := by
  refine ⟨fun price side n => ?_, fun price side n => ?_, toNat_make,
    ofNat_toNat, fun n hn side => ?_⟩
  · exact seq_make price side n
  · exact price_make price side n
  · rw [make_price_seq, toNat_ofNat hn]

end OrderId

theorem EventEntry.side_eq_iff {e : EventEntry} {side : Side} :
    e.side = side ↔ (e.flags &&& 0x04 ≠ 0 ↔ side = .bid) := by
  by_cases h : e.flags &&& 0x04 = 0 <;> cases side <;> simp [EventEntry.side, h]

namespace Extraction

/-- The instruction moves the counter of its request queue on from `n`. -/
def Advances (trx : Transaction) (inv : Invocation) (i : Instruction) (n : UInt64) : Prop :=
  ∃ (change : AccountChange) (prev new : RequestQueue), Writes trx inv i .requestQueue change ∧
    Queue.decode change.before = .ok prev ∧ Queue.decode change.after = .ok new ∧
      prev.header.seq = n ∧ n < new.header.seq

inductive AppendsRequests (trx : Transaction) (inv : Invocation) (i : Instruction) :
    List RequestEntry → Prop
  | none : (∀ change, ¬Writes trx inv i .requestQueue change) → AppendsRequests trx inv i []
  | some {change : AccountChange} {prev : Option RequestQueue} {new : RequestQueue} :
      Writes trx inv i .requestQueue change → change.images RequestEntry = .ok (prev, new) →
      AppendsRequests trx inv i (RequestQueue.appended prev new)

/-- The entries that an instruction appends to its event queue. -/
inductive AppendsEntries (trx : Transaction) (inv : Invocation) (i : Instruction) :
    List EventEntry → Prop
  | none : (∀ change, ¬Writes trx inv i .eventQueue change) → AppendsEntries trx inv i []
  | some {change : AccountChange} {entries : List EventEntry} :
      Writes trx inv i .eventQueue change →
      EventQueue.appendedBetween change.before change.after = .ok entries →
      AppendsEntries trx inv i entries

/-- The new order of an instruction, under the number `n`. -/
def placed (site : Site) (market owner : PublicKey) (p : NewOrderParams) (n : UInt64) : Event :=
  { ref := site.eventRef market n
    kind := .newOrder
      { side := p.side, price := p.limitPrice, quantity := p.maxCoinQty,
        orderType := p.orderType, clientOrderId := p.clientOrderId, trxHash := site.trx.id,
        fills := [] } owner }

/-- The events of what an instruction that places an order appends to its queues. -/
def appendedEvents (site : Site) (accounts : Accounts) (requests : List RequestEntry)
    (entries : List EventEntry) : List Event :=
  requests.filterMap (requestEvent? site accounts) ++
    entries.filterMap (entryEvent? site accounts.market.key .newOrder)

/-- The events `own` of an instruction that places an order. If the counter moved on from `n`, the
order comes first, under `n`, and entries of its side are filed under it just if their identifiers
have the low bits of its own. -/
structure Placement (site : Site) (inv : Invocation) (p : NewOrderParams) (accounts : Accounts)
    (owner : PublicKey) (requests : List RequestEntry) (entries : List EventEntry)
    (own : List Event) : Prop where
  counted : ∀ n, Advances site.trx inv (.newOrderV3 p) n →
    own = placed site accounts.market.key owner p n :: appendedEvents site accounts requests entries
  uncounted : (∀ n, ¬Advances site.trx inv (.newOrderV3 p) n) →
    own = appendedEvents site accounts requests entries
  filed : ∀ n, Advances site.trx inv (.newOrderV3 p) n → ∀ e ∈ entries,
    e.isFill = true ∨ e.isOut = true → (e.flags &&& 0x04 ≠ 0 ↔ p.side = .bid) →
    ∃ event ∈ own, entryEvent? site accounts.market.key .newOrder e = some event ∧
      (event.order = (placed site accounts.market.key owner p n).order ↔
        e.orderId.low = (OrderId.make p.limitPrice p.side n).low)
  fills : ∀ n, Advances site.trx inv (.newOrderV3 p) n → ∀ e ∈ entries, e.isFill = true →
    (e.flags &&& 0x04 ≠ 0 ↔ p.side = .bid) → e.orderId = OrderId.make p.limitPrice p.side n →
    ∃ account fill, fill.side = p.side ∧ fill.price = p.limitPrice ∧
      ⟨site.eventRef accounts.market.key n, .fill account fill⟩ ∈ own

variable {site : Site} {inv : Invocation} {accounts : Accounts} {i : Instruction}
  {p : NewOrderParams} {owner : AccountMeta}

theorem counterOrder_of_lt {prev new : RequestQueue} (howner : accounts.owner = some owner)
    (h : prev.header.seq < new.header.seq) :
    counterOrder site accounts p (some prev) new =
      [placed site accounts.market.key owner.key p prev.header.seq] := by
  unfold counterOrder
  rw [howner]
  exact if_pos h

theorem counterOrder_of_not_lt {prev : Option RequestQueue} {new : RequestQueue}
    (h : ∀ q, prev = some q → ¬q.header.seq < new.header.seq) :
    counterOrder site accounts p prev new = [] := by
  unfold counterOrder
  split
  · next q _ _ => exact if_neg (h q rfl)
  · rfl

theorem exists_of_fromRequests (ha : Accounts.resolve? site.trx inv i.accounts = some accounts)
    {events : List Event} (h : fromRequests site inv accounts i = .ok events) :
    (∀ change, ¬Writes site.trx inv i .requestQueue change) ∧ events = [] ∨
      ∃ change prev new, Writes site.trx inv i .requestQueue change ∧
        change.images RequestEntry = .ok (prev, new) ∧
          events = requestsBetween site accounts i prev new := by
  rw [fromRequests] at h
  cases hchange : queueChange? inv accounts.requestQueue with
  | none =>
    rw [hchange] at h
    exact .inl ⟨(queueChange?_eq_none_iff ha).mp hchange, (Except.ok.inj h).symm⟩
  | some change =>
    rw [hchange] at h
    have h : requestEvents site accounts i change = .ok events := h
    rw [requestEvents_eq] at h
    cases himages : change.images RequestEntry with
    | error e =>
      rw [himages] at h
      cases h
    | ok images =>
      rw [himages] at h
      exact .inr ⟨change, images.1, images.2, (queueChange?_eq_some_iff ha).mp hchange, himages,
        (Except.ok.inj h).symm⟩

theorem exists_of_fromEvents (ha : Accounts.resolve? site.trx inv i.accounts = some accounts)
    {events : List Event} (h : fromEvents site inv accounts i = .ok events) :
    ∃ entries, AppendsEntries site.trx inv i entries ∧
      events = entries.filterMap (entryEvent? site accounts.market.key i.purpose) := by
  rw [fromEvents] at h
  cases hchange : queueChange? inv accounts.eventQueue with
  | none =>
    rw [hchange] at h
    exact ⟨[], .none ((queueChange?_eq_none_iff ha).mp hchange), (Except.ok.inj h).symm⟩
  | some change =>
    rw [hchange] at h
    have h : queueEvents site accounts i change = .ok events := h
    rw [EventQueue.queueEvents_eq] at h
    cases hentries : EventQueue.appendedBetween change.before change.after with
    | error e =>
      rw [hentries] at h
      cases h
    | ok entries =>
      rw [hentries] at h
      exact ⟨entries, .some ((queueChange?_eq_some_iff ha).mp hchange) hentries,
        (Except.ok.inj h).symm⟩

/-- The counter tells of an order just if it moved on, and then under the number that it had. -/
theorem counted_of_fromRequests
    (ha : Accounts.resolve? site.trx inv (Instruction.newOrderV3 p).accounts = some accounts)
    (howner : accounts.owner = some owner) {events : List Event}
    (h : fromRequests site inv accounts (.newOrderV3 p) = .ok events) :
    ∃ requests, AppendsRequests site.trx inv (.newOrderV3 p) requests ∧
      (∀ n, Advances site.trx inv (.newOrderV3 p) n →
        events = placed site accounts.market.key owner.key p n ::
          requests.filterMap (requestEvent? site accounts)) ∧
      ((∀ n, ¬Advances site.trx inv (.newOrderV3 p) n) →
        events = requests.filterMap (requestEvent? site accounts)) := by
  rcases exists_of_fromRequests ha h with ⟨hnone, rfl⟩ | ⟨change, prev, new, hwrites, himages, rfl⟩
  · refine ⟨[], .none hnone, fun n hn => ?_, fun _ => rfl⟩
    obtain ⟨change, _, _, hwrites, _⟩ := hn
    exact absurd hwrites (hnone change)
  · obtain ⟨hbefore, hafter⟩ := AccountChange.images_eq_ok_iff.mp himages
    refine ⟨_, .some hwrites himages, fun n hn => ?_, fun hnone => ?_⟩
    · obtain ⟨change', q, new', hwrites', hq, hnew', rfl, hlt⟩ := hn
      obtain rfl := Writes.unique ha hwrites hwrites'
      obtain rfl : new = new' := Except.ok.inj (hafter.symm.trans hnew')
      obtain rfl : prev = some q :=
        Except.ok.inj (hbefore.symm.trans (Queue.decodeOptional_eq_ok_some_iff.mpr hq))
      simp only [requestsBetween, counterOrder_of_lt howner hlt, List.singleton_append]
    · have hcounter : counterOrder site accounts p prev new = [] := by
        refine counterOrder_of_not_lt fun q hq hlt => hnone q.header.seq ?_
        subst hq
        exact ⟨change, q, new, hwrites, Queue.decodeOptional_eq_ok_some_iff.mp hbefore, hafter, rfl,
          hlt⟩
      simp only [requestsBetween, hcounter, List.nil_append]

section Entries
variable {market : PublicKey} {purpose : Purpose} {e : EventEntry} {side : Side} {n : UInt64}

theorem exists_entryEvent (h : e.isFill = true ∨ e.isOut = true) :
    ∃ kind, entryEvent? site market purpose e = some ⟨site.eventRef market e.seq, kind⟩ := by
  by_cases hfill : e.isFill = true
  · exact ⟨_, if_pos hfill⟩
  · have hout : e.isOut = true := h.resolve_left hfill
    exact ⟨_, (if_neg hfill).trans (if_pos hout)⟩

theorem order_entryEvent_iff (price : UInt64) (hside : e.side = side) {kind : EventKind} :
    (⟨site.eventRef market e.seq, kind⟩ : Event).order = ⟨market, n⟩ ↔
      e.orderId.low = (OrderId.make price side n).low := by
  -- the number is read on the side of the entry, and the low bits are made on that of the order
  rw [← OrderId.seq_eq_iff, ← hside]
  exact ⟨fun horder => congrArg OrderKey.seq horder, fun hseq => congrArg (OrderKey.mk _) hseq⟩

theorem exists_fillEvent {price : UInt64} (hfill : e.isFill = true) (hside : e.side = side)
    (hid : e.orderId = OrderId.make price side n) :
    ∃ fill, fill.side = side ∧ fill.price = price ∧
      entryEvent? site market purpose e =
        some ⟨site.eventRef market n, .fill e.owner fill⟩ := by
  have hseq : e.seq = n := by rw [EventEntry.seq, hid, hside, OrderId.seq_make]
  have hprice : e.price = price := by rw [EventEntry.price, hid, OrderId.price_make]
  rw [← hseq]
  exact ⟨_, hside, hprice, if_pos hfill⟩

end Entries

theorem exists_owner
    (ha : Accounts.resolve? site.trx inv (Instruction.newOrderV3 p).accounts = some accounts) :
    ∃ owner, accounts.owner = some owner := by
  obtain ⟨_, _, _, _, howner⟩ := resolve?_eq_some_iff.mp ha
  obtain ⟨owner, _, howner⟩ := Option.map_eq_some_iff.mp howner
  exact ⟨owner, howner.symm⟩

theorem placement_of_harvest {h : Harvest}
    (hi : Instruction.decode inv.data = .ok (.newOrderV3 p))
    (ha : Accounts.resolve? site.trx inv (Instruction.newOrderV3 p).accounts = some accounts)
    (howner : accounts.owner = some owner) (hh : harvest site inv = .ok h) :
    ∃ requests entries, AppendsRequests site.trx inv (.newOrderV3 p) requests ∧
      AppendsEntries site.trx inv (.newOrderV3 p) entries ∧
      Placement site inv p accounts owner.key requests entries h.events := by
  rw [harvest_eq hi ha] at hh
  obtain ⟨counted, hcounter, hh⟩ := Results.bind_eq_ok.mp hh
  obtain ⟨taken, htaken, hh⟩ := Results.bind_eq_ok.mp hh
  cases hh
  obtain ⟨requests, hrequests, hcounted, huncounted⟩ := counted_of_fromRequests ha howner hcounter
  obtain ⟨entries, hentries, rfl⟩ := exists_of_fromEvents ha htaken
  refine ⟨requests, entries, hrequests, hentries, ?_⟩
  have hmem : ∀ e ∈ entries, ∀ event,
      entryEvent? site accounts.market.key .newOrder e = some event →
      event ∈ counted ++ entries.filterMap (entryEvent? site accounts.market.key .newOrder) :=
    fun e he event hevent => List.mem_append_right _ (List.mem_filterMap.mpr ⟨e, he, hevent⟩)
  refine ⟨fun n hn => ?_, fun hnone => ?_, fun n _ e he hkind hside => ?_,
    fun n _ e he hfill hside hid => ?_⟩
  · rw [hcounted n hn]
    rfl
  · rw [huncounted hnone]
    rfl
  · obtain ⟨kind, hevent⟩ := exists_entryEvent hkind
    refine ⟨_, hmem e he _ hevent, hevent, ?_⟩
    exact order_entryEvent_iff p.limitPrice (EventEntry.side_eq_iff.mpr hside)
  · obtain ⟨fill, hfillSide, hfillPrice, hevent⟩ :=
      exists_fillEvent hfill (EventEntry.side_eq_iff.mpr hside) hid
    exact ⟨e.owner, fill, hfillSide, hfillPrice, hmem e he _ hevent⟩

end Extraction

namespace Block

/-- Identifiers give back what they are made of, so that what becomes of an order is filed under the
number that the counter had when the order was placed. -/
theorem placements_filed :
    OrderId.Composed ∧ ∀ (programs : List PublicKey) (b : Block) (x : BlockEvents)
      (front back : List (Site × Invocation)) (site : Site) (inv : Invocation) (p : NewOrderParams),
      b.extract programs = .ok x → executed programs b = front ++ (site, inv) :: back →
      Supported site.trx inv (.newOrderV3 p) →
      ∃ accounts owner requests entries own,
        Accounts.resolve? site.trx inv (Instruction.newOrderV3 p).accounts = some accounts ∧
        accounts.owner = some owner ∧
        AppendsRequests site.trx inv (.newOrderV3 p) requests ∧
        AppendsEntries site.trx inv (.newOrderV3 p) entries ∧
        x.events = (front.flatMap fun q => Harvest.eventsOf (harvest q.1 q.2)) ++ own ++
          (back.flatMap fun q => Harvest.eventsOf (harvest q.1 q.2)) ∧
        Placement site inv p accounts owner.key requests entries own := by
  refine ⟨OrderId.composed, fun programs b x front back site inv p hx hsplit hi => ?_⟩
  obtain ⟨hdecode, accounts, ha⟩ := supported_iff.mp hi
  obtain ⟨owner, howner⟩ := exists_owner ha
  have hmem : (site, inv) ∈ executed programs b := by
    rw [hsplit]
    exact List.mem_append_right _ List.mem_cons_self
  obtain ⟨h, hh⟩ : ∃ h, harvest site inv = .ok h := exists_harvest_of_extract hx hmem
  obtain ⟨requests, entries, hrequests, hentries, hplacement⟩ :=
    placement_of_harvest hdecode ha howner hh
  refine ⟨accounts, owner, requests, entries, h.events, ha, howner, hrequests, hentries, ?_,
    hplacement⟩
  rw [events_of_extract hx, hsplit, List.flatMap_append, List.flatMap_cons, hh, List.append_assoc]
  rfl

end Block

namespace Placing

def order : NewOrderParams := ⟨.bid, 5, 3, .limit, 0⟩

/-- A fill of the order, and its removal. -/
def entries : List EventEntry :=
  [⟨0x05, 0, 0, 3, 15, 0, .make 5 .bid 7, Matching.key 2, 0⟩,
    ⟨0x06, 0, 0, 0, 0, 0, .make 5 .bid 7, Matching.key 2, 0⟩]

def requestQueue (n : UInt64) : RequestQueue := ⟨⟨0x09, 0, 0, n⟩, 0, []⟩

def eventQueue (entries : List EventEntry) : EventQueue :=
  ⟨⟨0x11, 0, UInt64.ofNat entries.length, UInt64.ofNat entries.length⟩, 2, entries⟩

def invocation : Invocation :=
  { program := 0, accounts := [1, 2, 3, 4, 0, 0, 0, 5], data := (Instruction.newOrderV3 order).encode
    changes := [⟨Matching.key 3, (requestQueue 7).encode, (requestQueue 8).encode⟩,
      ⟨Matching.key 4, (eventQueue []).encode, (eventQueue entries).encode⟩] }

def transaction : Transaction :=
  { id := "", index := 4, failed := false, header := ⟨0, 0, 0⟩
    keys := [0, 1, 2, 3, 4, 5].map Matching.key, invocations := [invocation] }

def block : Block :=
  { number := 10, id := "", previousId := "", timestamp := .epoch, transactions := [transaction] }

def site : Site := block.site transaction 0

theorem supported : Supported site.trx invocation (.newOrderV3 order) :=
  supported_iff.mpr ⟨by decide +kernel, Option.isSome_iff_exists.mp (by decide +kernel)⟩

theorem advances : Advances site.trx invocation (.newOrderV3 order) 7 := by
  refine ⟨⟨Matching.key 3, (requestQueue 7).encode, (requestQueue 8).encode⟩, requestQueue 7,
    requestQueue 8, ⟨Matching.key 3, ⟨2, 3, rfl, rfl, rfl, rfl⟩, rfl⟩, ?_, ?_, rfl, by decide⟩
  · exact Queue.decode_encode ⟨by decide, rfl, .inl ⟨rfl, rfl⟩⟩
  · exact Queue.decode_encode ⟨by decide, rfl, .inl ⟨rfl, rfl⟩⟩

/-- A bid is placed, filled and removed at once, all under the number 7. -/
theorem placements_filed_of_bid :
    ∃ x accounts owner requests entries,
      block.extract [Matching.key 0] = .ok x ∧ Supported site.trx invocation (.newOrderV3 order) ∧
      Advances site.trx invocation (.newOrderV3 order) 7 ∧
      x.events = placed site accounts.market.key owner order 7 ::
        appendedEvents site accounts requests entries ∧
      x.events.map (·.order) = List.replicate 3 ⟨Matching.key 1, 7⟩ := by
  have horders : (block.extract [Matching.key 0]).map (·.events.map (·.order)) =
      .ok (List.replicate 3 ⟨Matching.key 1, 7⟩) := by
    decide +kernel
  cases hx : block.extract [Matching.key 0] with
  | error e =>
    rw [hx] at horders
    cases horders
  | ok x =>
    rw [hx] at horders
    obtain ⟨accounts, owner, requests, entries, own, _, _, _, _, hevents, hplacement⟩ :=
      Block.placements_filed.2 [Matching.key 0] block x [] [] site invocation order hx rfl supported
    refine ⟨x, accounts, owner.key, requests, entries, rfl, supported, advances, ?_,
      Except.ok.inj horders⟩
    rw [← hplacement.counted 7 advances, hevents, List.flatMap_nil, List.nil_append,
      List.append_nil]

end Placing

end DexIndex
