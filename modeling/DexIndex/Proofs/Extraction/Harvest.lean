import DexIndex.Extraction
import DexIndex.Proofs.Key.Order
import DexIndex.Proofs.Results
import Mathlib.Data.List.Nodup

/-!
# What is extracted from a block

A block's events are the events of its instructions, one after another, and each is filed under the
place of its instruction (`at_of_mem_harvest`). Places tell instructions apart, so that the keys of
a block's events are as different as each instruction leaves them (`Block.pairwise_key_ne_iff`).
-/

namespace DexIndex

theorem OrderEventKey.ofEvent_eq_iff {a b : Event} (h : a.ref.place = b.ref.place) :
    ofEvent a = ofEvent b ↔ a.order = b.order ∧ a.type = b.type := by
  simp [ofEvent, Event.order, h]

namespace Extraction
variable {site : Site} {inv : Invocation} {h : Harvest} {accounts : Accounts} {i : Instruction}
  {change : AccountChange} {events : List Event} {e : Event}

/-- An event of the instruction at a site. -/
def At (site : Site) (e : Event) : Prop := ∃ market seq, e.ref = site.eventRef market seq

theorem At.place (h : At site e) : e.ref.place = site.place := by
  obtain ⟨market, seq, hr⟩ := h
  rw [hr]
  rfl

theorem at_of_mem_counterOrder {p : NewOrderParams} {prev : Option RequestQueue}
    {new : RequestQueue} (he : e ∈ counterOrder site accounts p prev new) : At site e := by
  unfold counterOrder at he
  split at he
  · split at he
    · rw [List.mem_singleton.mp he]
      exact ⟨_, _, rfl⟩
    · cases he
  · cases he

theorem at_of_requestEvent? {r : RequestEntry} (he : requestEvent? site accounts r = some e) :
    At site e := by
  unfold requestEvent? at he
  dsimp only at he
  split at he
  · obtain ⟨owner, _, rfl⟩ := Option.map_eq_some_iff.mp he
    exact ⟨_, _, rfl⟩
  · split at he
    · cases he
      exact ⟨_, _, rfl⟩
    · cases he

theorem at_of_entryEvent? {market : PublicKey} {purpose : Purpose} {entry : EventEntry}
    (he : entryEvent? site market purpose entry = some e) : At site e := by
  unfold entryEvent? at he
  dsimp only at he
  split at he
  · cases he
    exact ⟨_, _, rfl⟩
  · split at he
    · cases he
      exact ⟨_, _, rfl⟩
    · cases he

theorem at_of_mem_requestEvents (h : requestEvents site accounts i change = .ok events)
    (he : e ∈ events) : At site e := by
  obtain ⟨prev, _, h⟩ := Results.bind_eq_ok.mp h
  obtain ⟨new, _, h⟩ := Results.bind_eq_ok.mp h
  cases h
  rcases List.mem_append.mp he with he | he
  · split at he
    · exact at_of_mem_counterOrder he
    · cases he
  · obtain ⟨r, _, hr⟩ := List.mem_filterMap.mp he
    exact at_of_requestEvent? hr

theorem at_of_mem_queueEvents (h : queueEvents site accounts i change = .ok events)
    (he : e ∈ events) : At site e := by
  obtain ⟨prev, _, h⟩ := Results.bind_eq_ok.mp h
  obtain ⟨new, _, h⟩ := Results.bind_eq_ok.mp h
  obtain ⟨appended, _, h⟩ := Results.bind_eq_ok.mp h
  cases h
  obtain ⟨entry, _, hentry⟩ := List.mem_filterMap.mp he
  exact at_of_entryEvent? hentry

/-- What an instruction takes from its request queue, if it may write one that has changed. -/
def fromRequests (site : Site) (inv : Invocation) (accounts : Accounts) (i : Instruction) :
    Except ExtractError (List Event) :=
  match queueChange? inv accounts.requestQueue with
  | some change => requestEvents site accounts i change
  | none => .ok []

def fromEvents (site : Site) (inv : Invocation) (accounts : Accounts) (i : Instruction) :
    Except ExtractError (List Event) :=
  match queueChange? inv accounts.eventQueue with
  | some change => queueEvents site accounts i change
  | none => .ok []

theorem harvest_eq (hi : Instruction.decode inv.data = .ok i)
    (ha : Accounts.resolve? site.trx inv i.accounts = some accounts) :
    harvest site inv = (do
      let requests ← fromRequests site inv accounts i
      let entries ← fromEvents site inv accounts i
      return ⟨requests ++ entries, (ownership? accounts i).toList, false⟩) := by
  simp only [harvest, hi, ha, fromRequests, fromEvents]
  cases queueChange? inv accounts.requestQueue <;> cases queueChange? inv accounts.eventQueue <;> rfl

theorem at_of_mem_fromRequests (h : fromRequests site inv accounts i = .ok events)
    (he : e ∈ events) : At site e := by
  unfold fromRequests at h
  split at h
  · exact at_of_mem_requestEvents h he
  · cases h
    cases he

theorem at_of_mem_fromEvents (h : fromEvents site inv accounts i = .ok events) (he : e ∈ events) :
    At site e := by
  unfold fromEvents at h
  split at h
  · exact at_of_mem_queueEvents h he
  · cases h
    cases he

theorem at_of_mem_harvest (hh : harvest site inv = .ok h) (he : e ∈ h.events) : At site e := by
  cases hi : Instruction.decode inv.data with
  | error _ =>
    rw [harvest, hi] at hh
    cases hh
    cases he
  | ok i =>
    cases ha : Accounts.resolve? site.trx inv i.accounts with
    | none =>
      simp only [harvest, hi, ha] at hh
      cases hh
      cases he
    | some accounts =>
      rw [harvest_eq hi ha] at hh
      obtain ⟨requests, hrequests, hh⟩ := Results.bind_eq_ok.mp hh
      obtain ⟨entries, hentries, hh⟩ := Results.bind_eq_ok.mp hh
      cases hh
      rcases List.mem_append.mp he with he | he
      · exact at_of_mem_fromRequests hrequests he
      · exact at_of_mem_fromEvents hentries he

theorem pairwise_key_ne_iff (hh : harvest site inv = .ok h) :
    (h.events.Pairwise fun a b => OrderEventKey.ofEvent a ≠ OrderEventKey.ofEvent b) ↔
      h.events.Pairwise fun a b => a.order = b.order → a.type ≠ b.type := by
  refine List.Pairwise.iff_of_mem fun {a b} ha hb => ?_
  have hplace : a.ref.place = b.ref.place := by
    rw [(at_of_mem_harvest hh ha).place, (at_of_mem_harvest hh hb).place]
  rw [Ne, OrderEventKey.ofEvent_eq_iff hplace, not_and]

/-- The events that an instruction gives, if its queues can be read. -/
def Harvest.eventsOf : Except ExtractError Harvest → List Event
  | .ok h => h.events
  | .error _ => []

theorem Harvest.exists_of_mem_eventsOf {r : Except ExtractError Harvest} (he : e ∈ eventsOf r) :
    ∃ h, r = .ok h ∧ e ∈ h.events := by
  cases r with
  | ok h => exact ⟨h, rfl, he⟩
  | error _ => cases he

end Extraction

open Extraction

namespace Block
variable {programs : List PublicKey} {b : Block} {x : BlockEvents}

theorem extract_ok (h : b.extract programs = .ok x) :
    ∃ harvests : List Harvest, ((executed programs b).map fun p => harvest p.1 p.2) = harvests.map .ok ∧
      x = { slot := b.number, slotHash := b.id, timestamp := b.timestamp
            events := harvests.flatMap (·.events)
            ownerships := harvests.flatMap (·.ownerships)
            skipped := harvests.countP (·.skipped) } := by
  obtain ⟨harvests, hm, h⟩ := Results.bind_eq_ok.mp h
  exact ⟨harvests, Results.mapM_eq_ok.mp hm, (Except.ok.inj h).symm⟩

theorem slot_of_extract (h : b.extract programs = .ok x) : x.slot = b.number := by
  obtain ⟨harvests, _, rfl⟩ := extract_ok h
  rfl

theorem exists_harvest_of_extract (h : b.extract programs = .ok x) {p : Site × Invocation}
    (hp : p ∈ executed programs b) : ∃ h, harvest p.1 p.2 = .ok h := by
  obtain ⟨harvests, hall, _⟩ := extract_ok h
  have hmem := List.mem_map_of_mem (f := fun p => harvest p.1 p.2) hp
  rw [hall] at hmem
  obtain ⟨h, _, hh⟩ := List.mem_map.mp hmem
  exact ⟨h, hh.symm⟩

theorem events_of_extract (h : b.extract programs = .ok x) :
    x.events = (executed programs b).flatMap fun p => Harvest.eventsOf (harvest p.1 p.2) := by
  obtain ⟨harvests, hall, rfl⟩ := extract_ok h
  calc harvests.flatMap (·.events)
      = (harvests.map .ok).flatMap Harvest.eventsOf := by rw [List.flatMap_map]; rfl
    _ = ((executed programs b).map fun p => harvest p.1 p.2).flatMap Harvest.eventsOf := by rw [hall]
    _ = _ := List.flatMap_map _ _ _

theorem exists_harvest_of_mem_events (h : b.extract programs = .ok x) {e : Event}
    (he : e ∈ x.events) :
    ∃ p ∈ executed programs b, ∃ h, harvest p.1 p.2 = .ok h ∧ e ∈ h.events := by
  rw [events_of_extract h] at he
  obtain ⟨p, hp, he⟩ := List.mem_flatMap.mp he
  exact ⟨p, hp, Harvest.exists_of_mem_eventsOf he⟩

theorem mem_events_of_harvest (hx : b.extract programs = .ok x) {p : Site × Invocation}
    (hp : p ∈ executed programs b) {h : Harvest} (hh : harvest p.1 p.2 = .ok h) {e : Event}
    (he : e ∈ h.events) : e ∈ x.events := by
  rw [events_of_extract hx]
  refine List.mem_flatMap.mpr ⟨p, hp, ?_⟩
  rw [hh]
  exact he

/-- How two executed instructions stand to each other, of which the first comes before: in one
transaction, or in two that stand to each other as the transactions of the block do. By `hsize` the position
of an instruction is a word. -/
theorem pairwise_executed {R : UInt64 → UInt64 → Prop}
    (hindex : (b.transactions.map (·.index)).Pairwise R)
    (hsize : ∀ t ∈ b.transactions, t.invocations.length ≤ UInt64.size) :
    (executed programs b).Pairwise fun p q =>
      p.1.trx.index = q.1.trx.index ∧ p.1.inst < q.1.inst ∨ R p.1.trx.index q.1.trx.index := by
  refine List.pairwise_flatMap.mpr ⟨fun t ht => ?_, ?_⟩
  · have ht := hsize t (List.mem_filter.mp ht).1
    have hlt : (t.invocations.zipIdx.map Prod.snd).Pairwise (· < ·) := by
      rw [List.zipIdx_map_snd]
      exact List.pairwise_lt_range'
    refine List.pairwise_map.mpr (List.Pairwise.filter _ ?_)
    refine (List.pairwise_map.mp hlt).imp_of_mem fun {p q} hp hq hpq => .inl ⟨rfl, ?_⟩
    have hp := List.snd_lt_of_mem_zipIdx hp
    have hq := List.snd_lt_of_mem_zipIdx hq
    show UInt64.ofNat p.2 < UInt64.ofNat q.2
    rw [UInt64.lt_iff_toNat_lt, UInt64.toNat_ofNat_of_lt' (by omega),
      UInt64.toNat_ofNat_of_lt' (by omega)]
    exact hpq
  · have hR := (List.pairwise_map.mp hindex).filter (!·.failed)
    refine hR.imp fun {t u} htu p hp q hq => .inr ?_
    obtain ⟨_, _, rfl⟩ := List.mem_map.mp hp
    obtain ⟨_, _, rfl⟩ := List.mem_map.mp hq
    exact htu

theorem slot_of_mem_executed {p : Site × Invocation} (hp : p ∈ executed programs b) :
    p.1.slot = b.number := by
  obtain ⟨t, _, hp⟩ := List.mem_flatMap.mp hp
  obtain ⟨_, _, rfl⟩ := List.mem_map.mp hp
  rfl

section Distinct
variable (hindex : (b.transactions.map (·.index)).Nodup)
  (hsize : ∀ t ∈ b.transactions, t.invocations.length ≤ UInt64.size)
include hindex hsize

theorem pairwise_place_executed :
    (executed programs b).Pairwise fun p q => p.1.place ≠ q.1.place := by
  refine (pairwise_executed hindex hsize).imp fun {p q} h heq => ?_
  rcases h with ⟨_, hlt⟩ | hne
  · have hinst : p.1.inst = q.1.inst := congrArg Place.inst heq
    exact UInt64.lt_irrefl _ (hinst ▸ hlt)
  · exact hne (congrArg Place.trx heq)

/-- Two events of a block that stand at one place come from one instruction. -/
theorem exists_harvest_of_place_eq (hx : b.extract programs = .ok x) {e e' : Event}
    (he : e ∈ x.events) (he' : e' ∈ x.events) (hplace : e.ref.place = e'.ref.place) :
    ∃ p ∈ executed programs b, ∃ h, harvest p.1 p.2 = .ok h ∧ e ∈ h.events ∧ e' ∈ h.events := by
  obtain ⟨p, hp, h, hh, heh⟩ := exists_harvest_of_mem_events hx he
  obtain ⟨p', hp', h', hh', heh'⟩ := exists_harvest_of_mem_events hx he'
  rw [(at_of_mem_harvest hh heh).place, (at_of_mem_harvest hh' heh').place] at hplace
  have hnodup : ((executed programs b).map fun p => p.1.place).Nodup :=
    List.pairwise_map.mpr (pairwise_place_executed hindex hsize)
  obtain rfl := List.inj_on_of_nodup_map hnodup hp hp' hplace
  obtain rfl := Except.ok.inj (hh.symm.trans hh')
  exact ⟨p, hp, h, hh, heh, heh'⟩

/-- The events of a block have different keys just if no instruction gives two events of one type
for one order. -/
theorem pairwise_key_ne_iff (hx : b.extract programs = .ok x) :
    (x.events.Pairwise fun a c => OrderEventKey.ofEvent a ≠ OrderEventKey.ofEvent c) ↔
      ∀ p ∈ executed programs b, ∀ h, harvest p.1 p.2 = .ok h →
        h.events.Pairwise fun a c => a.order = c.order → a.type ≠ c.type := by
  rw [events_of_extract hx, List.pairwise_flatMap]
  constructor
  · rintro ⟨hkeys, _⟩ p hp h hh
    have hp := hkeys p hp
    rw [hh] at hp
    exact (Extraction.pairwise_key_ne_iff hh).mp hp
  · intro hsame
    refine ⟨fun p hp => ?_, ?_⟩
    · obtain ⟨h, hh⟩ := exists_harvest_of_extract hx hp
      rw [hh]
      exact (Extraction.pairwise_key_ne_iff hh).mpr (hsame p hp h hh)
    · refine (pairwise_place_executed hindex hsize).imp fun {p q} hpq a ha c hc hkey => hpq ?_
      obtain ⟨h, hh, ha⟩ := Harvest.exists_of_mem_eventsOf ha
      obtain ⟨h', hh', hc⟩ := Harvest.exists_of_mem_eventsOf hc
      rw [← (at_of_mem_harvest hh ha).place, ← (at_of_mem_harvest hh' hc).place]
      exact congrArg OrderEventKey.place hkey

end Distinct

/-- A block whose transactions stand in the order of their indexes. The position of an instruction in
its transaction is a word, as that of any item of a list in memory is. -/
structure Ordered (b : Block) : Prop where
  indexes : (b.transactions.map (·.index)).Pairwise (· < ·)
  sizes : ∀ t ∈ b.transactions, t.invocations.length ≤ UInt64.size

theorem slot_of_mem_events (hx : b.extract programs = .ok x) {e : Event} (he : e ∈ x.events) :
    e.ref.place.slot = x.slot := by
  obtain ⟨p, hp, h, hh, heh⟩ := exists_harvest_of_mem_events hx he
  rw [(at_of_mem_harvest hh heh).place, slot_of_extract hx]
  exact slot_of_mem_executed hp

/-- The events of a block are in chain order. -/
theorem Ordered.inChain_events (hb : b.Ordered) (hx : b.extract programs = .ok x) :
    Event.InChain x.events := by
  rw [events_of_extract hx]
  refine List.pairwise_flatMap.mpr ⟨fun p hp => ?_, ?_⟩
  · obtain ⟨h, hh⟩ := exists_harvest_of_extract hx hp
    rw [hh]
    refine List.pairwise_of_forall_mem_list fun a ha c hc => .inl ?_
    rw [(at_of_mem_harvest hh ha).place, (at_of_mem_harvest hh hc).place]
  · refine (pairwise_executed hb.indexes hb.sizes).imp_of_mem fun {p q} hp hq hpq a ha c hc => .inr ?_
    obtain ⟨h, hh, ha⟩ := Harvest.exists_of_mem_eventsOf ha
    obtain ⟨h', hh', hc⟩ := Harvest.exists_of_mem_eventsOf hc
    rw [(at_of_mem_harvest hh ha).place, (at_of_mem_harvest hh' hc).place]
    have hslot : p.1.slot = q.1.slot := (slot_of_mem_executed hp).trans (slot_of_mem_executed hq).symm
    rcases hpq with ⟨htrx, hinst⟩ | htrx
    · exact .inr ⟨hslot, .inr ⟨htrx, hinst⟩⟩
    · exact .inr ⟨hslot, .inl htrx⟩

end Block

end DexIndex
