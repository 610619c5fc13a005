import DexIndex.Proofs.Live.Registry
import Mathlib.Logic.Function.Basic

/-!
# The calls of clients

A registry next to the calls that subscribe to it, cut into the steps between which others may run:
a call takes its number and its mailbox first and enters the registry later, and a receiver may be
dropped at any step. Publishing is cut into taking the registry and single events. Histories are
read from any store. `Clients.Stepped` says all that a step can do. With nothing in between, the
steps are subscribing and publishing as they are (`Clients.run_subscribe`, `Clients.run_publish`).
-/

namespace DexIndex

namespace Live
variable {l : Live} {key : OrderKey} {id : Nat}

/-! ### Registering in two steps -/

/-- Takes the next number and makes a mailbox for it. -/
def allot (l : Live) : Live :=
  { l with
    nextId := l.nextId + 1
    mailboxes := l.mailboxes ++ [(l.nextId, ⟨[], true⟩)] }

/-- Prunes the registry and adds a subscriber. -/
def enter (l : Live) (key : OrderKey) (id : Nat) : Live :=
  l.prune.setTable key (l.prune.table key ++ [⟨id, .start key, some []⟩])

theorem table_of_mem (hl : l.Sound) {t : OrderKey × List Subscriber} (ht : t ∈ l.tables) :
    l.table t.1 = t.2 := by
  rw [table, Lists.lookup_of_mem hl.keys ht]
  rfl

theorem find?_allot (hl : l.Sound) (id : Nat) :
    l.allot.mailboxes.find? id =
      if id = l.nextId then some ⟨[], true⟩ else l.mailboxes.find? id :=
  Mailboxes.find?_concat hl.find?_nextId _ id

theorem Sound.allot (hl : l.Sound) : l.allot.Sound := by
  refine ⟨hl.keys, hl.ids, fun k s hs => ?_, fun i hi => ?_⟩
  · rw [find?_allot hl]
    split
    · rfl
    · exact hl.boxes k s hs
  · rw [find?_allot hl] at hi
    show i < l.nextId + 1
    split at hi
    · next heq => omega
    · have hlt := hl.fresh i hi
      omega

theorem tables_prune_allot (hl : l.Sound) : l.allot.prune.tables = l.prune.tables := by
  have hmap :
      (l.tables.map fun t => (t.1, t.2.filter fun s => l.allot.mailboxes.isReceiving s.id)) =
        l.tables.map fun t => (t.1, t.2.filter fun s => l.mailboxes.isReceiving s.id) := by
    refine List.map_congr_left fun t ht => congrArg (Prod.mk t.1) (List.filter_congr fun s hs => ?_)
    have hbox := hl.boxes t.1 s (table_of_mem hl ht ▸ hs)
    have hlt := hl.fresh s.id hbox
    rw [Mailboxes.isReceiving, Mailboxes.isReceiving, find?_allot hl, if_neg (by omega)]
  exact congrArg (List.filter fun t => !t.2.isEmpty) hmap

/-- Taking a number and entering, with nothing in between, is to register. -/
theorem register_eq (hl : l.Sound) (key : OrderKey) :
    l.register key = (l.nextId, l.allot.enter key l.nextId) := by
  have htables := tables_prune_allot hl
  unfold register enter setTable table
  rw [htables]
  rfl

theorem subscriber?_enter (hl : l.Sound) {k : OrderKey} {n : Nat}
    (hnew : l.subscriber? k n = none) (key : OrderKey) (id : Nat) :
    (l.enter k n).subscriber? key id =
      if key = k ∧ id = n then some ⟨n, .start k, some []⟩
      else if l.mailboxes.isReceiving id then l.subscriber? key id else none := by
  have hprune := subscriber?_prune hl key id
  rw [enter, subscriber?_setTable]
  by_cases hkey : key = k
  · subst hkey
    rw [if_pos rfl, List.find?_append]
    change (l.prune.subscriber? key id).or _ = _
    rw [hprune]
    by_cases hid : id = n
    · subst hid
      rw [hnew]
      simp
    · simp [hid, Ne.symm hid]
  · rw [if_neg hkey, if_neg fun h => hkey h.1, hprune]

theorem Sound.enter (hl : l.Sound) {n : Nat} (hbox : (l.mailboxes.find? n).isSome)
    (hnew : l.subscriber? key n = none) : (l.enter key n).Sound := by
  refine hl.prune.setTable ?_ fun s hs => ?_
  · rw [List.map_append, List.map_singleton, List.nodup_append]
    refine ⟨hl.prune.ids key, by simp, fun a ha b hb hab => ?_⟩
    obtain ⟨s, hs, rfl⟩ := List.mem_map.mp ha
    have hsn : s.id = n := hab.trans (List.mem_singleton.mp hb)
    rw [table_prune hl.keys] at hs
    have hfind := List.find?_eq_none.mp hnew s (List.mem_filter.mp hs).1
    exact hfind (by simpa using hsn)
  · rcases List.mem_append.mp hs with hs | hs
    · exact hl.prune.boxes key s hs
    · rw [List.mem_singleton.mp hs]
      exact hbox

end Live

/-! ### The system -/

/-- How far a call that subscribes has come. -/
inductive SubscribeStage
  /-- It has a number and a mailbox. -/
  | allotted
  /-- Its subscriber is in the registry. -/
  | entered
  | read (history : Except ReaderError OrderMachine)
  | returned
  | failed (error : ReaderError)
  /-- It was given up with its receiver before it returned. -/
  | cancelled

namespace SubscribeStage

def underWay : SubscribeStage → Bool
  | allotted | entered | read _ => true
  | returned | failed _ | cancelled => false

/-- Whether a call has entered the registry, of one that was not cancelled. -/
def hasEntered : SubscribeStage → Bool
  | allotted | cancelled => false
  | entered | read _ | returned | failed _ => true

def ofResult : Except ReaderError Nat → SubscribeStage
  | .ok _ => returned
  | .error e => failed e

def cancel (s : SubscribeStage) : SubscribeStage := if s.underWay then cancelled else s

end SubscribeStage

/-- A call that subscribes to an order, and the receiver that it gives to its caller. -/
structure SubscribeCall where
  key : OrderKey
  stage : SubscribeStage

structure Clients where
  live : Live
  calls : Nat → Option SubscribeCall

namespace Clients

/-- The steps of calls, of publishing and of receivers. A step that is not due changes nothing. -/
inductive Action
  | allot (key : OrderKey)
  | enter (id : Nat)
  /-- Reads the history from a store, whatever it holds. -/
  | read (id : Nat) (ledger : Ledger)
  | finish (id : Nat)
  | unsubscribe (key : OrderKey) (id : Nat)
  /-- Takes the registry to publish to it. -/
  | prune
  | publish (e : Event)
  | receive (id : Nat)
  /-- Drops a receiver. A call that has not returned ends with it. -/
  | drop (id : Nat)

def start (buffer : Nat) : Clients := ⟨.start buffer, fun _ => none⟩

def setCall (c : Clients) (id : Nat) (call : SubscribeCall) : Clients :=
  { c with calls := Function.update c.calls id (some call) }

def step (c : Clients) : Action → Clients
  | .allot key => setCall { c with live := c.live.allot } c.live.nextId ⟨key, .allotted⟩
  | .enter id =>
    match c.calls id with
    | some ⟨key, .allotted⟩ => setCall { c with live := c.live.enter key id } id ⟨key, .entered⟩
    | _ => c
  | .read id ledger =>
    match c.calls id with
    | some ⟨key, .entered⟩ => c.setCall id ⟨key, .read (ledger.orderMachine key).1⟩
    | _ => c
  | .finish id =>
    match c.calls id with
    | some ⟨key, .read history⟩ =>
      let (r, live) := c.live.finish key id history
      setCall { c with live } id ⟨key, .ofResult r⟩
    | _ => c
  | .unsubscribe key id => { c with live := (c.live.unsubscribe key id).2 }
  | .prune => { c with live := c.live.prune }
  | .publish e => { c with live := c.live.publishOne e }
  | .receive id => { c with live := (c.live.receive id).2 }
  | .drop id =>
    match c.calls id with
    | some call =>
      setCall { c with live := c.live.drop id } id { call with stage := call.stage.cancel }
    | none => c

def run (c : Clients) (actions : List Action) : Clients := actions.foldl step c

theorem calls_setCall (c : Clients) (id : Nat) (call : SubscribeCall) (i : Nat) :
    (c.setCall id call).calls i = if i = id then some call else c.calls i :=
  Function.update_apply ..

/-- What a step can do. -/
inductive Stepped (c : Clients) : Action → Clients → Prop
  | notDue (a : Action) : Stepped c a c
  | allotted (key : OrderKey) : Stepped c (.allot key)
      (setCall { c with live := c.live.allot } c.live.nextId ⟨key, .allotted⟩)
  | entered {id : Nat} {key : OrderKey} (due : c.calls id = some ⟨key, .allotted⟩) :
      Stepped c (.enter id) (setCall { c with live := c.live.enter key id } id ⟨key, .entered⟩)
  | read {id : Nat} {key : OrderKey} (ledger : Ledger) (due : c.calls id = some ⟨key, .entered⟩) :
      Stepped c (.read id ledger) (c.setCall id ⟨key, .read (ledger.orderMachine key).1⟩)
  | returned {id : Nat} {key : OrderKey} {m : OrderMachine}
      (due : c.calls id = some ⟨key, .read (.ok m)⟩) : Stepped c (.finish id)
        (setCall { c with live := c.live.seed key id m } id ⟨key, .returned⟩)
  | failed {id : Nat} {key : OrderKey} {e : ReaderError}
      (due : c.calls id = some ⟨key, .read (.error e)⟩) : Stepped c (.finish id)
        (setCall { c with live := (c.live.unsubscribe key id).2 } id ⟨key, .failed e⟩)
  | unsubscribed (key : OrderKey) (id : Nat) :
      Stepped c (.unsubscribe key id) { c with live := (c.live.unsubscribe key id).2 }
  | pruned : Stepped c .prune { c with live := c.live.prune }
  | published (e : Event) : Stepped c (.publish e) { c with live := c.live.publishOne e }
  | received {id : Nat} {item : OrderTransition} {rest : List OrderTransition}
      (due : c.live.mailboxes.find? id = some ⟨item :: rest, true⟩) : Stepped c (.receive id)
        { c with live := { c.live with
            mailboxes := c.live.mailboxes.update id fun box => { box with items := rest } } }
  | dropped {id : Nat} {call : SubscribeCall} (due : c.calls id = some call) : Stepped c (.drop id)
      (setCall { c with live := c.live.drop id } id { call with stage := call.stage.cancel })

theorem step_stepped (c : Clients) (a : Action) : c.Stepped a (c.step a) := by
  cases a with
  | allot key => exact .allotted key
  | enter id =>
    unfold step
    dsimp only
    split
    · next due => exact .entered due
    · exact .notDue _
  | read id ledger =>
    unfold step
    dsimp only
    split
    · next due => exact .read ledger due
    · exact .notDue _
  | finish id =>
    unfold step
    dsimp only
    split
    · next key history due =>
      cases history with
      | ok m => exact .returned due
      | error e => exact .failed due
    · exact .notDue _
  | unsubscribe key id => exact .unsubscribed key id
  | prune => exact .pruned
  | publish e => exact .published e
  | receive id =>
    unfold step
    dsimp only
    rcases Live.receive_cases c.live id with heq | ⟨item, rest, due, heq⟩
    · rw [heq]
      exact .notDue _
    · rw [heq]
      exact .received due
  | drop id =>
    unfold step
    dsimp only
    split
    · next due => exact .dropped due
    · exact .notDue _

theorem run_append (c : Clients) (a b : List Action) : c.run (a ++ b) = (c.run a).run b :=
  List.foldl_append

/-- The steps of a call, with nothing in between, are one call of `Live.subscribe`. -/
theorem run_subscribe {c : Clients} (hl : c.live.Sound) (key : OrderKey) (ledger : Ledger) :
    (c.run [.allot key, .enter c.live.nextId, .read c.live.nextId ledger,
      .finish c.live.nextId]).live = (c.live.subscribe ledger key).2.1 := by
  have hself (c : Clients) (id : Nat) (call : SubscribeCall) :
      (c.setCall id call).calls id = some call := Function.update_self ..
  show ((((c.step (.allot key)).step (.enter c.live.nextId)).step
    (.read c.live.nextId ledger)).step (.finish c.live.nextId)).live = _
  rw [step, step, hself]
  dsimp only
  rw [step, hself]
  dsimp only
  rw [step, hself, Live.subscribe, Live.register_eq hl]
  rfl

/-- Publishing to a registry that has subscribers is to take it and to give out each event. -/
theorem run_publish (c : Clients) (events : List Event) :
    c.live.publish events =
      if events.isEmpty || c.live.tables.isEmpty then c.live
      else (c.run (.prune :: events.map .publish)).live := by
  have hgiven (c : Clients) : (c.run (events.map .publish)).live =
      events.foldl Live.publishOne c.live := by
    induction events generalizing c with
    | nil => rfl
    | cons e events ih => exact ih (c.step (.publish e))
  rw [Live.publish]
  split
  · rfl
  · exact (hgiven (c.step .prune)).symm

end Clients

end DexIndex
