import DexIndex.Event.Json
import DexIndex.Key
import DexIndex.Proofs.Bytes.Base58
import DexIndex.Proofs.Json.Record
import DexIndex.Proofs.Key.Codec
import DexIndex.Proofs.Time.Text

/-!
# Events read back

The JSON form of an event is read as the event, the text of a stored event as what was stored, and
the row that is kept for an event as this event (`Event.ofRow_encode`). So no two stored events have
the same text.
-/

namespace DexIndex

open Json

/-! ### Scalars -/

@[simp] theorem PublicKey.ofJson?_toJson (k : PublicKey) : ofJson? k.toJson = some k := by
  simp [toJson, ofJson?, PublicKey.ofText?_toText]

@[simp] theorem Timestamp.ofJson?_toJson (t : Timestamp) : ofJson? t.toJson = some t := by
  simp [toJson, ofJson?, Timestamp.ofText?_toText]

@[simp] theorem Side.ofJson?_toJson (s : Side) : ofJson? s.toJson = some s := by
  rw [toJson, ofJson?, choice?_ofText]
  cases s <;> rfl

@[simp] theorem OrderType.ofJson?_toJson (t : OrderType) : ofJson? t.toJson = some t := by
  rw [toJson, ofJson?, choice?_ofText]
  cases t <;> rfl

@[simp] theorem Json.word64?_ofWord (n : UInt64) : (ofWord n).word64? = some n := word64?_ofNat n

theorem Json.Written.word (n : UInt64) : Written (ofWord n) := .nat n.toNat_lt

theorem Json.Written.byte (b : UInt8) : Written (.ofNat b.toNat) :=
  .nat (Nat.lt_trans b.toNat_lt (by decide))

/-! ### Records -/

theorem Fill.ofJson?_toJson (f : Fill) : ofJson? f.toJson = some f := by
  rw [ofJson?, toJson, record?_ofFields (by simp)]
  simp [List.lookup_cons, required?, bool?]

theorem Fill.written_toJson (f : Fill) : Written f.toJson := by
  refine .object ?_
  simp only [List.forall_mem_cons, List.not_mem_nil, false_imp_iff, implies_true, and_true]
  exact ⟨.text _, .bool _, .word _, .word _, .word _, .word _, .byte _, .word _, .text _⟩

theorem Order.ofJson?_toJson (o : Order) : ofJson? o.toJson = some o := by
  rw [ofJson?, toJson, record?_ofFields (by simp)]
  simp [List.lookup_cons, required?, optional?, listOf?_array Fill.ofJson?_toJson]

theorem Order.written_toJson (o : Order) : Written o.toJson := by
  refine .object ?_
  simp only [List.forall_mem_cons, List.not_mem_nil, false_imp_iff, implies_true, and_true]
  refine ⟨.text _, .word _, .word _, .text _, .word _, .text _, .array ?_⟩
  intro v hv
  obtain ⟨f, _, rfl⟩ := List.mem_map.mp hv
  exact f.written_toJson

theorem InstructionRef.ofJson?_toJson (i : InstructionRef) : ofJson? i.toJson = some i := by
  rw [ofJson?, toJson, record?_ofFields (by simp)]
  simp [List.lookup_cons, required?]

theorem InstructionRef.written_toJson (i : InstructionRef) : Written i.toJson := by
  refine .object ?_
  simp only [List.forall_mem_cons, List.not_mem_nil, false_imp_iff, implies_true, and_true]
  exact ⟨.text _, .word _, .word _, .word _⟩

/-! ### Depth -/

theorem Fill.depth_toJson_le (f : Fill) : f.toJson.depth ≤ 1 := by
  refine depth_ofFields_le ?_
  simp only [List.forall_mem_cons, List.not_mem_nil, false_imp_iff, implies_true, and_true]
  exact ⟨Nat.le_refl _, Nat.le_refl _, Nat.le_refl _, Nat.le_refl _, Nat.le_refl _,
    Nat.le_refl _, Nat.le_refl _, Nat.le_refl _, Nat.le_refl _⟩

theorem Order.depth_toJson_le (o : Order) : o.toJson.depth ≤ 3 := by
  refine depth_ofFields_le ?_
  simp only [List.forall_mem_cons, List.not_mem_nil, false_imp_iff, implies_true, and_true]
  refine ⟨Nat.zero_le _, Nat.zero_le _, Nat.zero_le _, Nat.zero_le _, Nat.zero_le _,
    Nat.zero_le _, depth_array_le ?_⟩
  intro v hv
  obtain ⟨f, _, rfl⟩ := List.mem_map.mp hv
  exact f.depth_toJson_le

theorem InstructionRef.depth_toJson_le (i : InstructionRef) : i.toJson.depth ≤ 1 := by
  refine depth_ofFields_le ?_
  simp only [List.forall_mem_cons, List.not_mem_nil, false_imp_iff, implies_true, and_true]
  exact ⟨Nat.le_refl _, Nat.le_refl _, Nat.le_refl _, Nat.le_refl _⟩

/-! ### Kinds of events -/

namespace EventKind

/-- The fields of a kind besides its type. -/
def fields : EventKind → List (String × Json)
  | newOrder order trader => [("order", order.toJson), ("trader", trader.toJson)]
  | fill account f => [("trading_account", account.toJson), ("fill", f.toJson)]
  | orderExecuted => []
  | orderCancelled i | orderClosed i => [("instruction", i.toJson)]

theorem toJson_eq (k : EventKind) :
    k.toJson = .ofFields (("type", .ofText k.type.name) :: k.fields) := by
  cases k <;> rfl

theorem nodup_fields (k : EventKind) : ("type" :: k.fields.map (·.1)).Nodup := by
  cases k <;> simp [fields]

theorem written_fields (k : EventKind) : ∀ f ∈ k.fields, Written f.2 := by
  cases k with
  | newOrder order trader => simpa [fields] using ⟨order.written_toJson, .text _⟩
  | fill account f => simpa [fields] using ⟨.text _, f.written_toJson⟩
  | orderExecuted => simp [fields]
  | orderCancelled i => simpa [fields] using i.written_toJson
  | orderClosed i => simpa [fields] using i.written_toJson

theorem depth_fields_le (k : EventKind) : ∀ f ∈ k.fields, f.2.depth ≤ 3 := by
  cases k with
  | newOrder order trader => simpa [fields] using ⟨order.depth_toJson_le, Nat.zero_le 3⟩
  | fill account f =>
    have hf := f.depth_toJson_le
    simpa [fields] using ⟨Nat.zero_le 3, by omega⟩
  | orderExecuted => simp [fields]
  | orderCancelled i =>
    have hi := i.depth_toJson_le
    simp only [fields, List.forall_mem_singleton]
    omega
  | orderClosed i =>
    have hi := i.depth_toJson_le
    simp only [fields, List.forall_mem_singleton]
    omega

theorem written_toJson (k : EventKind) : Written k.toJson := by
  rw [toJson_eq]
  exact .object (List.forall_mem_cons.mpr ⟨.text _, k.written_fields⟩)

theorem depth_toJson_le (k : EventKind) : k.toJson.depth ≤ 4 := by
  rw [toJson_eq]
  exact depth_ofFields_le (List.forall_mem_cons.mpr ⟨Nat.zero_le 3, k.depth_fields_le⟩)

theorem ofRecord?_fields (k : EventKind) : ofRecord? k.type (.ofFields k.fields) = some k := by
  have hrecord := record?_ofFields (List.nodup_cons.mp k.nodup_fields).2
  cases k with
  | newOrder order trader =>
    simp [EventKind.type, ofRecord?, hrecord]
    simp [fields, List.lookup_cons, required?, Order.ofJson?_toJson]
  | fill account f =>
    simp [EventKind.type, ofRecord?, hrecord]
    simp [fields, List.lookup_cons, required?, Fill.ofJson?_toJson]
  | orderExecuted => rfl
  | orderCancelled i =>
    simp [EventKind.type, ofRecord?, hrecord]
    simp [fields, required?, InstructionRef.ofJson?_toJson]
  | orderClosed i =>
    simp [EventKind.type, ofRecord?, hrecord]
    simp [fields, required?, InstructionRef.ofJson?_toJson]

theorem ofJson?_toJson (k : EventKind) : ofJson? k.toJson = some k := by
  have hguard : ¬ (¬ k.toJson.sound ∨ maxDepth < k.toJson.depth) := by
    have hdepth := k.depth_toJson_le
    have hmax : maxDepth = 126 := rfl
    have hsound := k.written_toJson.sound
    rintro (h | h)
    · exact h hsound
    · omega
  have hname : EventType.ofName? k.type.name = some k.type := by cases k <;> rfl
  rw [ofJson?, if_neg hguard, toJson_eq, tagged?_ofFields k.nodup_fields]
  simp only [Option.bind_eq_bind, Option.bind_some, hname]
  exact k.ofRecord?_fields

end EventKind

/-! ### Stored events -/

namespace StoredEvent

/-- The fields of a stored event. -/
def fields (v : StoredEvent) : List (String × Json) :=
  [("slot_hash", .ofText v.slotHash), ("timestamp", v.timestamp.toJson)] ++
    v.trader.toList.map (fun trader => ("trader", trader.toJson)) ++ [("kind", v.kind.toJson)]

theorem toJson_eq (v : StoredEvent) : v.toJson = .ofFields v.fields := by
  obtain ⟨slotHash, timestamp, trader, kind⟩ := v
  cases trader <;> rfl

theorem ofJson?_toJson (v : StoredEvent) : ofJson? v.toJson = some v := by
  obtain ⟨slotHash, timestamp, trader, kind⟩ := v
  rw [toJson_eq, ofJson?]
  cases trader with
  | none =>
    rw [record?_ofFields (by simp [fields])]
    simp [fields, List.lookup_cons, required?, optional?, EventKind.ofJson?_toJson]
  | some trader =>
    have hnullable : nullable? PublicKey.ofJson? trader.toJson = some (some trader) := by
      rw [PublicKey.toJson, nullable?, ← PublicKey.toJson, PublicKey.ofJson?_toJson,
        Option.map_some]
      rintro ⟨⟩
    rw [record?_ofFields (by simp [fields])]
    simp [fields, List.lookup_cons, required?, optional?, EventKind.ofJson?_toJson, hnullable]

theorem written_toJson (v : StoredEvent) : Written v.toJson := by
  rw [toJson_eq]
  refine .object fun f hf => ?_
  simp only [fields, List.append_assoc, List.mem_append, List.mem_cons, List.mem_map,
    List.not_mem_nil, or_false] at hf
  rcases hf with (rfl | rfl) | ⟨_, _, rfl⟩ | rfl
  · exact .text _
  · exact .text _
  · exact .text _
  · exact v.kind.written_toJson

theorem decode_encode (v : StoredEvent) : decode v.encode = .ok v := by
  rw [decode, decode?, encode, Json.parse?_print v.written_toJson, Option.bind_some,
    ofJson?_toJson]

theorem encode_injective : Function.Injective encode := by
  intro v v' h
  have hv : decode v.encode = .ok v' := by
    rw [h]
    exact decode_encode v'
  exact Except.ok.inj ((decode_encode v).symm.trans hv)

theorem toEvent_ofEvent (e : Event) (trader : Option PublicKey) :
    (ofEvent e trader).toEvent (.ofEvent e) = e := rfl

end StoredEvent

/-- The row that is kept for an event holds this event. -/
theorem Event.ofRow_encode (e : Event) (trader : Option PublicKey) :
    Event.ofRow (OrderEventKey.ofEvent e).encode (StoredEvent.ofEvent e trader).encode = .ok e := by
  rw [Event.ofRow, OrderEventKey.decode_encode, StoredEvent.decode_encode]
  exact congrArg Except.ok (StoredEvent.toEvent_ofEvent e trader)

/-- A stored event reads back unchanged, alone and in the row that is kept for an event, and two
stored events have two texts. -/
theorem StoredEvent.reads_back :
    (∀ v : StoredEvent, decode v.encode = .ok v) ∧
    (∀ (e : Event) (trader : Option PublicKey),
      Event.ofRow (OrderEventKey.ofEvent e).encode (ofEvent e trader).encode = .ok e) ∧
    (∀ v v' : StoredEvent, v ≠ v' → v.encode ≠ v'.encode) := by
  refine ⟨decode_encode, Event.ofRow_encode, ?_⟩
  intro v v' hne h
  exact hne (encode_injective h)

end DexIndex
