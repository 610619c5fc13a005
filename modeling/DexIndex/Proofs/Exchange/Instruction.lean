import DexIndex.Exchange.Instruction
import DexIndex.Proofs.Exchange.Entry
import Mathlib.Data.List.Basic

/-!
# Instructions in their binary form

The decoder takes a front of the data whose length hangs on the tag alone, and of this front it
tells the bytes of some fields apart and ignores those of the others (`Instruction.fields`). So data
is decoded as an instruction just if it agrees with what is written for the instruction on the bytes
that are kept, whatever stands in the ignored fields and behind (`Instruction.decode_eq_ok_iff`);
data that ends before is refused (`Instruction.decode_of_cut`).
-/

namespace DexIndex

/-! ### Bytes that are told apart -/

/-- Whether byte strings have the same bytes wherever the mask keeps one. -/
def Bytes.AgreeOn (mask : List Bool) (a b : Bytes) : Prop :=
  ∀ n : Nat, mask[n]? = some true → a[n]? = b[n]?

namespace Bytes.AgreeOn
variable {m m' : List Bool} {a a' b b' c : Bytes}

theorem refl (m : List Bool) (a : Bytes) : AgreeOn m a a := fun _ _ => rfl

theorem symm (h : AgreeOn m a b) : AgreeOn m b a := fun n hn => (h n hn).symm

theorem trans (h : AgreeOn m a b) (h' : AgreeOn m b c) : AgreeOn m a c :=
  fun n hn => (h n hn).trans (h' n hn)

theorem append_iff (ha : a.length = m.length) (hb : b.length = m.length) :
    AgreeOn (m ++ m') (a ++ a') (b ++ b') ↔ AgreeOn m a b ∧ AgreeOn m' a' b' := by
  constructor
  · intro h
    refine ⟨fun n hn => ?_, fun n hn => ?_⟩
    · have hlt : n < m.length := (List.getElem?_eq_some_iff.mp hn).1
      have hsame := h n (by rwa [List.getElem?_append_left hlt])
      rwa [List.getElem?_append_left (ha ▸ hlt), List.getElem?_append_left (hb ▸ hlt)] at hsame
    · have hsame := h (m.length + n) (by
        rwa [List.getElem?_append_right (Nat.le_add_right _ _), Nat.add_sub_cancel_left])
      rw [List.getElem?_append_right (by omega), List.getElem?_append_right (by omega)] at hsame
      simpa [ha, hb] using hsame
  · rintro ⟨h, h'⟩ n hn
    by_cases hlt : n < m.length
    · rw [List.getElem?_append_left hlt] at hn
      rw [List.getElem?_append_left (ha ▸ hlt), List.getElem?_append_left (hb ▸ hlt)]
      exact h n hn
    · rw [List.getElem?_append_right (by omega)] at hn
      rw [List.getElem?_append_right (by omega), List.getElem?_append_right (by omega), ha, hb]
      exact h' _ hn

/-- What stands behind makes no difference. -/
theorem append_left_iff (ha : a.length = m.length) (hb : b.length = m.length) :
    AgreeOn m (a ++ a') b ↔ AgreeOn m a b := by
  have h : AgreeOn (m ++ []) (a ++ a') (b ++ []) ↔ AgreeOn m a b ∧ AgreeOn [] a' [] :=
    append_iff ha hb
  rw [List.append_nil, List.append_nil] at h
  exact h.trans (and_iff_left (fun n hn => by simp at hn))

theorem kept_iff {n : Nat} (ha : a.length = n) (hb : b.length = n) :
    AgreeOn (List.replicate n true) a b ↔ a = b := by
  refine ⟨fun h => List.ext_getElem? fun k => ?_, fun h => h ▸ refl _ a⟩
  by_cases hk : k < n
  · exact h k (by rw [List.getElem?_replicate, if_pos hk])
  · rw [List.getElem?_eq_none (by omega), List.getElem?_eq_none (by omega)]

theorem discarded (n : Nat) (a b : Bytes) : AgreeOn (List.replicate n false) a b := by
  intro k hk
  rw [List.getElem?_replicate] at hk
  split at hk <;> simp at hk

end Bytes.AgreeOn

/-! ### Readers of fields -/

/-- Reads one value and then another. -/
def Reader.pair {α β : Type} (r : Reader α) (s : Reader β) : Reader (α × β) := do
  return (← r, ← s)

/-- Reads a value from its number in four bytes. -/
def Reader.code {α : Type} (ofNat? : Nat → Option α) : Reader α := do
  match ofNat? (← word32).toNat with
  | some x => return x
  | none => failure

/-- A reader that takes as many bytes as the mask has places, and reads a value from those that
agree with what is written for it wherever the mask keeps a byte. -/
structure Reader.Exact {α : Type} (r : Reader α) (write : α → Bytes) (mask : List Bool) : Prop where
  length_write : ∀ x, (write x).length = mask.length
  reads_iff : ∀ bs x rest, r bs = some (x, rest) ↔
    ∃ front, front ++ rest = bs ∧ front.length = mask.length ∧ front.AgreeOn mask (write x)

namespace Reader.Exact
variable {α β : Type} {r : Reader α} {s : Reader β} {f : α → Bytes} {g : β → Bytes}
  {m m' : List Bool}

theorem pair (h : r.Exact f m) (h' : s.Exact g m') :
    Exact (r.pair s) (fun p => f p.1 ++ g p.2) (m ++ m') := by
  refine ⟨fun p => by simp [h.length_write, h'.length_write], fun bs p rest => ?_⟩
  obtain ⟨x, y⟩ := p
  have hbind : r.pair s bs = some ((x, y), rest) ↔
      ∃ mid, r bs = some (x, mid) ∧ s mid = some (y, rest) := by
    simp [Reader.pair, bind_apply, map_apply, Option.bind_eq_some_iff]
  rw [hbind]
  constructor
  · rintro ⟨mid, hx, hy⟩
    obtain ⟨a, rfl, ha, hax⟩ := (h.reads_iff _ _ _).mp hx
    obtain ⟨b, rfl, hb, hby⟩ := (h'.reads_iff _ _ _).mp hy
    refine ⟨a ++ b, List.append_assoc .., by simp [ha, hb], ?_⟩
    exact (Bytes.AgreeOn.append_iff ha (h.length_write x)).mpr ⟨hax, hby⟩
  · rintro ⟨front, rfl, hlen, hagree⟩
    rw [List.length_append] at hlen
    have hsplit : front.take m.length ++ front.drop m.length = front := List.take_append_drop ..
    have ha : (front.take m.length).length = m.length := by
      rw [List.length_take]
      omega
    have hb : (front.drop m.length).length = m'.length := by
      rw [List.length_drop]
      omega
    rw [← hsplit] at hagree
    obtain ⟨hax, hby⟩ := (Bytes.AgreeOn.append_iff ha (h.length_write x)).mp hagree
    refine ⟨front.drop m.length ++ rest, ?_, ?_⟩
    · exact (h.reads_iff _ _ _).mpr ⟨_, by rw [← List.append_assoc, hsplit], ha, hax⟩
    · exact (h'.reads_iff _ _ _).mpr ⟨_, rfl, hb, hby⟩

theorem read_append (h : r.Exact f m) (x : α) (rest : Bytes) :
    r (f x ++ rest) = some (x, rest) :=
  (h.reads_iff _ _ _).mpr ⟨f x, rfl, h.length_write x, .refl _ _⟩

theorem eq_none_of_length_lt (h : r.Exact f m) {bs : Bytes} (hlt : bs.length < m.length) :
    r bs = none := by
  refine Option.eq_none_iff_forall_ne_some.mpr ?_
  rintro ⟨x, rest⟩ hread
  obtain ⟨front, rfl, hlen, _⟩ := (h.reads_iff _ _ _).mp hread
  rw [List.length_append] at hlt
  omega

/-- A value in another form. -/
theorem map (h : r.Exact f m) (e : α → β) (e' : β → α) (left : ∀ x, e' (e x) = x)
    (right : ∀ y, e (e' y) = y) : Exact (e <$> r) (fun y => f (e' y)) m := by
  refine ⟨fun y => h.length_write _, fun bs y rest => ?_⟩
  rw [← h.reads_iff, map_apply, Option.map_eq_some_iff]
  constructor
  · rintro ⟨⟨x, rest'⟩, hx, hy⟩
    cases hy
    rwa [left]
  · exact fun hx => ⟨_, hx, by rw [right]⟩

theorem skip {n : Nat} {pad : Bytes} (hpad : pad.length = n) :
    Exact (Reader.skip n) (fun _ => pad) (List.replicate n false) := by
  refine ⟨fun _ => by simpa using hpad, fun bs x rest => ?_⟩
  constructor
  · intro h
    unfold Reader.skip at h
    split at h
    · next hle =>
      cases h
      exact ⟨bs.take n, List.take_append_drop .., by simp [hle], Bytes.AgreeOn.discarded _ _ _⟩
    · cases h
  · rintro ⟨front, rfl, hlen, _⟩
    exact skip_append rest (by simpa using hlen)

/-- A number of a fixed width, as the type of its values has it. -/
theorem number (w : Nat) {ofNat : Nat → α} {toNat : α → Nat}
    (left : ∀ n, n < Nat.pow 256 w → toNat (ofNat n) = n)
    (right : ∀ x, ofNat (toNat x) = x) (bound : ∀ x, toNat x < Nat.pow 256 w) :
    Exact (do return ofNat (Bytes.valueLE (← take w))) (fun x => Bytes.littleEndian w (toNat x))
      (List.replicate w true) := by
  refine ⟨fun x => by simp, fun bs x rest => ?_⟩
  have hmap : (do return ofNat (Bytes.valueLE (← take w)) : Reader α) bs =
      (take w bs).map fun p => (ofNat (Bytes.valueLE p.1), p.2) := by
    exact map_apply (fun front => ofNat (Bytes.valueLE front)) (take w) bs
  rw [hmap, Option.map_eq_some_iff]
  constructor
  · rintro ⟨⟨front, rest'⟩, htake, hx⟩
    cases hx
    unfold take at htake
    split at htake
    · next hle =>
      cases htake
      have hlen : (bs.take w).length = w := by simp [hle]
      refine ⟨bs.take w, List.take_append_drop .., by simp [hle], ?_⟩
      have hlt := Bytes.valueLE_lt (bs.take w)
      have hback := Bytes.littleEndian_valueLE (bs.take w)
      rw [hlen] at hlt hback
      rw [left _ hlt, hback]
      exact .refl _ _
    · cases htake
  · rintro ⟨front, rfl, hlen, hagree⟩
    have hlen : front.length = w := by simpa using hlen
    obtain rfl := (Bytes.AgreeOn.kept_iff hlen (by simp)).mp hagree
    refine ⟨_, take_append rest hlen, ?_⟩
    rw [Bytes.valueLE_littleEndian, Nat.mod_eq_of_lt (bound x), right]

theorem word16 : Exact Reader.word16 (fun n => Bytes.littleEndian 2 n.toNat)
    (List.replicate 2 true) :=
  number 2 (fun _ h => UInt16.toNat_ofNat_of_lt' h) (fun _ => UInt16.ofNat_toNat)
    fun n => n.toNat_lt

theorem word32 : Exact Reader.word32 (fun n => Bytes.littleEndian 4 n.toNat)
    (List.replicate 4 true) :=
  number 4 (fun _ h => UInt32.toNat_ofNat_of_lt' h) (fun _ => UInt32.ofNat_toNat)
    fun n => n.toNat_lt

theorem word64 : Exact Reader.word64 Bytes.ofWord (List.replicate 8 true) :=
  number 8 (fun _ h => UInt64.toNat_ofNat_of_lt' h) (fun _ => UInt64.ofNat_toNat)
    fun n => n.toNat_lt

theorem orderId : Exact OrderId.reader OrderId.toBytes (List.replicate 16 true) := by
  have h := (word64.pair word64).map (fun p => (⟨p.2, p.1⟩ : OrderId))
    (fun id => (id.low, id.price)) (fun _ => rfl) (fun _ => rfl)
  have hreader : OrderId.reader =
      (fun p => (⟨p.2, p.1⟩ : OrderId)) <$> Reader.word64.pair Reader.word64 := by
    simp [OrderId.reader, Reader.pair]
  rw [hreader]
  exact h

theorem code {ofNat? : Nat → Option α} {toNat : α → Nat}
    (hcode : ∀ n x, ofNat? n = some x ↔ n = toNat x) (bound : ∀ x, toNat x < UInt32.size) :
    Exact (Reader.code ofNat?) (fun x => Bytes.littleEndian 4 (toNat x))
      (List.replicate 4 true) := by
  refine ⟨fun x => by simp, fun bs x rest => ?_⟩
  have hword := word32.reads_iff bs (UInt32.ofNat (toNat x)) rest
  rw [UInt32.toNat_ofNat_of_lt' (bound x)] at hword
  rw [← hword, Reader.code, bind_apply, Option.bind_eq_some_iff]
  constructor
  · rintro ⟨⟨n, mid⟩, hn, hx⟩
    dsimp only at hx
    cases hy : ofNat? n.toNat with
    | some y =>
      rw [hy] at hx
      cases hx
      rw [hn, ← (hcode _ x).mp hy, UInt32.ofNat_toNat]
    | none =>
      rw [hy] at hx
      cases hx
  · intro hn
    have hx : ofNat? (UInt32.ofNat (toNat x)).toNat = some x := by
      rw [UInt32.toNat_ofNat_of_lt' (bound x)]
      exact (hcode _ x).mpr rfl
    refine ⟨_, hn, ?_⟩
    dsimp only
    rw [hx]
    rfl

end Reader.Exact

/-! ### Fields of instructions -/

theorem Side.ofNat?_eq_some_iff (n : Nat) (s : Side) : ofNat? n = some s ↔ n = s.toNat := by
  refine ⟨fun h => ?_, fun h => h ▸ ofNat?_toNat s⟩
  unfold ofNat? at h
  split at h <;> cases h <;> rfl

theorem OrderType.ofNat?_eq_some_iff (n : Nat) (t : OrderType) :
    ofNat? n = some t ↔ n = t.toNat := by
  refine ⟨fun h => ?_, fun h => h ▸ ofNat?_toNat t⟩
  unfold ofNat? at h
  split at h <;> cases h <;> rfl

/-- A field of the binary form by its width, and whether it counts for what is read. -/
inductive Field
  | kept (width : Nat)
  | discarded (width : Nat)

def Field.mask : Field → List Bool
  | kept width => List.replicate width true
  | discarded width => List.replicate width false

namespace Instruction

open Reader (Exact)

/-- The side, the price, the quantity, the type and the client's identifier of an order. -/
def orderFields : List Field :=
  [.kept 4, .kept 8, .kept 8, .kept 4, .kept 8]

/-- The fields behind the tag. Not kept are the reserved word of the second version of a new order;
the largest quote quantity, the handling of self trades and the limit of matches of the third; and
the open-orders account of a queued cancellation with its slot. -/
def fields : Instruction → List Field
  | newOrder _ => orderFields
  | matchOrders _ => [.kept 2]
  | cancelOrder .. => [.kept 4, .kept 16, .discarded 32, .discarded 1]
  | cancelOrderByClientId _ | cancelOrderByClientIdV2 _ => [.kept 8]
  | newOrderV2 _ => orderFields ++ [.discarded 4]
  | newOrderV3 _ =>
    [.kept 4, .kept 8, .kept 8, .discarded 8, .discarded 4, .kept 4, .kept 8, .discarded 2]
  | cancelOrderV2 .. => [.kept 4, .kept 16]

def payloadMask (i : Instruction) : List Bool := i.fields.flatMap Field.mask

/-- Which bytes of an instruction are kept: the version, the tag and the fields that are. -/
def mask (i : Instruction) : List Bool :=
  ([Field.kept 1, .kept 4] ++ i.fields).flatMap Field.mask

theorem side_eq_code : side = Reader.code Side.ofNat? := by
  unfold side Reader.code
  congr 1
  funext n
  cases Side.ofNat? n.toNat <;> rfl

theorem orderType_eq_code : orderType = Reader.code OrderType.ofNat? := by
  unfold orderType Reader.code
  congr 1
  funext n
  cases OrderType.ofNat? n.toNat <;> rfl

theorem exact_side : Exact side encodeSide (List.replicate 4 true) := by
  rw [side_eq_code]
  exact .code Side.ofNat?_eq_some_iff fun s => by cases s <;> decide

theorem exact_orderType : Exact orderType encodeOrderType (List.replicate 4 true) := by
  rw [orderType_eq_code]
  exact .code OrderType.ofNat?_eq_some_iff fun t => by cases t <;> decide

theorem exact_params : Exact params encodeParams (orderFields.flatMap Field.mask) := by
  have h := ((((exact_side.pair .word64).pair .word64).pair exact_orderType).pair .word64).map
    (fun p => (⟨p.1.1.1.1, p.1.1.1.2, p.1.1.2, p.1.2, p.2⟩ : NewOrderParams))
    (fun p => ((((p.side, p.limitPrice), p.maxCoinQty), p.orderType), p.clientOrderId))
    (fun _ => rfl) (fun _ => rfl)
  have hreader : params =
      (fun p => (⟨p.1.1.1.1, p.1.1.1.2, p.1.1.2, p.1.2, p.2⟩ : NewOrderParams)) <$>
        (((side.pair .word64).pair .word64).pair orderType).pair .word64 := by
    simp [params, Reader.pair]
  rw [hreader]
  exact h

theorem exact_paramsV3 : Exact paramsV3 encodeParamsV3
    ([Field.kept 4, .kept 8, .kept 8, .discarded 8, .discarded 4, .kept 4, .kept 8,
      .discarded 2].flatMap Field.mask) := by
  have hpad : (List.replicate 8 0xff ++ List.replicate 4 0 : Bytes).length = 12 := rfl
  have hlimit : (List.replicate 2 0xff : Bytes).length = 2 := rfl
  have h := ((((((exact_side.pair .word64).pair .word64).pair (.skip hpad)).pair
    exact_orderType).pair .word64).pair (.skip hlimit)).map
    (fun p => (⟨p.1.1.1.1.1.1, p.1.1.1.1.1.2, p.1.1.1.1.2, p.1.1.2, p.1.2⟩ : NewOrderParams))
    (fun p =>
      ((((((p.side, p.limitPrice), p.maxCoinQty), ()), p.orderType), p.clientOrderId), ()))
    (fun _ => rfl) (fun _ => rfl)
  have hreader : paramsV3 =
      (fun p => (⟨p.1.1.1.1.1.1, p.1.1.1.1.1.2, p.1.1.1.1.2, p.1.1.2, p.1.2⟩ : NewOrderParams)) <$>
        ((((((side.pair .word64).pair .word64).pair (.skip 12)).pair orderType).pair .word64).pair
          (.skip 2)) := by
    simp [paramsV3, Reader.pair]
  have hwrite : encodeParamsV3 = fun p => encodeSide p.side ++ Bytes.ofWord p.limitPrice ++
      Bytes.ofWord p.maxCoinQty ++ (List.replicate 8 0xff ++ List.replicate 4 0) ++
      encodeOrderType p.orderType ++ Bytes.ofWord p.clientOrderId ++ List.replicate 2 0xff := by
    funext p
    simp only [encodeParamsV3, List.append_assoc]
  rw [hreader, hwrite]
  exact h

/-! ### Payloads -/

/-- A reader of the instructions with a tag. -/
def ReadsTag (tag : Nat) (r : Reader Instruction) : Prop :=
  ∀ bs i rest, r bs = some (i, rest) ↔ i.tag.toNat = tag ∧ ∃ front, front ++ rest = bs ∧
    front.length = i.payloadMask.length ∧ front.AgreeOn i.payloadMask i.encodePayload

theorem readsTag_map {α : Type} {r : Reader α} {f : α → Bytes} {m : List Bool} (h : r.Exact f m)
    {c : α → Instruction} {tag : Nat} (htag : ∀ i, i.tag.toNat = tag ↔ ∃ x, c x = i)
    (hwrite : ∀ x, (c x).encodePayload = f x) (hmask : ∀ x, (c x).payloadMask = m) :
    ReadsTag tag (c <$> r) := by
  intro bs i rest
  rw [Reader.map_apply, Option.map_eq_some_iff, htag]
  constructor
  · rintro ⟨⟨x, rest'⟩, hx, hi⟩
    cases hi
    rw [hmask, hwrite]
    exact ⟨⟨x, rfl⟩, (h.reads_iff _ _ _).mp hx⟩
  · rintro ⟨⟨x, rfl⟩, hfront⟩
    rw [hmask, hwrite] at hfront
    exact ⟨(x, rest), (h.reads_iff _ _ _).mpr hfront, rfl⟩

theorem readsTag_of_payload? {tag : Nat} {r : Reader Instruction} (h : payload? tag = some r) :
    ReadsTag tag r := by
  have hskip (n : Nat) : Exact (Reader.skip n) (fun _ => List.replicate n 0)
      (List.replicate n false) := .skip List.length_replicate
  unfold payload? at h
  split at h <;> cases h
  · simpa using readsTag_map exact_params (c := newOrder)
      (fun i => by cases i <;> simp [Instruction.tag]) (fun _ => rfl) (fun _ => rfl)
  · simpa using readsTag_map .word16 (c := matchOrders)
      (fun i => by cases i <;> simp [Instruction.tag]) (fun _ => rfl) (fun _ => rfl)
  · simpa [Reader.pair] using readsTag_map ((exact_side.pair .orderId).pair (hskip 33))
      (c := fun p => cancelOrder p.1.1 p.1.2)
      (fun i => by cases i <;> simp [Instruction.tag]) (fun _ => rfl) (fun _ => rfl)
  · simpa using readsTag_map .word64 (c := cancelOrderByClientId)
      (fun i => by cases i <;> simp [Instruction.tag]) (fun _ => rfl) (fun _ => rfl)
  · simpa [Reader.pair] using readsTag_map (exact_params.pair (hskip 4))
      (c := fun p => newOrderV2 p.1)
      (fun i => by cases i <;> simp [Instruction.tag]) (fun _ => rfl) (fun _ => rfl)
  · simpa using readsTag_map exact_paramsV3 (c := newOrderV3)
      (fun i => by cases i <;> simp [Instruction.tag]) (fun _ => rfl) (fun _ => rfl)
  · simpa [Reader.pair] using readsTag_map (exact_side.pair .orderId)
      (c := fun p => cancelOrderV2 p.1 p.2)
      (fun i => by cases i <;> simp [Instruction.tag]) (fun _ => rfl) (fun _ => rfl)
  · simpa using readsTag_map .word64 (c := cancelOrderByClientIdV2)
      (fun i => by cases i <;> simp [Instruction.tag]) (fun _ => rfl) (fun _ => rfl)

theorem exists_payload? (i : Instruction) : ∃ r, payload? i.tag.toNat = some r := by
  cases i <;> exact ⟨_, rfl⟩

theorem length_encodePayload (i : Instruction) :
    i.encodePayload.length = i.payloadMask.length := by
  cases i with
  | newOrder p => exact exact_params.length_write p
  | matchOrders limit => exact Exact.word16.length_write limit
  | cancelOrder side id => simp [encodePayload, encodeSide, payloadMask, fields, Field.mask]
  | cancelOrderByClientId id => exact Exact.word64.length_write id
  | newOrderV2 p => simp [encodePayload, exact_params.length_write, payloadMask, fields, Field.mask]
  | newOrderV3 p => exact exact_paramsV3.length_write p
  | cancelOrderV2 side id => exact (exact_side.pair .orderId).length_write (side, id)
  | cancelOrderByClientIdV2 id => exact Exact.word64.length_write id

theorem fields_eq_of_tag_eq {i j : Instruction} (h : i.tag = j.tag) : i.fields = j.fields := by
  cases i <;> cases j <;> first | rfl | exact absurd h (by simp [tag])

/-! ### Whole instructions -/

/-- The version and the tag, which stand before the fields. -/
def head (i : Instruction) : Bytes := 0 :: Bytes.littleEndian 4 i.tag.toNat

@[simp] theorem length_head (i : Instruction) : i.head.length = 5 := by simp [head]

theorem encode_eq (i : Instruction) : i.encode = i.head ++ i.encodePayload := rfl

theorem mask_eq (i : Instruction) : i.mask = List.replicate 5 true ++ i.payloadMask := rfl

theorem length_encode (i : Instruction) : i.encode.length = i.mask.length := by
  rw [encode_eq, mask_eq, List.length_append, List.length_append, length_encodePayload]
  simp

theorem tag_eq_of_head_eq {i j : Instruction} (h : i.head = j.head) : i.tag = j.tag := by
  have hvalue := congrArg Bytes.valueLE (List.cons.inj h).2
  have hlt (n : UInt32) : n.toNat < Nat.pow 256 4 := n.toNat_lt
  rw [Bytes.valueLE_littleEndian, Bytes.valueLE_littleEndian, Nat.mod_eq_of_lt (hlt _),
    Nat.mod_eq_of_lt (hlt _)] at hvalue
  exact UInt32.toNat_inj.mp hvalue

/-- Behind the head of an instruction stands what the reader for its tag reads. -/
theorem decode_head_append {i : Instruction} {r : Reader Instruction}
    (hr : payload? i.tag.toNat = some r) (rest : Bytes) :
    decode (i.head ++ rest) =
      match r.eval rest with
      | none => .error (.invalidPayload i.tag)
      | some j => .ok j := by
  cases heval : r.eval rest <;>
    simp only [decode, head, List.cons_append, ne_eq, not_true_eq_false, if_false,
      Exact.word32.read_append i.tag rest, hr, heval]

theorem decode_eq_ok_iff_payload {d : Bytes} {i : Instruction} :
    decode d = .ok i ↔ ∃ front rest, i.head ++ (front ++ rest) = d ∧
      front.length = i.payloadMask.length ∧ front.AgreeOn i.payloadMask i.encodePayload := by
  constructor
  · intro h
    unfold decode at h
    split at h
    · cases h
    · next version body =>
      split at h
      · cases h
      · next hversion =>
        split at h
        · cases h
        · next tag fields hword =>
          split at h
          · cases h
          · next r hr =>
            split at h
            · cases h
            · next j hj =>
              cases h
              obtain ⟨⟨j, rest⟩, hread, rfl⟩ := Option.map_eq_some_iff.mp hj
              obtain ⟨htag, front, rfl, hfront⟩ := (readsTag_of_payload? hr _ _ _).mp hread
              obtain ⟨bytes, rfl, hlen, hagree⟩ := (Exact.word32.reads_iff _ _ _).mp hword
              have hlen : bytes.length = 4 := by simpa using hlen
              obtain rfl := (Bytes.AgreeOn.kept_iff hlen (by simp)).mp hagree
              obtain rfl : version = 0 := not_not.mp hversion
              obtain rfl : j.tag = tag := UInt32.toNat_inj.mp htag
              exact ⟨front, rest, rfl, hfront⟩
  · rintro ⟨front, rest, rfl, hfront⟩
    obtain ⟨r, hr⟩ := i.exists_payload?
    have hread : r (front ++ rest) = some (i, rest) :=
      (readsTag_of_payload? hr _ _ _).mpr ⟨rfl, front, rfl, hfront⟩
    rw [decode_head_append hr, Reader.eval, hread]
    rfl

/-- Data is decoded as an instruction just if it is long enough and agrees with what is written for
the instruction on the bytes that are kept. -/
theorem decode_eq_ok_iff {d : Bytes} {i : Instruction} :
    decode d = .ok i ↔ i.encode.length ≤ d.length ∧ d.AgreeOn i.mask i.encode := by
  rw [decode_eq_ok_iff_payload]
  have hkept : i.head.length = (List.replicate 5 true).length := by simp
  constructor
  · rintro ⟨front, rest, rfl, hlen, hagree⟩
    refine ⟨?_, ?_⟩
    · simp [encode_eq, length_encodePayload, hlen]
    · rw [mask_eq, encode_eq, Bytes.AgreeOn.append_iff hkept hkept]
      refine ⟨.refl _ _, ?_⟩
      exact (Bytes.AgreeOn.append_left_iff hlen i.length_encodePayload).mpr hagree
  · rintro ⟨hlen, hagree⟩
    rw [encode_eq, List.length_append, length_head, length_encodePayload] at hlen
    have hfirst : (d.take 5).length = 5 := by
      rw [List.length_take]
      omega
    have hfront : ((d.drop 5).take i.payloadMask.length).length = i.payloadMask.length := by
      rw [List.length_take, List.length_drop]
      omega
    rw [mask_eq, encode_eq, ← List.take_append_drop 5 d,
      Bytes.AgreeOn.append_iff (by simpa using hfirst) hkept,
      Bytes.AgreeOn.kept_iff hfirst i.length_head] at hagree
    obtain ⟨hhead, hagree⟩ := hagree
    refine ⟨(d.drop 5).take i.payloadMask.length, (d.drop 5).drop i.payloadMask.length, ?_,
      hfront, ?_⟩
    · rw [List.take_append_drop, ← hhead, List.take_append_drop]
    · rw [← List.take_append_drop i.payloadMask.length (d.drop 5),
        Bytes.AgreeOn.append_left_iff hfront i.length_encodePayload] at hagree
      exact hagree

theorem decode_of_length_lt {i : Instruction} {p : Bytes} (hp : p <+: i.head)
    (hlt : p.length < 5) : decode p = .error .tooShort := by
  cases p with
  | nil => rfl
  | cons version body =>
    obtain rfl : version = 0 := (List.cons_prefix_cons.mp hp).1
    have hword : Reader.word32 body = none := by
      refine Exact.word32.eq_none_of_length_lt ?_
      rw [List.length_cons] at hlt
      rw [List.length_replicate]
      omega
    simp [decode, hword]

theorem decode_head_append_of_length_lt {i : Instruction} {q : Bytes}
    (hlt : q.length < i.encodePayload.length) :
    decode (i.head ++ q) = .error (.invalidPayload i.tag) := by
  obtain ⟨r, hr⟩ := i.exists_payload?
  -- all instructions with one tag have payloads of one length
  have hread : r q = none := by
    refine Option.eq_none_iff_forall_ne_some.mpr ?_
    rintro ⟨j, rest⟩ hj
    obtain ⟨htag, front, rfl, hlen, _⟩ := (readsTag_of_payload? hr _ _ _).mp hj
    rw [payloadMask, fields_eq_of_tag_eq (UInt32.toNat_inj.mp htag), ← payloadMask,
      ← length_encodePayload] at hlen
    rw [List.length_append] at hlt
    omega
  rw [decode_head_append hr, Reader.eval, hread]
  rfl

/-- Data that ends before the fields do is refused. -/
theorem decode_of_cut {i : Instruction} {p : Bytes} (hp : p <+: i.encode) (hne : p ≠ i.encode) :
    decode p = .error (if p.length < 5 then .tooShort else .invalidPayload i.tag) := by
  have hhead : i.head <+: i.encode := List.prefix_append _ _
  by_cases hlt : p.length < 5
  · have hcut : p <+: i.head :=
      List.prefix_of_prefix_length_le hp hhead (by rw [length_head]; omega)
    rw [if_pos hlt, decode_of_length_lt hcut hlt]
  · obtain ⟨q, rfl⟩ : i.head <+: p :=
      List.prefix_of_prefix_length_le hhead hp (by rw [length_head]; omega)
    have hshort : (i.head ++ q).length < i.encode.length :=
      Nat.lt_of_le_of_ne hp.length_le fun hlen => hne (hp.eq_of_length hlen)
    rw [encode_eq, List.length_append, List.length_append] at hshort
    rw [if_neg hlt, decode_head_append_of_length_lt (by omega)]

/-- Instructions that are decoded from data with the same kept bytes have the same tag. -/
theorem tag_eq_of_agreeOn {d : Bytes} {i j : Instruction} (h : decode d = .ok j)
    (hagree : d.AgreeOn i.mask i.encode) : j.tag = i.tag := by
  obtain ⟨front, rest, rfl, _⟩ := decode_eq_ok_iff_payload.mp h
  rw [mask_eq, encode_eq, Bytes.AgreeOn.append_iff (by simp) (by simp),
    Bytes.AgreeOn.kept_iff j.length_head i.length_head] at hagree
  exact tag_eq_of_head_eq hagree.1

theorem eq_iff_agreeOn {d e : Bytes} {i j : Instruction} (hd : decode d = .ok i)
    (he : decode e = .ok j) : i = j ↔ d.AgreeOn i.mask e := by
  obtain ⟨_, hdi⟩ := decode_eq_ok_iff.mp hd
  obtain ⟨hlen, hej⟩ := decode_eq_ok_iff.mp he
  constructor
  · rintro rfl
    exact hdi.trans hej.symm
  · intro hde
    have hei : e.AgreeOn i.mask i.encode := hde.symm.trans hdi
    have htag : j.tag = i.tag := tag_eq_of_agreeOn he hei
    have hsame : i.encode.length = j.encode.length := by
      rw [length_encode, length_encode, mask, mask, fields_eq_of_tag_eq htag]
    have hi : decode e = .ok i := decode_eq_ok_iff.mpr ⟨hsame ▸ hlen, hei⟩
    exact Except.ok.inj (hi.symm.trans he)

/-- The decoder is the inverse of writing and reads a front of the data that tells its own length:
what stands behind is ignored, no proper part of it is accepted, and of the front just the bytes
that are kept count. -/
theorem decode_reads_front (i : Instruction) :
    (∀ rest, decode (i.encode ++ rest) = .ok i) ∧
    (∀ p, p <+: i.encode → p ≠ i.encode →
      decode p = .error (if p.length < 5 then .tooShort else .invalidPayload i.tag)) ∧
    (∀ d, decode d = .ok i ↔ i.encode.length ≤ d.length ∧ d.AgreeOn i.mask i.encode) ∧
    (∀ d e j, decode d = .ok i → decode e = .ok j → (i = j ↔ d.AgreeOn i.mask e)) := by
  refine ⟨fun rest => ?_, fun p hp hne => decode_of_cut hp hne, fun d => decode_eq_ok_iff,
    fun d e j hd he => eq_iff_agreeOn hd he⟩
  refine decode_eq_ok_iff.mpr ⟨?_, ?_⟩
  · rw [List.length_append]
    exact Nat.le_add_right _ _
  · exact (Bytes.AgreeOn.append_left_iff i.length_encode i.length_encode).mpr (.refl _ _)

/-- A queued cancellation with another account in it, and with bytes behind it. -/
example : decode ((cancelOrder .ask ⟨3, 7⟩).encode.take 25 ++ List.replicate 33 9 ++ [1, 2]) =
    .ok (.cancelOrder .ask ⟨3, 7⟩) := by
  decide

end Instruction

end DexIndex
