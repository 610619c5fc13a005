import DexIndex.Chain.Block
import DexIndex.Proofs.Event.Json

/-!
# Blocks read back

The JSON form of a block is read as this block (`Block.ofJson?_toJson`), with all its transactions,
and is a value as it is written (`Block.written_toJson`).
-/

namespace DexIndex

open Json

theorem Json.Written.listOf {α : Type} {write : α → Json} {xs : List α}
    (h : ∀ x, Written (write x)) : Written (.array (xs.map write)) := by
  refine .array fun v hv => ?_
  obtain ⟨x, _, rfl⟩ := List.mem_map.mp hv
  exact h x

@[simp] theorem Json.bytes?_ofBytes (bs : Bytes) : (ofBytes bs).bytes? = some bs :=
  listOf?_array byte?_ofNat bs

theorem Json.Written.bytes (bs : Bytes) : Written (ofBytes bs) := .listOf .byte

/-! ### Parts of a transaction -/

theorem AccountChange.ofJson?_toJson (c : AccountChange) : ofJson? c.toJson = some c := by
  rw [ofJson?, toJson, record?_ofFields (by simp)]
  simp [List.lookup_cons, required?, optional?]

theorem AccountChange.written_toJson (c : AccountChange) : Written c.toJson := by
  refine .object ?_
  simp only [List.forall_mem_cons, List.not_mem_nil, false_imp_iff, implies_true, and_true]
  exact ⟨.text _, .bytes _, .bytes _⟩

theorem Invocation.ofJson?_toJson (i : Invocation) : ofJson? i.toJson = some i := by
  rw [ofJson?, toJson, record?_ofFields (by simp)]
  simp [List.lookup_cons, required?, optional?, listOf?_array AccountChange.ofJson?_toJson]

theorem Invocation.written_toJson (i : Invocation) : Written i.toJson := by
  refine .object ?_
  simp only [List.forall_mem_cons, List.not_mem_nil, false_imp_iff, implies_true, and_true]
  exact ⟨.byte _, .bytes _, .bytes _, .listOf AccountChange.written_toJson⟩

theorem MessageHeader.ofJson?_toJson (h : MessageHeader) : ofJson? h.toJson = some h := by
  rw [ofJson?, toJson, record?_ofFields (by simp)]
  simp [List.lookup_cons, required?]

theorem MessageHeader.written_toJson (h : MessageHeader) : Written h.toJson := by
  refine .object ?_
  simp only [List.forall_mem_cons, List.not_mem_nil, false_imp_iff, implies_true, and_true]
  exact ⟨.byte _, .byte _, .byte _⟩

/-! ### Transactions and blocks -/

theorem Transaction.ofJson?_toJson (t : Transaction) : ofJson? t.toJson = some t := by
  rw [ofJson?, toJson, record?_ofFields (by simp)]
  simp [List.lookup_cons, required?, optional?, bool?, MessageHeader.ofJson?_toJson,
    listOf?_array PublicKey.ofJson?_toJson, listOf?_array Invocation.ofJson?_toJson]

theorem Transaction.written_toJson (t : Transaction) : Written t.toJson := by
  refine .object ?_
  simp only [List.forall_mem_cons, List.not_mem_nil, false_imp_iff, implies_true, and_true]
  exact ⟨.text _, .word _, .bool _, t.header.written_toJson, .listOf fun _ => .text _,
    .listOf Invocation.written_toJson⟩

namespace Block

theorem ofJson?_toJson (b : Block) : ofJson? b.toJson = some b := by
  rw [ofJson?, toJson, record?_ofFields (by simp)]
  simp [List.lookup_cons, required?, optional?, listOf?_array Transaction.ofJson?_toJson]

theorem written_toJson (b : Block) : Written b.toJson := by
  refine .object ?_
  simp only [List.forall_mem_cons, List.not_mem_nil, false_imp_iff, implies_true, and_true]
  exact ⟨.word _, .text _, .text _, .text _, .listOf Transaction.written_toJson⟩

end Block

end DexIndex
