import DexIndex.Json.Record
import DexIndex.Proofs.Json.RoundTrip
import DexIndex.Proofs.Lists

/-!
# Records read back

The fields of an object are found by their names (`record?_ofFields`), values are read as what was
written, and a value that was written is sound and as deep as its parts make it.
-/

namespace DexIndex.Json

/-! ### Scalars -/

@[simp] theorem text?_ofText (s : String) : (ofText s).text? = some s := textOf?_escape s

@[simp] theorem natBelow?_ofNat {bound n : Nat} (h : n < bound) :
    (ofNat n).natBelow? bound = some n := by
  simp [ofNat, natBelow?, Numeral.nat?, Numeral.ofNat, h]

@[simp] theorem byte?_ofNat (b : UInt8) : (ofNat b.toNat).byte? = some b := by
  rw [byte?, natBelow?_ofNat b.toNat_lt, Option.map_some, UInt8.ofNat_toNat]

@[simp] theorem word64?_ofNat (n : UInt64) : (ofNat n.toNat).word64? = some n := by
  rw [word64?, natBelow?_ofNat n.toNat_lt, Option.map_some, UInt64.ofNat_toNat]

theorem choice?_ofText {α : Type} (choices : List (String × α)) (s : String) :
    choice? choices (ofText s) = choices.lookup s := by
  simp [choice?, ofText, textOf?_escape]

/-! ### Lists and records -/

theorem listOf?_array {α : Type} {read : Json → Option α} {write : α → Json}
    (h : ∀ x, read (write x) = some x) (xs : List α) :
    listOf? read (.array (xs.map write)) = some xs := by
  rw [listOf?, List.mapM_map]
  exact (Lists.mapM_eq_some fun x _ => h x).trans (congrArg some (List.map_id' xs))

theorem named?_namedFields (fields : List (String × Json)) :
    named? (namedFields fields) = some fields := by
  rw [named?, namedFields, List.mapM_map]
  refine (Lists.mapM_eq_some fun f _ => ?_).trans (congrArg some (List.map_id' fields))
  change (textOf? (escape (Utf8.encode f.1))).map (·, f.2) = some f
  rw [textOf?_escape, Option.map_some]

theorem field?_eq {fields : List (String × Json)} (h : (fields.map (·.1)).Nodup) (name : String) :
    field? fields name = some (fields.lookup name) := by
  unfold field?
  induction fields with
  | nil => rfl
  | cons f fields ih =>
    obtain ⟨hf, hfields⟩ := List.nodup_cons.mp h
    by_cases hname : f.1 = name
    · have hnone : fields.filter (·.1 == name) = [] := by
        refine List.filter_eq_nil_iff.mpr fun g hg heq => hf ?_
        have hg' := List.mem_map_of_mem (f := (·.1)) hg
        rwa [eq_of_beq heq, ← hname] at hg'
      rw [List.filter_cons_of_pos (by simpa using hname), hnone, List.lookup_cons, ← hname]
      simp
    · rw [List.filter_cons_of_neg (by simpa using hname), ih hfields, List.lookup_cons,
        beq_eq_false_iff_ne.mpr (Ne.symm hname)]

theorem ofFields_eq (fields : List (String × Json)) :
    ofFields fields = .object (namedFields fields) := rfl

/-- Fields that stand once are found by their names. -/
theorem record?_ofFields {fields : List (String × Json)} (h : (fields.map (·.1)).Nodup)
    (names : List String) :
    record? names (ofFields fields) = some (names.map fun name => fields.lookup name) := by
  rw [ofFields_eq, record?, named?_namedFields, Option.bind_some]
  exact Lists.mapM_eq_some fun name _ => field?_eq h name

/-- A record whose first field is the tag. -/
theorem tagged?_ofFields {tag kind : String} {fields : List (String × Json)}
    (h : (tag :: fields.map (·.1)).Nodup) :
    tagged? tag (ofFields ((tag, ofText kind) :: fields)) = some (kind, ofFields fields) := by
  have hrest : (namedFields fields).filter (fun f => textOf? f.1 != some tag) =
      namedFields fields := by
    refine List.filter_eq_self.mpr fun f hf => ?_
    obtain ⟨g, hg, rfl⟩ := List.mem_map.mp hf
    have hne : g.1 ≠ tag := fun heq =>
      (List.nodup_cons.mp h).1 (heq ▸ List.mem_map_of_mem hg)
    simpa [textOf?_escape] using hne
  have hfind : field? ((tag, ofText kind) :: fields) tag = some (some (ofText kind)) := by
    have hnodup : (((tag, ofText kind) :: fields).map (·.1)).Nodup := h
    rw [field?_eq hnodup, List.lookup_cons, beq_self_eq_true]
  rw [ofFields_eq, tagged?, named?_namedFields]
  simp only [Option.bind_eq_bind, Option.bind_some, hfind, required?, text?_ofText]
  rw [namedFields, List.map_cons, List.filter_cons_of_neg (by simp [textOf?_escape])]
  exact congrArg (fun fields => some (kind, object fields)) hrest

/-! ### Soundness and depth -/

theorem soundItems_iff (items : List Json) : soundItems items ↔ ∀ v ∈ items, v.sound := by
  induction items with
  | nil => simp [soundItems]
  | cons v items ih => simp [soundItems, ih]

theorem soundFields_namedFields (fields : List (String × Json)) :
    soundFields (namedFields fields) ↔ ∀ f ∈ fields, f.2.sound := by
  induction fields with
  | nil => simp [soundFields, namedFields]
  | cons f fields ih =>
    rw [namedFields] at ih
    simp [soundFields, namedFields, textOf?_escape, ih]

theorem Written.sound {j : Json} (h : Written j) : j.sound := by
  induction h with
  | bool b => rfl
  | nat h => exact Numeral.finite_ofNat h
  | text s => simp [ofText, Json.sound, textOf?_escape]
  | array _ ih => exact (soundItems_iff _).mpr ih
  | object _ ih => exact (soundFields_namedFields _).mpr ih

theorem depth_array_le {items : List Json} {n : Nat} (h : ∀ v ∈ items, v.depth ≤ n) :
    (array items).depth ≤ n + 1 := by
  have hitems : depthItems items ≤ n := by
    induction items with
    | nil => simp [depthItems]
    | cons v items ih =>
      obtain ⟨hv, hrest⟩ := List.forall_mem_cons.mp h
      rw [depthItems]
      exact Nat.max_le.mpr ⟨hv, ih hrest⟩
  rw [depth]
  omega

theorem depth_ofFields_le {fields : List (String × Json)} {n : Nat}
    (h : ∀ f ∈ fields, f.2.depth ≤ n) : (ofFields fields).depth ≤ n + 1 := by
  have hfields : depthFields (namedFields fields) ≤ n := by
    induction fields with
    | nil => simp [depthFields, namedFields]
    | cons f fields ih =>
      obtain ⟨hf, hrest⟩ := List.forall_mem_cons.mp h
      rw [namedFields, List.map_cons, depthFields]
      exact Nat.max_le.mpr ⟨hf, ih hrest⟩
  rw [ofFields_eq, depth]
  omega

end DexIndex.Json
