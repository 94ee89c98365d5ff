import DocumentBase.Proofs.Json.Written

/-!
# DocumentBase.Proofs.Json.Rearranged

The texts that may be written for a value.  Nothing says in which order the fields of an object are
written, so a value has many texts: those of its rearrangements.  All of them nest as deeply.
-/

namespace DocumentBase.Json

mutual

/-- Another value with the same fields in another order, in every object at any depth. -/
def Rearranges : Json → Json → Prop
  | array items, other => ∃ others, other = array others ∧ RearrangesItems items others
  | object fields, other =>
    ∃ front others, other = object others ∧ RearrangesFields fields front ∧ front.Perm others
  | null, other => other = null
  | bool b, other => other = bool b
  | number n, other => other = number n
  | string s, other => other = string s

/-- The items are rearranged one by one. -/
def RearrangesItems : List Json → List Json → Prop
  | [], others => others = []
  | item :: rest, others =>
    ∃ first back, others = first :: back ∧ Rearranges item first ∧ RearrangesItems rest back

/-- The values of the fields are rearranged one by one. -/
def RearrangesFields : List (String × Json) → List (String × Json) → Prop
  | [], others => others = []
  | (name, value) :: rest, others =>
    ∃ first back, others = (name, first) :: back ∧ Rearranges value first
      ∧ RearrangesFields rest back

end

/-- A text that may be written for a value. -/
def Written (json : Json) (text : List UInt8) : Prop :=
  ∃ other, json.Rearranges other ∧ text = Utf8.encode other.chars

mutual

/-- The order in which a value's fields are is one of their orders. -/
theorem rearranges_self : (json : Json) → json.Rearranges json
  | .null | .bool _ | .number _ | .string _ => by simp [Rearranges]
  | .array items => by
    rw [Rearranges]
    exact ⟨items, rfl, rearrangesItems_self items⟩
  | .object fields => by
    rw [Rearranges]
    exact ⟨fields, fields, rfl, rearrangesFields_self fields, .refl _⟩

theorem rearrangesItems_self : (items : List Json) → RearrangesItems items items
  | [] => by simp [RearrangesItems]
  | item :: rest => by
    rw [RearrangesItems]
    exact ⟨item, rest, rfl, rearranges_self item, rearrangesItems_self rest⟩

theorem rearrangesFields_self : (fields : List (String × Json)) → RearrangesFields fields fields
  | [] => by simp [RearrangesFields]
  | (name, value) :: rest => by
    rw [RearrangesFields]
    exact ⟨value, rest, rfl, rearranges_self value, rearrangesFields_self rest⟩

end

/-- The text of a value itself is one that may be written. -/
theorem written_self (json : Json) : json.Written (Utf8.encode json.chars) :=
  ⟨json, rearranges_self json, rfl⟩

/-! ## Nesting -/

/-- How deep some fields are does not depend on their order. -/
theorem fieldsNesting_perm {fields others : List (String × Json)} (perm : fields.Perm others) :
    fieldsNesting others = fieldsNesting fields := by
  refine Nat.le_antisymm (fieldsNesting_le_iff.2 fun field hf => ?_)
    (fieldsNesting_le_iff.2 fun field hf => ?_)
  · exact fieldsNesting_le_iff.1 (Nat.le_refl _) field (perm.mem_iff.2 hf)
  · exact fieldsNesting_le_iff.1 (Nat.le_refl _) field (perm.mem_iff.1 hf)

mutual

/-- How deep a value is does not depend on the order of its fields. -/
theorem nesting_rearranged : {json : Json} → {other : Json} → json.Rearranges other →
    other.nesting = json.nesting
  | .null, _, h | .bool _, _, h | .number _, _, h | .string _, _, h => by
    rw [Rearranges] at h
    rw [h]
  | .array items, _, h => by
    rw [Rearranges] at h
    obtain ⟨others, rfl, same⟩ := h
    rw [nesting, nesting, itemsNesting_rearranged same]
  | .object fields, _, h => by
    rw [Rearranges] at h
    obtain ⟨front, others, rfl, same, perm⟩ := h
    rw [nesting, nesting, fieldsNesting_perm perm, fieldsNesting_rearranged same]

theorem itemsNesting_rearranged : {items : List Json} → {others : List Json} →
    RearrangesItems items others → itemsNesting others = itemsNesting items
  | [], _, h => by
    rw [RearrangesItems] at h
    rw [h]
  | item :: rest, _, h => by
    rw [RearrangesItems] at h
    obtain ⟨first, back, rfl, head, tail⟩ := h
    rw [itemsNesting, itemsNesting, nesting_rearranged head, itemsNesting_rearranged tail]

theorem fieldsNesting_rearranged : {fields : List (String × Json)} →
    {others : List (String × Json)} → RearrangesFields fields others →
    fieldsNesting others = fieldsNesting fields
  | [], _, h => by
    rw [RearrangesFields] at h
    rw [h]
  | (name, value) :: rest, _, h => by
    rw [RearrangesFields] at h
    obtain ⟨first, back, rfl, head, tail⟩ := h
    rw [fieldsNesting, fieldsNesting, nesting_rearranged head, fieldsNesting_rearranged tail]

end

end DocumentBase.Json
