import DocumentBase.Document
import DocumentBase.Proofs.Json.Rearranged

/-!
# DocumentBase.Proofs.Document.Nulls

What a document loses as JSON.  A number that is not finite becomes null, at any depth, and nothing
else changes (`withNulls`); a document is equal to what is left of it exactly when it is finite.
Whatever text is written for a value, this is the value its tree stands for (`ofTree_rearranged`).
-/

namespace DocumentBase

namespace Value

mutual

/-- The value with null in place of every number that is not finite. -/
def withNulls : Value → Value
  | number (.finite x) => number (.finite x)
  | number .nan | number (.infinite _) => null
  | array items => array (itemsWithNulls items)
  | object fields => object (fieldsWithNulls fields)
  | null => null
  | bool b => bool b
  | string s => string s

def itemsWithNulls : List Value → List Value
  | [] => []
  | item :: rest => item.withNulls :: itemsWithNulls rest

def fieldsWithNulls : List (String × Value) → List (String × Value)
  | [] => []
  | (name, value) :: rest => (name, value.withNulls) :: fieldsWithNulls rest

end

mutual

/-- How many containers are nested in one another. -/
def nesting : Value → Nat
  | array items => 1 + itemsNesting items
  | object fields => 1 + fieldsNesting fields
  | null | bool _ | number _ | string _ => 0

/-- The deepest nesting among some items. -/
def itemsNesting : List Value → Nat
  | [] => 0
  | item :: rest => max item.nesting (itemsNesting rest)

/-- The deepest nesting among some fields. -/
def fieldsNesting : List (String × Value) → Nat
  | [] => 0
  | (_, value) :: rest => max value.nesting (fieldsNesting rest)

end

theorem fieldsWithNulls_eq_map (fields : List (String × Value)) :
    fieldsWithNulls fields = fields.map fun field => (field.1, field.2.withNulls) :=
  Fields.eq_map rfl (fun (_, _) _ => rfl) fields

/-- Fields that are in order stay in order, for only their values change. -/
theorem fieldsWithNulls_ascending {fields : List (String × Value)}
    (h : Fields.Ascending fields) : Fields.Ascending (fieldsWithNulls fields) := by
  rw [fieldsWithNulls_eq_map]
  exact List.pairwise_map.2 h

/-! ## Order -/

mutual

theorem ordered_withNulls : {value : Value} → value.Ordered → value.withNulls.Ordered
  | number x, _ => by cases x <;> simp [withNulls, Ordered]
  | null, _ | bool _, _ | string _, _ => by simp [withNulls, Ordered]
  | array items, h => by
    rw [Ordered] at h
    rw [withNulls, Ordered]
    exact ordered_itemsWithNulls h
  | object fields, h => by
    rw [Ordered] at h
    rw [withNulls, Ordered]
    exact ⟨fieldsWithNulls_ascending h.1, ordered_fieldsWithNulls h.2⟩

theorem ordered_itemsWithNulls : {items : List Value} → OrderedItems items →
    OrderedItems (itemsWithNulls items)
  | [], _ => by simp [itemsWithNulls, OrderedItems]
  | item :: rest, h => by
    rw [OrderedItems] at h
    rw [itemsWithNulls, OrderedItems]
    exact ⟨ordered_withNulls h.1, ordered_itemsWithNulls h.2⟩

theorem ordered_fieldsWithNulls : {fields : List (String × Value)} → OrderedFields fields →
    OrderedFields (fieldsWithNulls fields)
  | [], _ => by simp [fieldsWithNulls, OrderedFields]
  | (_, value) :: rest, h => by
    rw [OrderedFields] at h
    rw [fieldsWithNulls, OrderedFields]
    exact ⟨ordered_withNulls h.1, ordered_fieldsWithNulls h.2⟩

end

mutual

/-- A value in order is put in order by nothing. -/
theorem canonical_of_ordered : {value : Value} → value.Ordered → value.canonical = value
  | null, _ | bool _, _ | number _, _ | string _, _ => by simp [canonical]
  | array items, h => by
    rw [Ordered] at h
    rw [canonical, canonicalItems_of_ordered h]
  | object fields, h => by
    rw [Ordered] at h
    rw [canonical, canonicalFields_of_ordered h.2, Fields.ofEntries_perm h.1 (.refl _)]

theorem canonicalItems_of_ordered : {items : List Value} → OrderedItems items →
    canonicalItems items = items
  | [], _ => by simp [canonicalItems]
  | item :: rest, h => by
    rw [OrderedItems] at h
    rw [canonicalItems, canonical_of_ordered h.1, canonicalItems_of_ordered h.2]

theorem canonicalFields_of_ordered : {fields : List (String × Value)} → OrderedFields fields →
    canonicalFields fields = fields
  | [], _ => by simp [canonicalFields]
  | (name, value) :: rest, h => by
    rw [OrderedFields] at h
    rw [canonicalFields, canonical_of_ordered h.1, canonicalFields_of_ordered h.2]

end

/-! ## Equality -/

mutual

/-- What is left of a value is equal to the value exactly when nothing was lost. -/
theorem eq_withNulls : (value : Value) → value.withNulls.eq value = value.isFinite
  | null => rfl
  | bool b => by simp [withNulls, eq, isFinite]
  | string s => by simp [withNulls, eq, isFinite]
  | number x => by
    cases x with
    | finite x => simp [withNulls, eq, isFinite, Number.eq, Number.rank?, Number.isFinite]
    | nan => rfl
    | infinite negative => rfl
  | array items => by
    rw [withNulls, eq, isFinite]
    exact eqItems_withNulls items
  | object fields => by
    rw [withNulls, eq, isFinite]
    exact eqFields_withNulls fields

theorem eqItems_withNulls : (items : List Value) →
    eqItems (itemsWithNulls items) items = itemsFinite items
  | [] => rfl
  | item :: rest => by
    rw [itemsWithNulls, eqItems, itemsFinite, eq_withNulls item, eqItems_withNulls rest]

theorem eqFields_withNulls : (fields : List (String × Value)) →
    eqFields (fieldsWithNulls fields) fields = fieldsFinite fields
  | [] => rfl
  | (name, value) :: rest => by
    rw [fieldsWithNulls, eqFields, fieldsFinite, eq_withNulls value, eqFields_withNulls rest,
      beq_self_eq_true, Bool.true_and]

end

mutual

/-- A finite value loses nothing. -/
theorem withNulls_of_finite : {value : Value} → value.isFinite → value.withNulls = value
  | null, _ | bool _, _ | string _, _ => by simp [withNulls]
  | number x, h => by
    cases x with
    | finite x => rfl
    | nan => cases h
    | infinite negative => cases h
  | array items, h => by
    rw [isFinite] at h
    rw [withNulls, itemsWithNulls_of_finite h]
  | object fields, h => by
    rw [isFinite] at h
    rw [withNulls, fieldsWithNulls_of_finite h]

theorem itemsWithNulls_of_finite : {items : List Value} → itemsFinite items →
    itemsWithNulls items = items
  | [], _ => by simp [itemsWithNulls]
  | item :: rest, h => by
    rw [itemsFinite, Bool.and_eq_true] at h
    rw [itemsWithNulls, withNulls_of_finite h.1, itemsWithNulls_of_finite h.2]

theorem fieldsWithNulls_of_finite : {fields : List (String × Value)} → fieldsFinite fields →
    fieldsWithNulls fields = fields
  | [], _ => by simp [fieldsWithNulls]
  | (_, value) :: rest, h => by
    rw [fieldsFinite, Bool.and_eq_true] at h
    rw [fieldsWithNulls, withNulls_of_finite h.1, fieldsWithNulls_of_finite h.2]

end

mutual

/-- What is left of a value is finite. -/
@[simp] theorem isFinite_withNulls : (value : Value) → value.withNulls.isFinite
  | null | bool _ | string _ => rfl
  | number x => by cases x <;> rfl
  | array items => by
    rw [withNulls, isFinite]
    exact itemsFinite_withNulls items
  | object fields => by
    rw [withNulls, isFinite]
    exact fieldsFinite_withNulls fields

theorem itemsFinite_withNulls : (items : List Value) → itemsFinite (itemsWithNulls items)
  | [] => rfl
  | item :: rest => by
    rw [itemsWithNulls, itemsFinite, isFinite_withNulls item, itemsFinite_withNulls rest]
    rfl

theorem fieldsFinite_withNulls : (fields : List (String × Value)) →
    fieldsFinite (fieldsWithNulls fields)
  | [] => rfl
  | (_, value) :: rest => by
    rw [fieldsWithNulls, fieldsFinite, isFinite_withNulls value, fieldsFinite_withNulls rest]
    rfl

end

/-! ## Plain JSON and trees -/

/- Fields may come back in any order, and reading puts them in order again.  So a value that is in
order is read back from every rearrangement of its plain JSON. -/

mutual

/-- The text of a value is that of its plain JSON. -/
@[simp] theorem chars_toJson : (value : Value) → value.toJson.chars = value.chars
  | null | bool _ | string _ => by simp [toJson, chars, Json.chars]
  | number x => by cases x <;> simp [toJson, numberToJson, chars, numberChars, Json.chars,
      Json.numeralChars]
  | array items => by rw [toJson, chars, Json.chars, itemsChars_toJson items]
  | object fields => by rw [toJson, chars, Json.chars, fieldsChars_toJson fields]

theorem itemsChars_toJson : (items : List Value) →
    Json.itemsChars (itemsToJson items) = itemsChars items
  | [] => rfl
  | item :: rest => by
    rw [itemsToJson, Json.itemsChars, itemsChars, chars_toJson item, itemsChars_toJson rest]

theorem fieldsChars_toJson : (fields : List (String × Value)) →
    Json.fieldsChars (fieldsToJson fields) = fieldsChars fields
  | [] => rfl
  | (name, value) :: rest => by
    rw [fieldsToJson, Json.fieldsChars, fieldsChars, chars_toJson value, fieldsChars_toJson rest]

end

mutual

/-- A value is nested as deep as its plain JSON. -/
@[simp] theorem nesting_toJson : (value : Value) → value.toJson.nesting = value.nesting
  | null | bool _ | string _ => by simp [toJson, nesting, Json.nesting]
  | number x => by cases x <;> simp [toJson, numberToJson, nesting, Json.nesting]
  | array items => by rw [toJson, nesting, Json.nesting, itemsNesting_toJson items]
  | object fields => by rw [toJson, nesting, Json.nesting, fieldsNesting_toJson fields]

theorem itemsNesting_toJson : (items : List Value) →
    Json.itemsNesting (itemsToJson items) = itemsNesting items
  | [] => rfl
  | item :: rest => by
    rw [itemsToJson, Json.itemsNesting, itemsNesting, nesting_toJson item,
      itemsNesting_toJson rest]

theorem fieldsNesting_toJson : (fields : List (String × Value)) →
    Json.fieldsNesting (fieldsToJson fields) = fieldsNesting fields
  | [] => rfl
  | (name, value) :: rest => by
    rw [fieldsToJson, Json.fieldsNesting, fieldsNesting, nesting_toJson value,
      fieldsNesting_toJson rest]

end

/-- The entries that are read of some fields. -/
theorem ofTreeEntries_eq_map (fields : List (String × Json)) :
    ofTreeEntries (Json.fieldsToTrees fields)
      = fields.map fun field => (field.1, ofTree field.2.toTree) :=
  Fields.eq_map (f := fun fields => ofTreeEntries (Json.fieldsToTrees fields)) rfl
    (fun (_, _) _ => rfl) fields

mutual

/-- Whatever text is written for a value, what it stands for is the value with its nulls. -/
theorem ofTree_rearranged : {value : Value} → {other : Json} → value.Ordered →
    value.toJson.Rearranges other → ofTree other.toTree = value.withNulls
  | null, _, _, h | bool _, _, _, h | string _, _, _, h => by
    rw [toJson, Json.Rearranges] at h
    rw [h]
    rfl
  | number x, _, _, h => by
    cases x <;>
    · rw [toJson, numberToJson, Json.Rearranges] at h
      rw [h]
      rfl
  | array items, _, ordered, h => by
    rw [Ordered] at ordered
    rw [toJson, Json.Rearranges] at h
    obtain ⟨others, rfl, same⟩ := h
    rw [Json.toTree, ofTree, withNulls, ofTrees_rearranged ordered same]
  | object fields, _, ordered, h => by
    rw [Ordered] at ordered
    rw [toJson, Json.Rearranges] at h
    obtain ⟨front, others, rfl, same, perm⟩ := h
    have entries := ofTreeEntries_rearranged ordered.2 same
    have others_perm :
        (fieldsWithNulls fields).Perm (ofTreeEntries (Json.fieldsToTrees others)) := by
      rw [← entries, ofTreeEntries_eq_map, ofTreeEntries_eq_map]
      exact perm.map _
    rw [Json.toTree, ofTree, withNulls,
      Fields.ofEntries_perm (fieldsWithNulls_ascending ordered.1) others_perm]

theorem ofTrees_rearranged : {items : List Value} → {others : List Json} → OrderedItems items →
    Json.RearrangesItems (itemsToJson items) others →
    ofTrees (Json.itemsToTrees others) = itemsWithNulls items
  | [], _, _, h => by
    rw [itemsToJson, Json.RearrangesItems] at h
    rw [h]
    rfl
  | item :: rest, _, ordered, h => by
    rw [OrderedItems] at ordered
    rw [itemsToJson, Json.RearrangesItems] at h
    obtain ⟨first, back, rfl, head, tail⟩ := h
    rw [Json.itemsToTrees, ofTrees, itemsWithNulls, ofTree_rearranged ordered.1 head,
      ofTrees_rearranged ordered.2 tail]

theorem ofTreeEntries_rearranged : {fields : List (String × Value)} →
    {others : List (String × Json)} → OrderedFields fields →
    Json.RearrangesFields (fieldsToJson fields) others →
    ofTreeEntries (Json.fieldsToTrees others) = fieldsWithNulls fields
  | [], _, _, h => by
    rw [fieldsToJson, Json.RearrangesFields] at h
    rw [h]
    rfl
  | (name, value) :: rest, _, ordered, h => by
    rw [OrderedFields] at ordered
    rw [fieldsToJson, Json.RearrangesFields] at h
    obtain ⟨first, back, rfl, head, tail⟩ := h
    rw [Json.fieldsToTrees, ofTreeEntries, fieldsWithNulls, ofTree_rearranged ordered.1 head,
      ofTreeEntries_rearranged ordered.2 tail]

end

end Value
end DocumentBase
