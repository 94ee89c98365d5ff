import DocumentBase.Proofs.Document.Codec
import DocumentBase.Proofs.Document.Finite

/-!
# DocumentBase.Proofs.Document.Returning

From values to plain JSON and back.  Plain JSON has no place for NaN and the infinities, and a place
for everything else.  So what comes back is the value with its nulls (`Value.ofJson_toJson`), which
is equal to the value exactly when that is finite.

The other way round a value of plain JSON is finite from the start, although its numerals may have
been rounded to doubles.  So it comes back as it is, however often it goes.
-/

namespace DocumentBase

namespace Value

mutual

/-- What comes back of a value is the value with its nulls. -/
@[simp] theorem ofJson_toJson : (value : Value) → ofJson value.toJson = value.withNulls
  | null | bool _ | string _ => by simp [toJson, ofJson, withNulls]
  | number x => by cases x <;> rfl
  | array items => by rw [toJson, ofJson, withNulls, ofJsonItems_itemsToJson items]
  | object fields => by rw [toJson, ofJson, withNulls, ofJsonFields_fieldsToJson fields]

theorem ofJsonItems_itemsToJson : (items : List Value) →
    ofJsonItems (itemsToJson items) = itemsWithNulls items
  | [] => rfl
  | item :: rest => by
    rw [itemsToJson, ofJsonItems, itemsWithNulls, ofJson_toJson item,
      ofJsonItems_itemsToJson rest]

theorem ofJsonFields_fieldsToJson : (fields : List (String × Value)) →
    ofJsonFields (fieldsToJson fields) = fieldsWithNulls fields
  | [] => rfl
  | (name, value) :: rest => by
    rw [fieldsToJson, ofJsonFields, fieldsWithNulls, ofJson_toJson value,
      ofJsonFields_fieldsToJson rest]

end

/-- A value that loses nothing is finite, for so is what is left of it. -/
theorem withNulls_eq_iff (value : Value) : value.withNulls = value ↔ value.isFinite := by
  refine ⟨fun same => ?_, withNulls_of_finite⟩
  rw [← same]
  exact isFinite_withNulls value

/-- A value of plain JSON comes back as it is. -/
theorem ofJson_toJson_ofJson (json : Json) : ofJson (ofJson json).toJson = ofJson json := by
  rw [ofJson_toJson, withNulls_of_finite (isFinite_ofJson json)]

end Value

namespace Document

/-- What comes back of a document is the document with its nulls. -/
@[simp] theorem ofJson_toJson (doc : Document) : ofJson doc.toJson = .ok doc.withNulls := by
  have same : Value.ofJson doc.toJson = .object doc.withNulls.fields := by
    rw [toJson, Value.ofJson, Value.ofJsonFields_fieldsToJson]
    rfl
  rw [ofJson, same, ofValue, ofFields_perm (.refl _)]

end Document

/-- A value that goes through plain JSON comes back with null in place of every NaN and infinity and
otherwise unchanged, so it is equal to what comes back, and the same, if and only if it is finite.
What is made of plain JSON is finite, and comes back as it is.  It is the same with documents. -/
theorem returns_with_nulls :
    (∀ value : Value, Value.ofJson value.toJson = value.withNulls ∧
      ((Value.ofJson value.toJson).eq value ↔ value.isFinite) ∧
      (Value.ofJson value.toJson = value ↔ value.isFinite)) ∧
    (∀ json : Json, (Value.ofJson json).isFinite ∧
      Value.ofJson (Value.ofJson json).toJson = Value.ofJson json) ∧
    ∀ doc : Document, Document.ofJson doc.toJson = .ok doc.withNulls ∧
      ((∃ back, Document.ofJson doc.toJson = .ok back ∧ back.eq doc) ↔ doc.isFinite) := by
  refine ⟨fun value => ?_, fun json => ?_, fun doc => ?_⟩
  · rw [Value.ofJson_toJson, Value.eq_withNulls]
    exact ⟨rfl, Iff.rfl, value.withNulls_eq_iff⟩
  · exact ⟨Value.isFinite_ofJson json, Value.ofJson_toJson_ofJson json⟩
  · rw [Document.ofJson_toJson, ← Document.eq_withNulls]
    simp

/-- An infinity in a list and a negative zero beside it. -/
def infinityAndZero : Value :=
  .object [("a", .array [.number (.infinite true), .number (.finite (.zero true))])]

/-- The infinity becomes null, which makes the difference, and the zero keeps its sign. -/
theorem returns_with_nulls_infinity :
    Value.ofJson infinityAndZero.toJson
      = .object [("a", .array [.null, .number (.finite (.zero true))])] ∧
    (Value.ofJson infinityAndZero.toJson).eq infinityAndZero = false := by
  obtain ⟨back, equal, -⟩ := returns_with_nulls.1 infinityAndZero
  exact ⟨back, Bool.eq_false_iff.2 (mt equal.1 (by decide))⟩

end DocumentBase
