import DocumentBase.Document
import DocumentBase.Proofs.Number.Decimals

/-!
# DocumentBase.Proofs.Document.Finite

Where the numbers of a document are.  A document is finite unless it holds NaN or an infinity
somewhere, in a list as well as in an object (`isFinite_eq_false_iff`).

Plain JSON has only numbers that are finite as doubles, for its integers have at most 64 bits.  So a
document that is made of plain JSON is finite (`isFinite_of_ofJson`).
-/

namespace DocumentBase

/-! ## Numbers of plain JSON -/

/-- The numbers that are not finite are NaN and the two infinities. -/
theorem Number.isFinite_eq_false_iff {x : Number} :
    x.isFinite = false ↔ x = .nan ∨ ∃ negative, x = .infinite negative := by
  cases x <;> simp [isFinite]

/-- Every number that can be written in JSON is finite: an integer is too small to be rounded to an
infinity. -/
@[simp] theorem Numeral.isFinite_toNumber (n : Numeral) : n.toNumber.isFinite := by
  cases n with
  | integer n fits => exact Number.isFinite_ofInt (by omega)
  | double x => rfl

namespace Value

/-! ## Numbers of a value -/

/-- A number stands somewhere in a value. -/
inductive Contains (x : Number) : Value → Prop where
  | number : Contains x (.number x)
  | item {items : List Value} {item : Value} (held : item ∈ items) (within : item.Contains x) :
      Contains x (.array items)
  | field {fields : List (String × Value)} {name : String} {value : Value}
      (held : (name, value) ∈ fields) (within : value.Contains x) : Contains x (.object fields)

theorem itemsFinite_iff {items : List Value} :
    itemsFinite items ↔ ∀ item ∈ items, item.isFinite := by
  induction items with
  | nil => simp [itemsFinite]
  | cons item rest ih => simp [itemsFinite, ih]

theorem fieldsFinite_iff {fields : List (String × Value)} :
    fieldsFinite fields ↔ ∀ field ∈ fields, field.2.isFinite := by
  induction fields with
  | nil => simp [fieldsFinite]
  | cons field rest ih => simp [fieldsFinite, ih]

/-- What a finite value contains is finite. -/
theorem isFinite_of_contains {value : Value} (finite : value.isFinite) {x : Number}
    (contains : value.Contains x) : x.isFinite := by
  induction contains with
  | number => exact finite
  | item held _ ih =>
    rw [isFinite] at finite
    exact ih (itemsFinite_iff.1 finite _ held)
  | field held _ ih =>
    rw [isFinite] at finite
    exact ih (fieldsFinite_iff.1 finite _ held)

mutual

/-- A value that is not finite contains a number that is not. -/
theorem contains_of_not_isFinite : {value : Value} → value.isFinite = false →
    ∃ x, value.Contains x ∧ x.isFinite = false
  | number x, h => ⟨x, .number, h⟩
  | array items, h => by
    rw [isFinite] at h
    obtain ⟨item, held, x, within, infinite⟩ := contains_of_not_itemsFinite h
    exact ⟨x, .item held within, infinite⟩
  | object fields, h => by
    rw [isFinite] at h
    obtain ⟨name, value, held, x, within, infinite⟩ := contains_of_not_fieldsFinite h
    exact ⟨x, .field held within, infinite⟩

theorem contains_of_not_itemsFinite : {items : List Value} → itemsFinite items = false →
    ∃ item ∈ items, ∃ x, item.Contains x ∧ x.isFinite = false
  | item :: rest, h => by
    rw [itemsFinite, Bool.and_eq_false_iff] at h
    rcases h with here | later
    · exact ⟨item, List.mem_cons_self, contains_of_not_isFinite here⟩
    · obtain ⟨item, held, found⟩ := contains_of_not_itemsFinite later
      exact ⟨item, List.mem_cons_of_mem _ held, found⟩

theorem contains_of_not_fieldsFinite : {fields : List (String × Value)} →
    fieldsFinite fields = false →
    ∃ name value, (name, value) ∈ fields ∧ ∃ x, value.Contains x ∧ x.isFinite = false
  | (name, value) :: rest, h => by
    rw [fieldsFinite, Bool.and_eq_false_iff] at h
    rcases h with here | later
    · exact ⟨name, value, List.mem_cons_self, contains_of_not_isFinite here⟩
    · obtain ⟨name, value, held, found⟩ := contains_of_not_fieldsFinite later
      exact ⟨name, value, List.mem_cons_of_mem _ held, found⟩

end

/-! ## Values of plain JSON -/

mutual

/-- A value made of plain JSON is finite at every depth. -/
@[simp] theorem isFinite_ofJson : (json : Json) → (ofJson json).isFinite
  | .null | .bool _ | .string _ => by simp [ofJson, isFinite]
  | .number n => by
    rw [ofJson, isFinite]
    exact n.isFinite_toNumber
  | .array items => by
    rw [ofJson, isFinite]
    exact itemsFinite_ofJsonItems items
  | .object fields => by
    rw [ofJson, isFinite]
    exact fieldsFinite_ofJsonFields fields

theorem itemsFinite_ofJsonItems : (items : List Json) → itemsFinite (ofJsonItems items)
  | [] => rfl
  | item :: rest => by
    rw [ofJsonItems, itemsFinite, isFinite_ofJson item, itemsFinite_ofJsonItems rest]
    rfl

theorem fieldsFinite_ofJsonFields : (fields : List (String × Json)) →
    fieldsFinite (ofJsonFields fields)
  | [] => rfl
  | (_, value) :: rest => by
    rw [ofJsonFields, fieldsFinite, isFinite_ofJson value, fieldsFinite_ofJsonFields rest]
    rfl

end

mutual

/-- Putting a value in order adds no numbers. -/
theorem isFinite_canonical : {value : Value} → value.isFinite → value.canonical.isFinite
  | null, _ | bool _, _ | string _, _ => by simp [canonical, isFinite]
  | number x, h => by rwa [canonical]
  | array items, h => by
    rw [isFinite] at h
    rw [canonical, isFinite]
    exact itemsFinite_canonicalItems h
  | object fields, h => by
    rw [isFinite] at h
    rw [canonical, isFinite, fieldsFinite_iff]
    intro field held
    exact fieldsFinite_iff.1 (fieldsFinite_canonicalFields h) field (Fields.mem_ofEntries held)

theorem itemsFinite_canonicalItems : {items : List Value} → itemsFinite items →
    itemsFinite (canonicalItems items)
  | [], _ => rfl
  | item :: rest, h => by
    rw [itemsFinite, Bool.and_eq_true] at h
    rw [canonicalItems, itemsFinite, isFinite_canonical h.1, itemsFinite_canonicalItems h.2]
    rfl

theorem fieldsFinite_canonicalFields : {fields : List (String × Value)} → fieldsFinite fields →
    fieldsFinite (canonicalFields fields)
  | [], _ => rfl
  | (_, value) :: rest, h => by
    rw [fieldsFinite, Bool.and_eq_true] at h
    rw [canonicalFields, fieldsFinite, isFinite_canonical h.1, fieldsFinite_canonicalFields h.2]
    rfl

end

end Value

/-! ## Documents -/

namespace Document

/-- A number stands somewhere in a document. -/
def Contains (doc : Document) (x : Number) : Prop := doc.toValue.Contains x

/-- A document is finite if it is finite as an object. -/
@[simp] theorem isFinite_toValue (doc : Document) : doc.toValue.isFinite = doc.isFinite := by
  rw [toValue, Value.isFinite, isFinite]

/-- A document is not finite where it holds NaN or an infinity. -/
theorem isFinite_eq_false_iff {doc : Document} :
    doc.isFinite = false ↔
      ∃ x, doc.Contains x ∧ (x = .nan ∨ ∃ negative, x = .infinite negative) := by
  rw [← isFinite_toValue]
  constructor
  · intro h
    obtain ⟨x, contains, infinite⟩ := Value.contains_of_not_isFinite h
    exact ⟨x, contains, Number.isFinite_eq_false_iff.1 infinite⟩
  · rintro ⟨x, contains, infinite⟩
    refine Bool.eq_false_iff.2 fun finite => ?_
    have held := Value.isFinite_of_contains finite contains
    rw [Number.isFinite_eq_false_iff.2 infinite] at held
    cases held

/-- Only an object makes a document. -/
theorem ofJson_error_iff {json : Json} :
    (∃ e, ofJson json = .error e) ↔ ∀ fields, json ≠ .object fields := by
  cases json <;> simp [ofJson, Value.ofJson, ofValue]

/-- Plain JSON that is no document is invalid input. -/
theorem kind_of_ofJson_eq_error {json : Json} {e : Error} (refused : ofJson json = .error e) :
    e.report.kind = .invalidInput := by
  cases json <;> cases refused <;> rfl

/-- A document that is made of plain JSON is finite. -/
theorem isFinite_of_ofJson {json : Json} {doc : Document} (made : ofJson json = .ok doc) :
    doc.isFinite := by
  cases json with
  | object fields =>
    cases made
    exact Value.isFinite_canonical (Value.isFinite_ofJson (.object fields))
  | null | bool _ | number _ | string _ | array _ => cases made

end Document
end DocumentBase
