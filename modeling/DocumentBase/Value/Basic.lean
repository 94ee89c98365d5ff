import DocumentBase.Fields
import DocumentBase.Number.Text

/-!
# DocumentBase.Value.Basic

The values documents are made of.  They are those of JSON, except that a number is any double: NaN
and the infinities can be held, although no JSON text can carry them.

The fields of an object are a finite map.  It is kept as a list in ascending order of the names, so
that equal maps are equal lists; `Ordered` says that this holds at every depth, and `canonical`
puts any value in order.
-/

namespace DocumentBase

/-- A value of a document. -/
inductive Value where
  | null
  | bool (b : Bool)
  | number (x : Number)
  | string (s : String)
  | array (items : List Value)
  | object (fields : List (String × Value))

instance : Inhabited Value := ⟨.null⟩

namespace Value

/-! ## Looking at a value -/

def isObject : Value → Bool
  | object _ => true
  | _ => false

/-- The fields of an object. -/
def fields? : Value → Option (List (String × Value))
  | object fields => some fields
  | _ => none

/-- The number that the value is; a numeric string is none. -/
def number? : Value → Option Number
  | number x => some x
  | _ => none

/-- The string that the value is. -/
def string? : Value → Option String
  | string s => some s
  | _ => none

/-- The text of a scalar, as it stands in index keys and as it is compared with literals.  Lists and
objects have none. -/
def leafText? : Value → Option String
  | null => some "null"
  | bool b => some (if b then "true" else "false")
  | number x => some x.text
  | string s => some s
  | array _ | object _ => none

mutual

/-- Whether every number at any depth is finite. -/
def isFinite : Value → Bool
  | number x => x.isFinite
  | array items => itemsFinite items
  | object fields => fieldsFinite fields
  | null | bool _ | string _ => true

/-- Whether every number in the items is finite. -/
def itemsFinite : List Value → Bool
  | [] => true
  | item :: rest => item.isFinite && itemsFinite rest

/-- Whether every number in the fields is finite. -/
def fieldsFinite : List (String × Value) → Bool
  | [] => true
  | (_, value) :: rest => value.isFinite && fieldsFinite rest

end

/-- The value that a path of names leads to.  Every step but the last has to lead to an object, and
the empty path leads nowhere. -/
def resolve (fields : List (String × Value)) : List String → Option Value
  | [] => none
  | [name] => Fields.find? name fields
  | name :: next :: rest =>
    match Fields.find? name fields with
    | some (object inner) => resolve inner (next :: rest)
    | _ => none

/-! ## Equality -/

mutual

/-- Equality of values, with numbers compared as numbers: the zeros are equal and NaN is not even
equal to itself. -/
def eq : Value → Value → Bool
  | null, null => true
  | bool a, bool b => a == b
  | number x, number y => x.eq y
  | string s, string t => s == t
  | array items, array others => eqItems items others
  | object fields, object others => eqFields fields others
  | _, _ => false

/-- Equality of lists, item by item. -/
def eqItems : List Value → List Value → Bool
  | [], [] => true
  | item :: rest, other :: others => item.eq other && eqItems rest others
  | _, _ => false

/-- Equality of fields: the same names with equal values. -/
def eqFields : List (String × Value) → List (String × Value) → Bool
  | [], [] => true
  | (name, value) :: rest, (other, value') :: others =>
    name == other && value.eq value' && eqFields rest others
  | _, _ => false

end

/-! ## Order of fields -/

mutual

/-- The fields of every object ascend, at every depth. -/
def Ordered : Value → Prop
  | array items => OrderedItems items
  | object fields => Fields.Ascending fields ∧ OrderedFields fields
  | null | bool _ | number _ | string _ => True

/-- Every item is in order. -/
def OrderedItems : List Value → Prop
  | [] => True
  | item :: rest => item.Ordered ∧ OrderedItems rest

/-- The value of every field is in order. -/
def OrderedFields : List (String × Value) → Prop
  | [] => True
  | (_, value) :: rest => value.Ordered ∧ OrderedFields rest

end

mutual

/-- The same value with the fields of every object in order; of a repeated name the last field
stays. -/
def canonical : Value → Value
  | array items => array (canonicalItems items)
  | object fields => object (Fields.ofEntries (canonicalFields fields))
  | null => null
  | bool b => bool b
  | number x => number x
  | string s => string s

/-- Every item put in order. -/
def canonicalItems : List Value → List Value
  | [] => []
  | item :: rest => item.canonical :: canonicalItems rest

/-- The value of every field put in order. -/
def canonicalFields : List (String × Value) → List (String × Value)
  | [] => []
  | (name, value) :: rest => (name, value.canonical) :: canonicalFields rest

end

/-- The values of some fields are in order if each of them is. -/
theorem orderedFields_iff {fields : List (String × Value)} :
    OrderedFields fields ↔ ∀ entry ∈ fields, entry.2.Ordered := by
  induction fields with
  | nil => simp [OrderedFields]
  | cons head rest ih => obtain ⟨n, v⟩ := head; simp [OrderedFields, ih]

/-- Inserting values that are in order keeps the fields in order. -/
theorem orderedFields_ofEntries {entries : List (String × Value)}
    (h : ∀ entry ∈ entries, entry.2.Ordered) : OrderedFields (Fields.ofEntries entries) :=
  orderedFields_iff.2 fun entry held => h entry (Fields.mem_ofEntries held)

mutual

/-- Putting a value in order leaves nothing out of order, at any depth. -/
theorem ordered_canonical : (value : Value) → value.canonical.Ordered
  | array items => by simpa [canonical, Ordered] using ordered_canonicalItems items
  | object fields => by
    simp only [canonical, Ordered]
    exact ⟨Fields.ascending_ofEntries _,
      orderedFields_ofEntries (orderedFields_iff.1 (ordered_canonicalFields fields))⟩
  | null | bool _ | number _ | string _ => by simp [canonical, Ordered]

theorem ordered_canonicalItems : (items : List Value) → OrderedItems (canonicalItems items)
  | [] => by simp [canonicalItems, OrderedItems]
  | item :: rest => by
    simp only [canonicalItems, OrderedItems]
    exact ⟨ordered_canonical item, ordered_canonicalItems rest⟩

theorem ordered_canonicalFields :
    (fields : List (String × Value)) → OrderedFields (canonicalFields fields)
  | [] => by simp [canonicalFields, OrderedFields]
  | (_, value) :: rest => by
    simp only [canonicalFields, OrderedFields]
    exact ⟨ordered_canonical value, ordered_canonicalFields rest⟩

end

end Value
end DocumentBase
