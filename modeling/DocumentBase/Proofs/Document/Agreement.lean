import DocumentBase.Proofs.Document.Codec
import DocumentBase.Proofs.Json.Plain

/-!
# DocumentBase.Proofs.Document.Agreement

Two ways lead from a text to a value, and two from a value to a text: directly, and over plain JSON.
They agree (`directly_as_over_plain`).

1. What is read directly is made of a tree.  Plain JSON has lost the tree, but not what a value
   needs of it: that the last of several fields of one name counts has been settled, and numerals
   are turned into numbers by either way (`ofJson_ofTree`).
2. A document begins with a brace, or it is refused at once.  Behind the brace it is read as any
   object is, so it is refused where plain JSON is, or where that is no object
   (`Document.decode_eq_ok_iff`).
3. A value is written as its plain JSON is, whatever the order of the fields, and so in ascending
   order too (`canonical_toJson`).  What is not finite is null for both.
-/

namespace DocumentBase

/-! ## Decoding values -/

/- A value is made of the tree of a text, at once or by way of plain JSON.  The two ways come to the
same value, since on both the last of several fields with one name is kept. -/

namespace Value

theorem ofJsonFields_eq_map (fields : List (String × Json)) :
    ofJsonFields fields = fields.map fun field => (field.1, ofJson field.2) :=
  Fields.eq_map rfl (fun (_, _) _ => rfl) fields

/-- Values are made of the fields in order, or made of the entries and then put in order. -/
theorem ofJsonFields_ofEntries (entries : List (String × Json)) :
    ofJsonFields (Fields.ofEntries entries) = Fields.ofEntries (ofJsonFields entries) := by
  rw [ofJsonFields_eq_map, ofJsonFields_eq_map, Fields.ofEntries_map]

theorem canonicalFields_eq_map (fields : List (String × Value)) :
    canonicalFields fields = fields.map fun field => (field.1, field.2.canonical) :=
  Fields.eq_map rfl (fun (_, _) _ => rfl) fields

/-- Values can be put in order before or after the fields are. -/
theorem canonicalFields_ofEntries (entries : List (String × Value)) :
    canonicalFields (Fields.ofEntries entries) = Fields.ofEntries (canonicalFields entries) := by
  rw [canonicalFields_eq_map, canonicalFields_eq_map, Fields.ofEntries_map]

mutual

/-- The value of the plain JSON of a tree is that of the tree. -/
theorem ofJson_ofTree : (tree : Json.Tree) → ofJson (Json.ofTree tree) = ofTree tree
  | .scalar .null | .scalar (.bool _) | .scalar (.number _) | .scalar (.string _) => rfl
  | .list items => by rw [Json.ofTree, ofJson, ofTree, ofJsonItems_ofTrees items]
  | .object entries => by
    rw [Json.ofTree, ofJson, ofTree, ofJsonFields_ofEntries, ofJsonFields_ofTreeEntries entries]

theorem ofJsonItems_ofTrees : (items : List Json.Tree) →
    ofJsonItems (Json.ofTrees items) = ofTrees items
  | [] => rfl
  | item :: rest => by
    rw [Json.ofTrees, ofJsonItems, ofTrees, ofJson_ofTree item, ofJsonItems_ofTrees rest]

theorem ofJsonFields_ofTreeEntries : (entries : List (String × Json.Tree)) →
    ofJsonFields (Json.ofEntries entries) = ofTreeEntries entries
  | [] => rfl
  | (name, value) :: rest => by
    rw [Json.ofEntries, ofJsonFields, ofTreeEntries, ofJson_ofTree value,
      ofJsonFields_ofTreeEntries rest]

end

/-- A text decodes to the value of its plain JSON, or is refused for the same reason. -/
theorem decode_eq (text : List UInt8) : decode text = (Json.decode text).map ofJson := by
  rw [decode, reader, Json.Reader.whole_map, Json.decode_eq]
  cases Json.Reader.whole (Json.Reader.tree Json.depthLimit) text with
  | error e => rfl
  | ok tree => exact congrArg Except.ok (ofJson_ofTree tree).symm

end Value

/-! ## Decoding documents -/

namespace Json.Reader

/-- A whole text is read if only blanks are left behind the value. -/
theorem whole_eq_ok_iff {reader : Reader α} {text : List UInt8} {value : α} :
    whole reader text = .ok value ↔
      ∃ rest, reader.run text = .ok (value, rest) ∧ skipBlanks rest = [] := by
  unfold whole
  cases reader.run text with
  | error e => simp
  | ok read =>
    obtain ⟨found, rest⟩ := read
    dsimp only
    split
    · next ended => simpa using fun _ => List.isEmpty_iff.1 ended
    · next more =>
      simp only [reduceCtorEq, false_iff]
      rintro ⟨_, ⟨⟩, ended⟩
      exact more (List.isEmpty_iff.2 ended)

/-- Where a value of another kind stands nothing is read. -/
theorem run_mismatch (first : UInt8) (expected : String) (text : List UInt8) :
    ∃ e, (mismatch first expected : Reader α).run text = .error e := by
  unfold mismatch
  split
  · exact ⟨_, rfl⟩
  · split
    · exact ⟨_, rfl⟩
    · rw [run_bind]
      cases (scalar first).run text with
      | error e => exact ⟨e, rfl⟩
      | ok read => exact ⟨_, rfl⟩

/-- Nothing but a brace begins an object. -/
theorem run_tree_of_ne_brace {depth : Nat} {text behind rest : List UInt8} {first : UInt8}
    (found : skipBlanks text = first :: behind) (other : first ≠ Ascii.openBrace)
    (entries : List (String × Tree)) : (tree depth).run text ≠ .ok (.object entries, rest) := by
  cases depth with
  | zero =>
    rw [tree, value, run_dispatch, found]
    dsimp only
    rw [if_neg other, run_map]
    split
    · rintro ⟨⟩
    · cases (scalar first).run (first :: behind) <;> rintro ⟨⟩
  | succ depth =>
    rw [tree, value, run_dispatch, found]
    dsimp only
    rw [if_neg other, run_map, run_map]
    split
    · cases (elements (tree depth)).run behind <;> rintro ⟨⟩
    · cases (scalar first).run (first :: behind) <;> rintro ⟨⟩

end Json.Reader

/-- The plain JSON of a text is an object where its tree is one. -/
theorem Json.decode_eq_object_iff {text : List UInt8} {fields : List (String × Json)} :
    decode text = .ok (.object fields) ↔
      ∃ entries, Reader.whole (Reader.tree depthLimit) text = .ok (.object entries) ∧
        Fields.ofEntries (ofEntries entries) = fields := by
  rw [decode_eq]
  cases Reader.whole (Reader.tree depthLimit) text with
  | error e => simp [Except.map]
  | ok tree =>
    cases tree with
    | scalar s => cases s <;> simp [Except.map, ofTree, ofScalar]
    | list items => simp [Except.map, ofTree]
    | object entries => simp [Except.map, ofTree]

namespace Document

open Json.Reader

/-- A document is read where an object is. -/
theorem run_reader_eq_ok_iff {depth : Nat} {text rest : List UInt8} {doc : Document} :
    (reader depth).run text = .ok (doc, rest) ↔
      ∃ entries, (tree depth).run text = .ok (.object entries, rest) ∧
        ofFields (Value.ofTreeEntries entries) = doc := by
  rw [reader, run_bind, run_ahead]
  cases found : Json.skipBlanks text with
  | nil =>
    have ended : (tree depth).run text = .error (.endOfText .value) := by
      cases depth <;> rw [tree, value, run_dispatch, found]
    simp [ended]
  | cons first behind =>
    dsimp only
    by_cases brace : first = Ascii.openBrace
    · subst brace
      rw [if_pos rfl]
      cases depth with
      | zero =>
        rw [tree, value, run_dispatch, found]
        simp [nested]
      | succ depth =>
        rw [nested, run_bind_ok (run_advance 1 _), List.drop_succ_cons, List.drop_zero, run_bind,
          tree, value, run_dispatch, found]
        dsimp only
        rw [if_neg (by decide), if_pos rfl, run_map]
        cases (Json.Reader.fields (entry (tree depth)) []).run behind with
        | error e => simp [Except.map]
        | ok read => simp [Except.map, and_comm]
    · obtain ⟨e, failed⟩ := run_mismatch (α := Document) first "a map" (first :: behind)
      rw [if_neg brace, failed]
      simp [run_tree_of_ne_brace found brace]

/-- Fields that have been put in order make the same document. -/
theorem ofFields_ofEntries (entries : List (String × Value)) :
    ofFields (Fields.ofEntries entries) = ofFields entries := by
  refine ext ?_
  show Fields.ofEntries (Value.canonicalFields (Fields.ofEntries entries)) =
    Fields.ofEntries (Value.canonicalFields entries)
  rw [Value.canonicalFields_ofEntries,
    Fields.ofEntries_perm (Fields.ascending_ofEntries _) (.refl _)]

/-- Every object of plain JSON is a document. -/
theorem ofJson_object (fields : List (String × Json)) :
    ofJson (.object fields) = .ok (ofFields (Value.ofJsonFields fields)) := by
  rw [ofJson, Value.ofJson, ofValue]

/-- A text decodes to a document where its plain JSON is an object, which makes that document. -/
theorem decode_eq_ok_iff {text : List UInt8} {doc : Document} :
    decode text = .ok doc ↔
      ∃ fields, Json.decode text = .ok (.object fields) ∧ ofJson (.object fields) = .ok doc := by
  rw [decode, whole_eq_ok_iff]
  simp only [run_reader_eq_ok_iff, Json.decode_eq_object_iff, ofJson_object, whole_eq_ok_iff]
  constructor
  · rintro ⟨rest, ⟨entries, read, rfl⟩, ended⟩
    refine ⟨_, ⟨entries, ⟨rest, read, ended⟩, rfl⟩, ?_⟩
    rw [Value.ofJsonFields_ofEntries, Value.ofJsonFields_ofTreeEntries, ofFields_ofEntries]
  · rintro ⟨_, ⟨entries, ⟨rest, read, ended⟩, rfl⟩, made⟩
    refine ⟨rest, ⟨entries, read, ?_⟩, ended⟩
    rw [Value.ofJsonFields_ofEntries, Value.ofJsonFields_ofTreeEntries, ofFields_ofEntries] at made
    exact Except.ok.inj made

end Document

/-! ## Encoding -/

namespace Json

mutual

/-- The same value with the fields of every object in order; of a repeated name the last field
stays. -/
def canonical : Json → Json
  | array items => array (canonicalItems items)
  | object fields => object (Fields.ofEntries (canonicalFields fields))
  | null => null
  | bool b => bool b
  | number n => number n
  | string s => string s

/-- Every item put in order. -/
def canonicalItems : List Json → List Json
  | [] => []
  | item :: rest => item.canonical :: canonicalItems rest

/-- The value of every field put in order. -/
def canonicalFields : List (String × Json) → List (String × Json)
  | [] => []
  | (name, value) :: rest => (name, value.canonical) :: canonicalFields rest

end

end Json

namespace Value

theorem fieldsToJson_eq_map (fields : List (String × Value)) :
    fieldsToJson fields = fields.map fun field => (field.1, field.2.toJson) :=
  Fields.eq_map rfl (fun (_, _) _ => rfl) fields

mutual

/-- It makes no difference whether fields are put in order before or after a value becomes plain
JSON. -/
theorem toJson_canonical : (value : Value) → value.canonical.toJson = value.toJson.canonical
  | null | bool _ | string _ => by simp [canonical, toJson, Json.canonical]
  | number x => by cases x <;> simp [canonical, toJson, numberToJson, Json.canonical]
  | array items => by
    rw [canonical, toJson, toJson, Json.canonical, itemsToJson_canonicalItems items]
  | object fields => by
    rw [canonical, toJson, toJson, Json.canonical, ← fieldsToJson_canonicalFields fields,
      fieldsToJson_eq_map, fieldsToJson_eq_map, Fields.ofEntries_map]

theorem itemsToJson_canonicalItems : (items : List Value) →
    itemsToJson (canonicalItems items) = Json.canonicalItems (itemsToJson items)
  | [] => rfl
  | item :: rest => by
    rw [canonicalItems, itemsToJson, itemsToJson, Json.canonicalItems, toJson_canonical item,
      itemsToJson_canonicalItems rest]

theorem fieldsToJson_canonicalFields : (fields : List (String × Value)) →
    fieldsToJson (canonicalFields fields) = Json.canonicalFields (fieldsToJson fields)
  | [] => rfl
  | (name, value) :: rest => by
    rw [canonicalFields, fieldsToJson, fieldsToJson, Json.canonicalFields, toJson_canonical value,
      fieldsToJson_canonicalFields rest]

end

mutual

/-- What is not finite is null as plain JSON. -/
theorem toJson_withNulls : (value : Value) → value.withNulls.toJson = value.toJson
  | null | bool _ | string _ => by simp [withNulls]
  | number x => by cases x <;> simp [withNulls, toJson, numberToJson]
  | array items => by rw [withNulls, toJson, toJson, itemsToJson_withNulls items]
  | object fields => by rw [withNulls, toJson, toJson, fieldsToJson_withNulls fields]

theorem itemsToJson_withNulls : (items : List Value) →
    itemsToJson (itemsWithNulls items) = itemsToJson items
  | [] => rfl
  | item :: rest => by
    rw [itemsWithNulls, itemsToJson, itemsToJson, toJson_withNulls item,
      itemsToJson_withNulls rest]

theorem fieldsToJson_withNulls : (fields : List (String × Value)) →
    fieldsToJson (fieldsWithNulls fields) = fieldsToJson fields
  | [] => rfl
  | (name, value) :: rest => by
    rw [fieldsWithNulls, fieldsToJson, fieldsToJson, toJson_withNulls value,
      fieldsToJson_withNulls rest]

end

end Value

namespace Document

/-- A document is written as the object that it is. -/
theorem toJson_toValue (doc : Document) : doc.toValue.toJson = doc.toJson := by
  rw [toValue, Value.toJson, toJson]

/-- The plain JSON of a document is in order, as the document is. -/
theorem canonical_toJson (doc : Document) : doc.toJson.canonical = doc.toJson := by
  have ordered : doc.toValue.canonical = doc.toValue := Value.canonical_of_ordered doc.ordered
  rw [← toJson_toValue, ← Value.toJson_canonical, ordered]

/-- A document is written as if it had its nulls already: a number that is not finite is written as
null. -/
theorem toJson_withNulls (doc : Document) : doc.withNulls.toJson = doc.toJson := by
  rw [toJson, toJson, withNulls, Value.fieldsToJson_withNulls]

end Document

/-! ## Both ways -/

/-- A text decodes to the value of its plain JSON, or is refused for the same reason.  It decodes to
a document exactly where its plain JSON is an object, and to the document which that object makes.
A value and a document have the text of their plain JSON; so have values in whatever order their
fields are, when both are put in order.  Numbers that are not finite are null in both. -/
theorem directly_as_over_plain :
    (∀ text : List UInt8, Value.decode text = (Json.decode text).map Value.ofJson) ∧
    (∀ text : List UInt8,
      ((∃ doc, Document.decode text = .ok doc) ↔
        ∃ fields, Json.decode text = .ok (.object fields)) ∧
      ∀ doc, Document.decode text = .ok doc ↔
        ∃ fields, Json.decode text = .ok (.object fields) ∧
          Document.ofJson (.object fields) = .ok doc) ∧
    (∀ value : Value,
      value.text = value.toJson.text ∧
      value.canonical.text = value.toJson.canonical.text ∧
      value.text = value.withNulls.text ∧ value.toJson = value.withNulls.toJson) ∧
    ∀ doc : Document,
      doc.text = doc.toJson.text ∧ doc.toJson.canonical = doc.toJson ∧
      doc.text = doc.withNulls.text ∧ doc.toJson = doc.withNulls.toJson := by
  have value_text (value : Value) : value.text = value.toJson.text := by
    rw [Value.text, Json.text, Value.chars_toJson]
  have doc_text (doc : Document) : doc.text = doc.toJson.text := by
    rw [Document.text, Json.text, Document.chars_toJson]
  refine ⟨Value.decode_eq, fun text => ⟨?_, fun doc => Document.decode_eq_ok_iff⟩,
    fun value => ⟨value_text value, ?_, ?_, ?_⟩, fun doc => ⟨doc_text doc, ?_, ?_, ?_⟩⟩
  · simp only [Document.decode_eq_ok_iff, Document.ofJson_object]
    constructor
    · rintro ⟨doc, fields, decoded, -⟩
      exact ⟨fields, decoded⟩
    · rintro ⟨fields, decoded⟩
      exact ⟨_, fields, decoded, rfl⟩
  · rw [value_text, Value.toJson_canonical]
  · rw [value_text, value_text, Value.toJson_withNulls]
  · rw [Value.toJson_withNulls]
  · exact doc.canonical_toJson
  · rw [doc_text, doc_text, Document.toJson_withNulls]
  · rw [Document.toJson_withNulls]

end DocumentBase
