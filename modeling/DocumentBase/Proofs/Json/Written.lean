import DocumentBase.Json.Tree
import DocumentBase.Proofs.Json.Reading

/-!
# DocumentBase.Proofs.Json.Written

The text of a plain JSON value is read as a tree of the same shape (`reads_tree`), if no more
containers are nested in one another than the reader allows; otherwise the nesting is what it
objects to, wherever in the text that is.
-/

namespace DocumentBase.Json

/-! ## Nesting -/

mutual

/-- How many containers are nested in one another. -/
def nesting : Json → Nat
  | array items => 1 + itemsNesting items
  | object fields => 1 + fieldsNesting fields
  | null | bool _ | number _ | string _ => 0

/-- The deepest nesting among some items. -/
def itemsNesting : List Json → Nat
  | [] => 0
  | item :: rest => max item.nesting (itemsNesting rest)

/-- The deepest nesting among some fields. -/
def fieldsNesting : List (String × Json) → Nat
  | [] => 0
  | (_, value) :: rest => max value.nesting (fieldsNesting rest)

end

theorem itemsNesting_le_iff {items : List Json} {depth : Nat} :
    itemsNesting items ≤ depth ↔ ∀ item ∈ items, item.nesting ≤ depth := by
  induction items with
  | nil => simp [itemsNesting]
  | cons item rest ih => rw [itemsNesting, Nat.max_le, ih, List.forall_mem_cons]

theorem fieldsNesting_le_iff {fields : List (String × Json)} {depth : Nat} :
    fieldsNesting fields ≤ depth ↔ ∀ field ∈ fields, field.2.nesting ≤ depth := by
  induction fields with
  | nil => simp [fieldsNesting]
  | cons field rest ih =>
    obtain ⟨name, value⟩ := field
    rw [fieldsNesting, Nat.max_le, ih, List.forall_mem_cons]

/-! ## Trees -/

mutual

/-- The tree of a value's text. -/
def toTree : Json → Tree
  | null => .scalar .null
  | bool b => .scalar (.bool b)
  | number n => .scalar (.number n)
  | string s => .scalar (.string s)
  | array items => .list (itemsToTrees items)
  | object fields => .object (fieldsToTrees fields)

def itemsToTrees : List Json → List Tree
  | [] => []
  | item :: rest => item.toTree :: itemsToTrees rest

def fieldsToTrees : List (String × Json) → List (String × Tree)
  | [] => []
  | (name, value) :: rest => (name, value.toTree) :: fieldsToTrees rest

end

/-- What a reader that allows a depth makes of a value's text. -/
def treeWithin (depth : Nat) (json : Json) : Except DecodeError Tree :=
  if json.nesting ≤ depth then .ok json.toTree else .error .tooDeep

/-- A field is put in front of the fields before it, if it is not too deep. -/
def entryWithin (depth : Nat) (field : String × Json) (before : List (String × Tree)) :
    Except DecodeError (List (String × Tree)) :=
  (treeWithin depth field.2).map fun tree => (field.1, tree) :: before

/-- Items are read up to a depth if all of them are that deep at most. -/
theorem mapM_treeWithin (depth : Nat) (items : List Json) :
    items.mapM (treeWithin depth)
      = if itemsNesting items ≤ depth then .ok (itemsToTrees items) else .error .tooDeep := by
  induction items with
  | nil => rfl
  | cons item rest ih =>
    rw [Collecting.mapM_cons, ih, itemsNesting, itemsToTrees, treeWithin]
    by_cases head : item.nesting ≤ depth
    · rw [if_pos head]
      by_cases tail : itemsNesting rest ≤ depth
      · rw [if_pos tail, if_pos (Nat.max_le.2 ⟨head, tail⟩)]
        rfl
      · rw [if_neg tail, if_neg fun both => tail (Nat.max_le.1 both).2]
        rfl
    · rw [if_neg head, if_neg fun both => head (Nat.max_le.1 both).1]

/-- Fields are read up to a depth if all of them are that deep at most, and the last one is put in
front. -/
theorem foldlM_entryWithin (depth : Nat) (fields : List (String × Json))
    (before : List (String × Tree)) :
    fields.foldlM (fun before field => entryWithin depth field before) before
      = if fieldsNesting fields ≤ depth then .ok ((fieldsToTrees fields).reverse ++ before)
        else .error .tooDeep := by
  induction fields generalizing before with
  | nil => rfl
  | cons field rest ih =>
    obtain ⟨name, value⟩ := field
    rw [List.foldlM_cons, fieldsNesting, fieldsToTrees, entryWithin, treeWithin]
    by_cases head : value.nesting ≤ depth
    · rw [if_pos head]
      show rest.foldlM _ ((name, value.toTree) :: before) = _
      rw [ih]
      by_cases tail : fieldsNesting rest ≤ depth
      · rw [if_pos tail, if_pos (Nat.max_le.2 ⟨head, tail⟩), List.reverse_cons, List.append_assoc]
        rfl
      · rw [if_neg tail, if_neg fun both => tail (Nat.max_le.1 both).2]
    · rw [if_neg head, if_neg fun both => head (Nat.max_le.1 both).1]
      rfl

/-! ## Texts -/

theorem itemsChars_eq_map (items : List Json) : itemsChars items = items.map chars :=
  Fields.eq_map rfl (fun _ _ => rfl) items

theorem fieldsChars_eq_map (fields : List (String × Json)) :
    fieldsChars fields = fields.map fun field => fieldChars field.1 field.2.chars :=
  Fields.eq_map rfl (fun (_, _) _ => rfl) fields

/-- The text of a value begins with a byte that is no blank and closes nothing. -/
theorem startsWith_chars (json : Json) :
    ∃ first, StartsWith json.chars first ∧ first ≠ Ascii.closeBracket := by
  cases json with
  | null => exact ⟨_, ⟨rfl, rfl⟩, by decide⟩
  | bool b => cases b <;> exact ⟨_, ⟨rfl, rfl⟩, by decide⟩
  | number n =>
    obtain ⟨first, start, kind⟩ := Reader.startsWith_numeral n
    refine ⟨first, start, ?_⟩
    rintro rfl
    revert kind
    decide
  | string s => exact ⟨_, Reader.startsWith_string s, by decide⟩
  | array items => exact ⟨Ascii.openBracket, ⟨rfl, rfl⟩, by decide⟩
  | object fields => exact ⟨Ascii.openBrace, ⟨rfl, rfl⟩, by decide⟩

namespace Reader

/-! ## Reading a tree -/

/- The depth that a reader allows is used up container by container.  The induction is on the value,
for all depths, and a container is read one level deeper than what is in it. -/

theorem reads_map {reader : Reader α} {chars : List Char} {result : Except DecodeError α}
    (f : α → β) (h : Reads reader chars result) : Reads (f <$> reader) chars (result.map f) := by
  intro rest delimited
  rw [run_map, h rest delimited]
  cases result <;> rfl

/-- A reader makes nothing but the result of a whole text. -/
theorem whole_of_reads {reader : Reader α} {chars : List Char} {result : Except DecodeError α}
    (h : Reads reader chars result) : whole reader (Utf8.encode chars) = result := by
  have read := h [] delimited_nil
  rw [List.append_nil] at read
  unfold whole
  rw [read]
  cases result <;> rfl

variable {list object : Reader Tree}

/-- A text behind an opening bracket is a list's. -/
theorem value_list {texts : List (List Char)} {result : Except DecodeError Tree}
    (h : Reads list (commaJoin texts ++ [']']) result) :
    Reads (value list object) (listChars texts) result := by
  intro rest delimited
  show (value list object).run
    (Ascii.openBracket :: (Utf8.encode (commaJoin texts ++ [']']) ++ rest)) = _
  rw [value, dispatch, run_bind_ok (run_ahead_cons .value rfl _)]
  exact h rest delimited

/-- A text behind an opening brace is an object's. -/
theorem value_object {texts : List (List Char)} {result : Except DecodeError Tree}
    (h : Reads object (commaJoin texts ++ ['\x7d']) result) :
    Reads (value list object) (objectChars texts) result := by
  intro rest delimited
  show (value list object).run
    (Ascii.openBrace :: (Utf8.encode (commaJoin texts ++ ['\x7d']) ++ rest)) = _
  rw [value, dispatch, run_bind_ok (run_ahead_cons .value rfl _)]
  exact h rest delimited

/-- A text that opens no container is a scalar's. -/
theorem value_scalar {chars : List Char} {first : UInt8} {s : Scalar}
    (start : StartsWith chars first) (no_list : first ≠ Ascii.openBracket)
    (no_object : first ≠ Ascii.openBrace) (h : Reads (scalar first) chars (.ok s)) :
    Reads (value list object) chars (.ok (.scalar s)) := by
  intro rest delimited
  rw [value, dispatch, run_bind_ok (run_ahead_chars .value start rest)]
  split
  · exact absurd rfl no_list
  · exact absurd rfl no_object
  · exact reads_map Tree.scalar h rest delimited

/-- A number is read where a sign or a digit is ahead. -/
theorem scalar_number {first : UInt8}
    (h : first = Ascii.minus ∨ (Digits.ofByte? first).isSome) :
    scalar first = Scalar.number <$> number := by
  unfold scalar
  split
  · exact absurd h (by decide)
  · exact absurd h (by decide)
  · exact absurd h (by decide)
  · exact absurd h (by decide)
  · rw [if_pos h]

/-- The text of a scalar is read as that scalar, however many levels are left. -/
theorem value_number (n : Numeral) :
    Reads (value list object) (numeralChars n) (.ok (.scalar (.number n))) := by
  obtain ⟨first, start, kind⟩ := startsWith_numeral n
  refine value_scalar start ?_ ?_ ?_
  · rintro rfl
    exact absurd kind (by decide)
  · rintro rfl
    exact absurd kind (by decide)
  · rw [scalar_number kind]
    exact reads_map Scalar.number (reads_numeral n)

theorem value_bool (b : Bool) :
    Reads (value list object) (boolChars b) (.ok (.scalar (.bool b))) := by
  have start : StartsWith (boolChars b) (if b then Ascii.lowerT else Ascii.lowerF) := by
    cases b <;> exact ⟨rfl, rfl⟩
  exact value_scalar start (by cases b <;> decide) (by cases b <;> decide) (reads_bool b)

@[simp] theorem run_colon (text : List UInt8) :
    colon.run (Ascii.colon :: text) = .ok ((), text) := by
  rw [colon, run_bind_ok (run_ahead_cons .object rfl _), if_pos rfl]
  rfl

/-- An entry of an object behind its name. -/
theorem entry_chars {value : Reader α} {chars : List Char} {result : Except DecodeError α}
    (before : List (String × α)) (name : String) (h : Reads value chars result) :
    Reads (entry value before name) (':' :: chars)
      (result.map fun v => (name, v) :: before) := by
  intro rest delimited
  show (entry value before name).run (Ascii.colon :: (Utf8.encode chars ++ rest)) = _
  rw [entry, run_bind_ok (run_colon _), run_bind, h rest delimited]
  cases result <;> rfl

/-- A list is one level deeper than its items. -/
theorem treeWithin_array (depth : Nat) (items : List Json) :
    (items.mapM (treeWithin depth)).map Tree.list = treeWithin (depth + 1) (.array items) := by
  rw [mapM_treeWithin, treeWithin, nesting, toTree]
  by_cases h : itemsNesting items ≤ depth
  · rw [if_pos h, if_pos (by omega)]
    rfl
  · rw [if_neg h, if_neg (by omega)]
    rfl

/-- An object is one level deeper than its fields. -/
theorem treeWithin_object (depth : Nat) (fields : List (String × Json)) :
    (fields.foldlM (fun before field => entryWithin depth field before) []).map
        (fun entries => Tree.object entries.reverse)
      = treeWithin (depth + 1) (.object fields) := by
  rw [foldlM_entryWithin, treeWithin, nesting, toTree]
  by_cases h : fieldsNesting fields ≤ depth
  · rw [if_pos h, if_pos (by omega), List.append_nil]
    show Except.ok (Tree.object (fieldsToTrees fields).reverse.reverse) = _
    rw [List.reverse_reverse]
  · rw [if_neg h, if_neg (by omega)]
    rfl

/-- Scalars are read without regard to the depth. -/
theorem tree_eq_value (depth : Nat) : ∃ list object, tree depth = value list object := by
  cases depth with
  | zero => exact ⟨_, _, rfl⟩
  | succ depth => exact ⟨_, _, rfl⟩

/-- A list is read if its items are read at every depth. -/
theorem reads_array {items : List Json} (depth : Nat)
    (h : ∀ item ∈ items, ∀ depth, Reads (tree depth) item.chars (treeWithin depth item)) :
    Reads (tree depth) (Json.array items).chars (treeWithin depth (.array items)) := by
  rw [Json.chars, itemsChars_eq_map]
  cases depth with
  | zero =>
    have deep : treeWithin 0 (.array items) = .error .tooDeep := if_neg (by rw [nesting]; omega)
    rw [deep]
    exact value_list fun _ _ => rfl
  | succ depth =>
    rw [← treeWithin_array]
    exact value_list (reads_map Tree.list (elements_chars fun item hi =>
      ⟨h item hi depth, startsWith_chars item⟩))

/-- An object is read if its fields are read at every depth. -/
theorem reads_object {fields : List (String × Json)} (depth : Nat)
    (h : ∀ field ∈ fields, ∀ depth, Reads (tree depth) field.2.chars (treeWithin depth field.2)) :
    Reads (tree depth) (Json.object fields).chars (treeWithin depth (.object fields)) := by
  rw [Json.chars, fieldsChars_eq_map]
  cases depth with
  | zero =>
    have deep : treeWithin 0 (.object fields) = .error .tooDeep := if_neg (by rw [nesting]; omega)
    rw [deep]
    exact value_object fun _ _ => rfl
  | succ depth =>
    rw [← treeWithin_object]
    exact value_object (reads_map _ (Reader.fields_chars (fun field hf before =>
      entry_chars before field.1 (h field hf depth)) []))

mutual

/-- The text of a value is read as its tree, unless that is too deep. -/
theorem reads_tree : (json : Json) → (depth : Nat) →
    Reads (tree depth) json.chars (treeWithin depth json)
  | .null, depth => by
    obtain ⟨list, object, eq⟩ := tree_eq_value depth
    rw [eq, treeWithin, nesting, if_pos (Nat.zero_le _)]
    have start : StartsWith nullChars Ascii.lowerN := ⟨rfl, rfl⟩
    exact value_scalar start (by decide) (by decide) reads_null
  | .bool b, depth => by
    obtain ⟨list, object, eq⟩ := tree_eq_value depth
    rw [eq, treeWithin, nesting, if_pos (Nat.zero_le _)]
    exact value_bool b
  | .number n, depth => by
    obtain ⟨list, object, eq⟩ := tree_eq_value depth
    rw [eq, treeWithin, nesting, if_pos (Nat.zero_le _)]
    exact value_number n
  | .string s, depth => by
    obtain ⟨list, object, eq⟩ := tree_eq_value depth
    rw [eq, treeWithin, nesting, if_pos (Nat.zero_le _)]
    exact value_scalar (startsWith_string s) (by decide) (by decide) (reads_string s)
  | .array items, depth => reads_array depth (reads_trees items)
  | .object fields, depth => reads_object depth (reads_entries fields)

theorem reads_trees : (items : List Json) → ∀ item ∈ items, ∀ depth,
    Reads (tree depth) item.chars (treeWithin depth item)
  | [] => by simp
  | item :: rest => by
    rw [List.forall_mem_cons]
    exact ⟨reads_tree item, reads_trees rest⟩

theorem reads_entries : (fields : List (String × Json)) → ∀ field ∈ fields, ∀ depth,
    Reads (tree depth) field.2.chars (treeWithin depth field.2)
  | [] => by simp
  | (name, value) :: rest => by
    rw [List.forall_mem_cons]
    exact ⟨reads_tree value, reads_entries rest⟩

end

/-- The fields of an object behind its opening brace, read as trees. -/
theorem reads_fields (fields : List (String × Json)) (depth : Nat) :
    Reads (Reader.fields (entry (tree depth)) []) (commaJoin (fieldsChars fields) ++ ['\x7d'])
      (if fieldsNesting fields ≤ depth then .ok (fieldsToTrees fields).reverse
        else .error .tooDeep) := by
  have fold := foldlM_entryWithin depth fields []
  rw [List.append_nil] at fold
  rw [← fold, fieldsChars_eq_map]
  exact Reader.fields_chars (fun field hf before =>
    entry_chars before field.1 (reads_entries fields field hf depth)) []

end Reader
end DocumentBase.Json
