import DocumentBase.Json.Record
import DocumentBase.Proofs.Json.Rearranged

/-!
# DocumentBase.Proofs.Json.Records

What is written for values of a known shape is read back: strings, integers, names of variants,
values that may be null, lists, and records.  The fields of a record may come in any order, so what
its reader does with each is said by name.
-/

namespace DocumentBase.Json

namespace Reader

/-! ## Scalars of one kind -/

/-- The text of a string is read where only a string may stand. -/
theorem reads_stringValue (s : String) : Reads string (stringChars s) (.ok s) := by
  intro rest _
  show string.run (Ascii.quote :: (Utf8.encode (s.toList.flatMap escapeChar ++ ['"']) ++ rest)) = _
  rw [string, run_bind_ok (run_ahead_cons .value rfl _), if_pos rfl, run_bind_ok (run_advance 1 _),
    List.drop_succ_cons, List.drop_zero, stringTail_chars]
  rfl

/-- The text of a number below a bound is read where only such a number may stand. -/
theorem reads_natural {bound : Nat} (expected : String) (fits : bound ≤ 0x10000000000000000)
    {n : Nat} (h : n < bound) :
    Reads (natural bound expected) (integerChars n) (.ok ⟨n, h⟩) := by
  have in_range : -0x8000000000000000 ≤ (n : Int) ∧ (n : Int) < 0x10000000000000000 := by omega
  obtain ⟨first, start, kind⟩ := startsWith_numeral (.integer n in_range)
  intro rest delimited
  have back : 0 ≤ (n : Int) ∧ (n : Int).toNat < bound := by omega
  rw [numeralChars] at start
  rw [natural, run_bind_ok (run_ahead_chars .value start rest), if_pos kind,
    run_bind_ok (number_integer n in_range delimited.numberEnd)]
  dsimp only
  rw [dif_pos back]
  rfl

theorem reads_optional_null (value : Reader α) : Reads (optional value) nullChars (.ok none) :=
  fun _ _ => rfl

/-- A value that may be absent is read as it is, if its text is not taken for null. -/
theorem reads_optional {value : Reader α} {chars : List Char} {first : UInt8} {a : α}
    (start : StartsWith chars first) (present : first ≠ Ascii.lowerN)
    (h : Reads value chars (.ok a)) : Reads (optional value) chars (.ok (some a)) := by
  intro rest delimited
  rw [optional, run_bind_ok (run_ahead_chars .value start rest), if_neg present]
  exact reads_map some h rest delimited

/-- A name is read as the variant that it stands for. -/
theorem reads_variant {variants : List (String × α)} {name : String} {a : α}
    (h : variants.lookup name = some a) (depth : Nat) :
    Reads (variant depth variants) (stringChars name) (.ok a) := by
  intro rest _
  show (variant depth variants).run
    (Ascii.quote :: (Utf8.encode (name.toList.flatMap escapeChar ++ ['"']) ++ rest)) = _
  rw [variant, run_bind_ok (run_ahead_cons .value rfl _), if_pos rfl,
    run_bind_ok (run_advance 1 _), List.drop_succ_cons, List.drop_zero,
    run_bind_ok (stringTail_chars name rest), variantOf, h]
  rfl

/-! ## Lists -/

/-- The text of a list is read element by element, one level deeper. -/
theorem reads_list {element : Nat → Reader α} {chars : ι → List Char}
    {result : ι → Except DecodeError α} {items : List ι} (depth : Nat)
    (h : ReadsItems (element depth) chars result items) :
    Reads (list (depth + 1) element) (listChars (items.map chars)) (items.mapM result) := by
  intro rest delimited
  show (list (depth + 1) element).run
    (Ascii.openBracket :: (Utf8.encode (commaJoin (items.map chars) ++ [']']) ++ rest)) = _
  rw [list, run_bind_ok (run_ahead_cons .value rfl _), if_pos rfl, nested,
    run_bind_ok (run_advance 1 _), List.drop_succ_cons, List.drop_zero]
  exact elements_chars h rest delimited

end Reader

/-- Items that were rearranged, each beside what it was made of. -/
theorem rearrangesItems_map {f : ι → Json} {items : List ι} {others : List Json}
    (h : RearrangesItems (items.map f) others) :
    ∃ pairs : List (ι × Json), pairs.map Prod.fst = items ∧ pairs.map Prod.snd = others
      ∧ ∀ pair ∈ pairs, (f pair.1).Rearranges pair.2 := by
  induction items generalizing others with
  | nil =>
    rw [List.map_nil, RearrangesItems] at h
    exact ⟨[], rfl, h.symm, by simp⟩
  | cons item rest ih =>
    rw [List.map_cons, RearrangesItems] at h
    obtain ⟨first, back, rfl, head, tail⟩ := h
    obtain ⟨pairs, rfl, rfl, all⟩ := ih tail
    exact ⟨(item, first) :: pairs, rfl, rfl, by
      rw [List.forall_mem_cons]
      exact ⟨head, all⟩⟩

/-- The text of a list of values that are read one by one is read as their list. -/
theorem reads_rearrangedList {element : Nat → Reader α} {f : α → Json} {items : List α}
    {others : List Json} {depth : Nat} (h : RearrangesItems (items.map f) others)
    (each : ∀ item ∈ items, ∀ other, (f item).Rearranges other →
      Reads (element depth) other.chars (.ok item)) :
    Reads (Reader.list (depth + 1) element) (array others).chars (.ok items) := by
  obtain ⟨pairs, rfl, rfl, all⟩ := rearrangesItems_map h
  rw [chars, itemsChars_eq_map, List.map_map, ← Collecting.mapM_ok]
  refine Reader.reads_list depth fun pair hp => ⟨?_, startsWith_chars pair.2⟩
  exact each pair.1 (List.mem_map_of_mem hp) pair.2 (all pair hp)

/-! ## Records -/

/- The fields of a record are put into slots as they come, in any order, and a record is finished
when the object ends. -/

namespace Reader

/-- A field that was not read before is put in its place. -/
theorem reads_recordField {shape : RecordShape σ ρ} {name : String} {get : σ → Option α}
    {set : σ → α → σ} {reader : Reader α} {chars : List Char} {a : α} {state : σ}
    {result : Except DecodeError σ}
    (known : shape.fields.find? (·.name = name) = some (.ofReader name get set reader))
    (h : Reads reader chars (.ok a))
    (put : result
      = if (get state).isSome then .error (.duplicateField name) else .ok (set state a)) :
    Reads (recordField shape state name) (':' :: chars) result := by
  intro rest delimited
  show (recordField shape state name).run (Ascii.colon :: (Utf8.encode chars ++ rest)) = _
  rw [recordField, known, put]
  dsimp only [RecordField.ofReader]
  by_cases twice : (get state).isSome
  · rw [if_pos twice, if_pos twice]
    rfl
  · rw [if_neg twice, if_neg twice, run_bind_ok (run_colon _), run_map, h rest delimited]
    rfl

/-- A record is read of its fields. -/
theorem reads_record {shape : Nat → RecordShape σ ρ} {depth : Nat} {fields : List (String × Json)}
    (next : String → σ → Except DecodeError σ) (final : σ) {value : ρ}
    (each : ∀ field ∈ fields, ∀ state,
      Reads (recordField (shape depth) state field.1) (':' :: field.2.chars) (next field.1 state))
    (all : fields.foldlM (fun state field => next field.1 state) (shape depth).empty = .ok final)
    (finish : (shape depth).finish final = .ok value) :
    Reads (record (depth + 1) shape) (object fields).chars (.ok value) := by
  intro rest delimited
  show (record (depth + 1) shape).run
    (Ascii.openBrace :: (Utf8.encode (commaJoin (fieldsChars fields) ++ ['\x7d']) ++ rest)) = _
  have steps : ReadsFields (recordField (shape depth)) (fun field : String × Json => field.1)
    (fun field => field.2.chars) (fun field => next field.1) fields := each
  have read := Reader.fields_chars steps (shape depth).empty rest delimited
  rw [all, ← fieldsChars_eq_map] at read
  rw [record, run_bind_ok (run_ahead_cons .value rfl _), if_neg (by decide), if_pos rfl, nested,
    run_bind_ok (run_advance 1 _), List.drop_succ_cons, List.drop_zero, run_bind_ok read, finish]
  rfl

end Reader

/-! ## Orders of fields -/

/-- Wherever the first item of a list has got to, the others stand around it. -/
theorem perm_cons_split {a : α} {rest others : List α} (perm : (a :: rest).Perm others) :
    ∃ front back, others = front ++ a :: back ∧ rest.Perm (front ++ back) := by
  obtain ⟨front, back, rfl⟩ := List.append_of_mem (perm.mem_iff.1 List.mem_cons_self)
  exact ⟨front, back, rfl, List.Perm.cons_inv (perm.trans List.perm_middle)⟩

theorem perm_one {a : α} {others : List α} (perm : [a].Perm others) : others = [a] :=
  (List.singleton_perm.1 perm).symm

theorem perm_two {a b : α} {others : List α} (perm : [a, b].Perm others) :
    others = [a, b] ∨ others = [b, a] := by
  obtain ⟨front, back, rfl, rest⟩ := perm_cons_split perm
  have single := perm_one rest
  match front, back with
  | [], _ => exact .inl (by simpa using single)
  | [c], [] => exact .inr (by simpa using single)
  | [c], _ :: _ => simp at single
  | _ :: _ :: _, _ => simp at single

theorem perm_three {a b c : α} {others : List α} (perm : [a, b, c].Perm others) :
    others ∈ [[a, b, c], [a, c, b], [b, a, c], [c, a, b], [b, c, a], [c, b, a]] := by
  obtain ⟨front, back, rfl, rest⟩ := perm_cons_split perm
  have pair := perm_two rest
  match front, back with
  | [], _ =>
    rcases pair with h | h <;> simp_all
  | [d], [] => simp at pair
  | [d], e :: more =>
    rcases pair with h | h <;> simp_all
  | [d, e], [] =>
    rcases pair with h | h <;> simp_all
  | [d, e], _ :: _ => simp at pair
  | _ :: _ :: _ :: _, _ => simp at pair

end DocumentBase.Json
