import DocumentBase.Json.Container
import DocumentBase.Proofs.Collecting
import DocumentBase.Proofs.Json.Strings
import DocumentBase.Proofs.Number.Layout

/-!
# DocumentBase.Proofs.Json.Reading

What readers make of written texts.  `Reads` says it for one reader and one text: the result does
not depend on what comes behind the text, if that is only a comma or a closing bracket, and all of
it is left.  Scalars are read one by one; a list and an object are read if their elements are, and
give the first failure among these or else all of their values.
-/

namespace DocumentBase.Json

open Digits

/-- What may stand behind a value: nothing, or what goes on with the container around it. -/
def Delimited (text : List UInt8) : Prop :=
  ∀ b ∈ text.head?, b = Ascii.comma ∨ b = Ascii.closeBracket ∨ b = Ascii.closeBrace

/-- What a reader makes of a text, whatever stands behind it. -/
def Reads (reader : Reader α) (chars : List Char) (result : Except DecodeError α) : Prop :=
  ∀ rest, Delimited rest →
    reader.run (Utf8.encode chars ++ rest) = result.map fun value => (value, rest)

/-- The byte that tells what value a text writes. -/
def StartsWith (chars : List Char) (first : UInt8) : Prop :=
  (Utf8.encode chars).head? = some first ∧ isBlank first = false

/-- The end of the text delimits a value. -/
theorem delimited_nil : Delimited [] := fun _ h => by cases h

theorem delimited_comma (rest : List UInt8) : Delimited (Ascii.comma :: rest) := by
  rintro _ ⟨⟩
  exact .inl rfl

theorem delimited_closeBracket (rest : List UInt8) : Delimited (Ascii.closeBracket :: rest) := by
  rintro _ ⟨⟩
  exact .inr (.inl rfl)

theorem delimited_closeBrace (rest : List UInt8) : Delimited (Ascii.closeBrace :: rest) := by
  rintro _ ⟨⟩
  exact .inr (.inr rfl)

/-- What delimits values does not continue a number. -/
theorem Delimited.numberEnd {text : List UInt8} (h : Delimited text) : NumberEnd text := by
  intro b hb
  rcases h b hb with rfl | rfl | rfl <;> decide

namespace Reader

/-! ## Looking ahead -/

theorem skipBlanks_cons {b : UInt8} (h : isBlank b = false) (text : List UInt8) :
    skipBlanks (b :: text) = b :: text :=
  List.dropWhile_cons_of_neg (by simp [h])

/-- Looking ahead at a byte that is no blank shows the byte and leaves it. -/
theorem run_ahead_cons {b : UInt8} (inside : Part) (h : isBlank b = false) (text : List UInt8) :
    (ahead inside).run (b :: text) = .ok (b, b :: text) := by
  rw [run_ahead, skipBlanks_cons h]

/-- Looking ahead at a written value shows the byte that tells its kind. -/
theorem run_ahead_chars {chars : List Char} {first : UInt8} (inside : Part)
    (h : StartsWith chars first) (rest : List UInt8) :
    (ahead inside).run (Utf8.encode chars ++ rest)
      = .ok (first, Utf8.encode chars ++ rest) := by
  obtain ⟨head, visible⟩ := h
  obtain ⟨tail, bytes⟩ := List.head?_eq_some_iff.1 head
  rw [bytes]
  exact run_ahead_cons inside visible _

/-! ## Scalars -/

theorem reads_null : Reads (scalar Ascii.lowerN) nullChars (.ok .null) := fun _ _ => rfl

theorem reads_bool (b : Bool) :
    Reads (scalar (if b then Ascii.lowerT else Ascii.lowerF)) (boolChars b) (.ok (.bool b)) := by
  intro rest _
  cases b <;> rfl

/-- The text of a string is read back, its escapes with it. -/
theorem reads_string (s : String) :
    Reads (scalar Ascii.quote) (stringChars s) (.ok (.string s)) := by
  intro rest _
  show (do advance; Scalar.string <$> stringTail : Reader Scalar).run
    (Ascii.quote :: (Utf8.encode (s.toList.flatMap escapeChar ++ ['"']) ++ rest)) = _
  rw [run_bind_ok (run_advance 1 _), List.drop_succ_cons, List.drop_zero, run_map, stringTail_chars]
  rfl

theorem startsWith_string (s : String) : StartsWith (stringChars s) Ascii.quote := ⟨rfl, rfl⟩

/-- The text of a number begins with its sign or with a digit. -/
theorem startsWith_numeral (n : Numeral) :
    ∃ first, StartsWith (numeralChars n) first
      ∧ (first = Ascii.minus ∨ (ofByte? first).isSome) := by
  obtain ⟨first, head, start⟩ := head_numeral n
  refine ⟨first, ⟨head, ?_⟩, start⟩
  rcases start with rfl | digit
  · rfl
  · unfold ofByte? at digit
    split at digit
    · next range => grind [isBlank]
    · cases digit

/-- The text of a number is read back to the same number, integer or not, as nothing that delimits
values continues it. -/
theorem reads_numeral (n : Numeral) : Reads number (numeralChars n) (.ok n) := by
  intro rest stop
  cases n with
  | integer n fits => exact number_integer n fits stop.numberEnd
  | double x => exact number_write x stop.numberEnd

/-! ## Lists -/

/- The reader of a list looks for a comma or a bracket, and the writer puts commas between the
elements.  So both are seen as rounds: each element but the first comes behind its comma. -/

/-- Texts with commas between them are the first text, and each of the others behind a comma. -/
theorem commaJoin_cons (text : List Char) (rest : List (List Char)) :
    commaJoin (text :: rest) = text ++ rest.flatMap fun more => ',' :: more := by
  induction rest generalizing text with
  | nil => simp [commaJoin]
  | cons next rest ih => rw [commaJoin, ih, List.flatMap_cons, List.cons_append]; simp

/-- Behind a comma the next element of a list is read, if the text does not close the list. -/
theorem moreElements_comma (element : Reader α) {text : List UInt8} {first : UInt8}
    (head : text.head? = some first) (visible : isBlank first = false)
    (not_end : first ≠ Ascii.closeBracket) :
    moreElements element (Ascii.comma :: text)
      = match element.run text with
        | .error e => .error e
        | .ok (value, more) =>
          (moreElements element more).map fun (values, last) => (value :: values, last) := by
  obtain ⟨behind, rfl⟩ := List.head?_eq_some_iff.1 head
  rw [moreElements.eq_def]
  split
  · next found => cases found
  · next found =>
    rw [skipBlanks_cons rfl] at found
    cases found
    rw [if_neg (by decide), if_pos rfl, skipBlanks_cons visible]
    dsimp only
    rw [if_neg not_end]
    split
    · next failed => rw [failed]
    · next value more read =>
      rw [read]
      dsimp only
      cases moreElements element more <;> rfl

/-- The first element of a list is read, if the text does not close the list at once. -/
theorem allElements_first (element : Reader α) {text : List UInt8} {first : UInt8}
    (head : text.head? = some first) (visible : isBlank first = false)
    (not_end : first ≠ Ascii.closeBracket) :
    allElements element text
      = match element.run text with
        | .error e => .error e
        | .ok (value, more) =>
          (moreElements element more).map fun (values, last) => (value :: values, last) := by
  obtain ⟨behind, rfl⟩ := List.head?_eq_some_iff.1 head
  unfold allElements
  rw [skipBlanks_cons visible]
  dsimp only
  rw [if_neg not_end]
  cases element.run (first :: behind) with
  | error e => rfl
  | ok read =>
    obtain ⟨value, more⟩ := read
    dsimp only
    cases moreElements element more <;> rfl

section Lists

variable {ι α : Type} {element : Reader α} {chars : ι → List Char}
  {result : ι → Except DecodeError α}

/-- The items of a list are written as values, and read one by one. -/
def ReadsItems (element : Reader α) (chars : ι → List Char) (result : ι → Except DecodeError α)
    (items : List ι) : Prop :=
  ∀ item ∈ items, Reads element (chars item) (result item)
    ∧ ∃ first, StartsWith (chars item) first ∧ first ≠ Ascii.closeBracket

/-- Behind a value there is a comma or a closing bracket. -/
theorem delimited_items (chars : ι → List Char) (items : List ι) (rest : List UInt8) :
    Delimited (Utf8.encode (items.flatMap fun item => ',' :: chars item)
      ++ Ascii.closeBracket :: rest) := by
  cases items with
  | nil => exact delimited_closeBracket rest
  | cons item items => exact delimited_comma _

theorem head?_append_of_some {front back : List UInt8} {b : UInt8} (h : front.head? = some b) :
    (front ++ back).head? = some b := by
  rw [List.head?_append, h]
  rfl

/-- Written elements behind commas are read one after the other, up to the closing bracket; the
first that cannot be read ends the reading. -/
theorem moreElements_chars {items : List ι} (h : ReadsItems element chars result items)
    (rest : List UInt8) :
    moreElements element (Utf8.encode (items.flatMap fun item => ',' :: chars item)
        ++ Ascii.closeBracket :: rest)
      = (items.mapM result).map fun values => (values, rest) := by
  induction items with
  | nil =>
    show moreElements element (Ascii.closeBracket :: rest) = .ok ([], rest)
    rw [moreElements.eq_def]
    rfl
  | cons item items ih =>
    obtain ⟨reads, first, ⟨head, visible⟩, not_end⟩ := h item List.mem_cons_self
    have tail := ih fun item hi => h item (List.mem_cons_of_mem _ hi)
    have here := reads _ (delimited_items chars items rest)
    have text : Utf8.encode ((item :: items).flatMap fun item => ',' :: chars item)
          ++ Ascii.closeBracket :: rest
        = Ascii.comma :: (Utf8.encode (chars item)
          ++ (Utf8.encode (items.flatMap fun item => ',' :: chars item)
            ++ Ascii.closeBracket :: rest)) := by
      rw [List.flatMap_cons, Utf8.encode_append, List.append_assoc]
      rfl
    rw [text, moreElements_comma element (head?_append_of_some head) visible not_end, here,
      Collecting.mapM_cons]
    cases result item with
    | error e => rfl
    | ok value =>
      show (moreElements element _).map _ = _
      rw [tail]
      cases items.mapM result <;> rfl

/-- The elements of a written list, behind its opening bracket. -/
theorem elements_chars {items : List ι} (h : ReadsItems element chars result items) :
    Reads (elements element) (commaJoin (items.map chars) ++ [']']) (items.mapM result) := by
  intro rest _
  have closing : Utf8.encode [']'] = [Ascii.closeBracket] := rfl
  rw [Utf8.encode_append, closing, List.append_assoc, List.singleton_append]
  show allElements element _ = _
  cases items with
  | nil => rfl
  | cons item items =>
    obtain ⟨reads, first, ⟨head, visible⟩, not_end⟩ := h item List.mem_cons_self
    have tail := moreElements_chars (fun item hi => h item (List.mem_cons_of_mem _ hi)) rest
    have here := reads _ (delimited_items chars items rest)
    rw [List.map_cons, commaJoin_cons, List.flatMap_map, Utf8.encode_append, List.append_assoc,
      allElements_first element (head?_append_of_some head) visible not_end, here,
      Collecting.mapM_cons]
    cases result item with
    | error e => rfl
    | ok value =>
      show (moreElements element _).map _ = _
      rw [tail]
      cases items.mapM result <;> rfl

end Lists

/-! ## Objects -/

/- The fields of an object go in rounds as well.  A step carries its state from field to field, so
the results are those of a fold along the fields. -/

section Objects

variable {ι σ : Type} {step : σ → String → Reader σ} {name : ι → String} {chars : ι → List Char}
  {next : ι → σ → Except DecodeError σ}

/-- The fields of an object are written as values, and a step takes each behind its name. -/
def ReadsFields (step : σ → String → Reader σ) (name : ι → String) (chars : ι → List Char)
    (next : ι → σ → Except DecodeError σ) (entries : List ι) : Prop :=
  ∀ entry ∈ entries, ∀ state,
    Reads (step state (name entry)) (':' :: chars entry) (next entry state)

/-- What stands behind a field of an object delimits its value. -/
theorem delimited_fields (name : ι → String) (chars : ι → List Char) (entries : List ι)
    (rest : List UInt8) :
    Delimited (Utf8.encode
        (entries.flatMap fun entry => ',' :: fieldChars (name entry) (chars entry))
      ++ Ascii.closeBrace :: rest) := by
  cases entries with
  | nil => exact delimited_closeBrace rest
  | cons entry entries => exact delimited_comma _

/-- A written field behind its opening quote. -/
theorem field_chars {n : String} {text : List Char} {state : σ} {result : Except DecodeError σ}
    (h : Reads (step state n) (':' :: text) result) :
    Reads (field step state) (n.toList.flatMap escapeChar ++ ['"'] ++ ':' :: text) result := by
  intro rest delimited
  rw [Utf8.encode_append, List.append_assoc, field, run_bind_ok (stringTail_chars n _)]
  exact h rest delimited

/-- A field begins with the quote of its name. -/
theorem encode_field (n : String) (text : List Char) (rest : List UInt8) :
    Utf8.encode (fieldChars n text) ++ rest
      = Ascii.quote :: (Utf8.encode (n.toList.flatMap escapeChar ++ ['"'] ++ ':' :: text)
        ++ rest) := by
  unfold fieldChars stringChars
  rw [List.cons_append, Utf8.encode_cons]
  rfl

/-- Behind a comma and a quote the next field of an object is read. -/
theorem moreFields_comma (step : σ → String → Reader σ) (state : σ) (text : List UInt8) :
    moreFields step state (Ascii.comma :: Ascii.quote :: text)
      = match (field step state).run text with
        | .error e => .error e
        | .ok (state', more) => moreFields step state' more := by
  rw [moreFields.eq_def]
  split
  · next found => cases found
  · next found =>
    rw [skipBlanks_cons rfl] at found
    cases found
    rw [if_neg (by decide), if_pos rfl]
    split
    · next found => cases found
    · next found =>
      rw [skipBlanks_cons rfl] at found
      cases found
      rw [if_pos rfl]
      split
      · next failed => rw [failed]
      · next read => rw [read]

/-- Written fields behind commas are taken one after the other, up to the closing brace, each by the
state that the fields before it have left. -/
theorem moreFields_chars {entries : List ι} (h : ReadsFields step name chars next entries)
    (state : σ) (rest : List UInt8) :
    moreFields step state
        (Utf8.encode (entries.flatMap fun entry => ',' :: fieldChars (name entry) (chars entry))
          ++ Ascii.closeBrace :: rest)
      = (entries.foldlM (fun state entry => next entry state) state).map
        fun final => (final, rest) := by
  induction entries generalizing state with
  | nil =>
    show moreFields step state (Ascii.closeBrace :: rest) = .ok (state, rest)
    rw [moreFields.eq_def]
    rfl
  | cons entry entries ih =>
    have here := field_chars (h entry List.mem_cons_self state) _
      (delimited_fields name chars entries rest)
    rw [List.flatMap_cons, Utf8.encode_append, List.append_assoc, Utf8.encode_cons,
      List.append_assoc, encode_field]
    show moreFields step state (Ascii.comma :: Ascii.quote :: _) = _
    rw [moreFields_comma, here, List.foldlM_cons]
    cases next entry state with
    | error e => rfl
    | ok state' => exact ih (fun entry he => h entry (List.mem_cons_of_mem _ he)) state'

/-- The fields of a written object, behind its opening brace. -/
theorem fields_chars {entries : List ι} (h : ReadsFields step name chars next entries) (state : σ) :
    Reads (fields step state)
      (commaJoin (entries.map fun entry => fieldChars (name entry) (chars entry)) ++ ['\x7d'])
      (entries.foldlM (fun state entry => next entry state) state) := by
  intro rest _
  have closing : Utf8.encode ['\x7d'] = [Ascii.closeBrace] := rfl
  rw [Utf8.encode_append, closing, List.append_assoc, List.singleton_append]
  show allFields step state _ = _
  cases entries with
  | nil => rfl
  | cons entry entries =>
    have here := field_chars (h entry List.mem_cons_self state) _
      (delimited_fields name chars entries rest)
    have tail := moreFields_chars (fun entry he => h entry (List.mem_cons_of_mem _ he))
    rw [List.map_cons, commaJoin_cons, List.flatMap_map, Utf8.encode_append, List.append_assoc,
      encode_field]
    unfold allFields
    rw [skipBlanks_cons rfl]
    dsimp only
    rw [if_neg (by decide), if_pos rfl, here, List.foldlM_cons]
    cases next entry state with
    | error e => rfl
    | ok state' => exact tail state' rest

end Objects

end Reader
end DocumentBase.Json
