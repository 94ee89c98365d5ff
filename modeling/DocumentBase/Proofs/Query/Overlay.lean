import DocumentBase.Proofs.Query.Spelling

/-!
# DocumentBase.Proofs.Query.Overlay

Lexing loses and invents nothing.  The tokens of an accepted text lie over it in their order, each
on a spelling of its own, and what is left of the text between them are spaces and points
(`Overlay`).

This is so step by step.  A step that goes on takes a spelling of the token that it emits, or a gap
if it emits none, and it never takes nothing.  So from every place, in either mode, lexing comes to
an end in no more steps than there are characters (`Cursor.exists_last`).
-/

namespace DocumentBase

/-! ## Tokens over a text -/

/-- The spellings of a token: of a name or a value as it is or between quotes, of a comparison its
colon with the sign.  The end of a text has none. -/
inductive TokenSpelling : Token → List Char → Prop where
  | segment {name : String} {chars : List Char} :
      NameSpelling name chars → TokenSpelling (.segment name) chars
  | operator (op : Operator) : TokenSpelling (.operator op) (':' :: op.signChars)
  | bareValue {value : String} : value ≠ "" →
      (∀ c ∈ value.toList, c ≠ ' ' ∧ c ≠ ':' ∧ c ≠ '"') →
      TokenSpelling (.value value) value.toList
  | quotedValue {value : String} : '"' ∉ value.toList →
      TokenSpelling (.value value) ('"' :: (value.toList ++ ['"']))

/-- What can be left between tokens. -/
def IsGap (chars : List Char) : Prop := ∀ c ∈ chars, c = ' ' ∨ c = '.'

/-- Tokens laid over a text in their order: each on a spelling of it, with gaps around them. -/
inductive Overlay : List Token → List Char → Prop where
  | gap {gap : List Char} : IsGap gap → Overlay [] gap
  | token {token : Token} {tokens : List Token} {gap chars rest : List Char} : IsGap gap →
      TokenSpelling token chars → Overlay tokens rest →
      Overlay (token :: tokens) (gap ++ (chars ++ rest))

theorem IsGap.append {gap other : List Char} (first : IsGap gap) (second : IsGap other) :
    IsGap (gap ++ other) :=
  List.forall_mem_append.2 ⟨first, second⟩

theorem isGap_spaces (count : Nat) : IsGap (List.replicate count ' ') :=
  fun _ held => .inl (List.eq_of_mem_replicate held)

/-- A gap in front is joined to the first one. -/
theorem Overlay.of_gap {tokens : List Token} {front rest : List Char} (gap : IsGap front)
    (h : Overlay tokens rest) : Overlay tokens (front ++ rest) := by
  cases h with
  | gap other => exact .gap (gap.append other)
  | token other spelled tail =>
    rw [← List.append_assoc]
    exact .token (gap.append other) spelled tail

/-- A text in quotes is a spelling in either mode. -/
theorem TokenSpelling.of_quoted (mode : Mode) {text : List Char} (plain : '"' ∉ text) :
    TokenSpelling (mode.token (String.ofList text)) ('"' :: (text ++ ['"'])) := by
  cases mode with
  | path => exact .segment (.of_quoted plain)
  | value =>
    have spelled := @TokenSpelling.quotedValue (String.ofList text) (by simpa using plain)
    simpa [Mode.token] using spelled

/-- A word spells the token of its mode. -/
theorem TokenSpelling.of_word {mode : Mode} {text : List Char} (nonempty : text ≠ [])
    (inside : ∀ c ∈ text, mode.endsWord c = false) :
    TokenSpelling (mode.token (String.ofList text)) text := by
  cases mode with
  | path => exact .segment (.of_word nonempty inside)
  | value =>
    have bare : ∀ c ∈ (String.ofList text).toList, c ≠ ' ' ∧ c ≠ ':' ∧ c ≠ '"' := by
      intro c held
      simpa [Mode.endsWord, and_assoc] using inside c (by simpa using held)
    simpa [Mode.token] using TokenSpelling.bareValue (by simpa using nonempty) bare

namespace Cursor

/-! ## Steps -/

/-- What a step takes for a token spells it. -/
theorem Takes.spelling {mode mode' : Mode} {taken rest : List Char} {token : Token}
    (h : Takes mode taken (some token) mode' rest) : TokenSpelling token taken := by
  cases h with
  | quoted plain => exact .of_quoted mode plain
  | word nonempty inside => exact .of_word nonempty inside
  | colon => exact .operator _

/-- What a step takes for no token is a gap. -/
theorem Takes.isGap {mode mode' : Mode} {taken rest : List Char}
    (h : Takes mode taken none mode' rest) : IsGap taken := by
  cases h with
  | point => simp [IsGap]
  | spaces count => exact isGap_spaces (count + 1)

/-! ## Lexing -/

/- No step leaves as many characters as there were, so a run from any cursor has a length, and this
length is what bounds the number of steps. -/

/-- Where lexing is after some steps, if it goes on for that many. -/
def after : Nat → Cursor → Option Cursor
  | 0, cursor => some cursor
  | steps + 1, cursor => cursor.step.next?.bind (after steps)

/-- From every place lexing comes to an end, with success or without. -/
theorem exists_last (cursor : Cursor) :
    ∃ steps last, after steps cursor = some last ∧
      steps + last.rest.length ≤ cursor.rest.length ∧
      ((∃ tokens, last.step = .done ∧ cursor.lexHere = (.ok tokens, last)) ∨
        ∃ error left, last.step = .refuse error left ∧ cursor.lexHere = (.error error, left)) := by
  induction cursor using onward_induction with
  | done cursor ended =>
    exact ⟨0, cursor, rfl, by simp, .inl ⟨_, step_eq_done_iff.2 ended, lexHere_done ended⟩⟩
  | onward cursor next token? step ih =>
    obtain ⟨steps, last, there, bound, ended⟩ := ih
    have goes_on : cursor.step.next? = some next := by rw [step, next?_onward]
    have shorter := length_step_lt goes_on
    refine ⟨steps + 1, last, by rw [after, goes_on]; exact there, by omega, ?_⟩
    rw [lexHere_onward step]
    rcases ended with ⟨tokens, done, lexed⟩ | ⟨error, left, refused, lexed⟩
    · exact .inl ⟨token?.toList ++ tokens, done, by rw [lexed]; rfl⟩
    · exact .inr ⟨error, left, refused, by rw [lexed]; rfl⟩
  | refuse cursor error left refused =>
    exact ⟨0, cursor, rfl, by simp, .inr ⟨error, left, refused, lexHere_refuse refused⟩⟩

end Cursor

/-- The tokens of a text, without the last, lie over it from end to end. -/
theorem Lexes.overlay {mode : Mode} {chars : List Char} {tokens : List Token}
    (h : Lexes mode chars tokens) : ∃ body, tokens = body ++ [.eof] ∧ Overlay body chars := by
  induction h using Lexes.takes_induction with
  | done => exact ⟨[], rfl, .gap (isGap_spaces 0)⟩
  | @takes _ _ _ token? _ _ takes _ ih =>
    obtain ⟨body, rfl, overlay⟩ := ih
    refine ⟨token?.toList ++ body, (List.append_assoc ..).symm, ?_⟩
    cases token? with
    | none => exact overlay.of_gap takes.isGap
    | some token => exact @Overlay.token _ _ [] _ _ (isGap_spaces 0) takes.spelling overlay

/-- The tokens of an accepted text but its end lie over it. -/
theorem Token.overlay_of_ofText {text : String} {tokens : List Token}
    (lexed : ofText text = .ok tokens) :
    ∃ body, tokens = body ++ [.eof] ∧ .eof ∉ body ∧ Overlay body text.toList := by
  have lexes := ofText_eq_ok_iff.1 lexed
  obtain ⟨body, rfl, overlay⟩ := lexes.overlay
  obtain ⟨others, same, inside⟩ := lexes.split_eof
  obtain rfl := List.append_cancel_right same
  obtain ⟨count, split⟩ := dropWhile_spaces text.toList
  rw [split]
  exact ⟨body, rfl, inside, overlay.of_gap (isGap_spaces count)⟩

/-- The tokens of an accepted text but its end lie over the text in their order, with gaps of spaces
and points around them, and the end comes last and once.  Every step that goes on takes at least one
character, and with it the next token or a gap; and from every place, in either mode, lexing ends in
no more steps than there are characters. -/
theorem tokens_lie_over_text :
    (∀ (text : String) (tokens : List Token), Token.ofText text = .ok tokens →
      ∃ body, tokens = body ++ [.eof] ∧ .eof ∉ body ∧ Overlay body text.toList) ∧
    (∀ (cursor next : Cursor) (token? : Option Token), cursor.step = .onward next token? →
      ∃ taken, taken ≠ [] ∧ cursor.rest = taken ++ next.rest ∧
        next.position = cursor.position + taken.length ∧
        (∀ token ∈ token?, TokenSpelling token taken) ∧ (token? = none → IsGap taken)) ∧
    (∀ cursor : Cursor, ∃ steps last, Cursor.after steps cursor = some last ∧
      steps + last.rest.length ≤ cursor.rest.length ∧
      ((∃ tokens, last.step = .done ∧ cursor.lexHere = (.ok tokens, last)) ∨
        ∃ error left, last.step = .refuse error left ∧
          cursor.lexHere = (.error error, left))) := by
  refine ⟨fun text tokens => Token.overlay_of_ofText, ?_, Cursor.exists_last⟩
  intro cursor next token? step
  obtain ⟨taken, split, moved, takes⟩ := Cursor.passes_of_step step
  refine ⟨taken, takes.ne_nil, split, moved, ?_, ?_⟩
  · rintro token held
    obtain rfl := Option.mem_def.1 held
    exact takes.spelling
  · rintro rfl
    exact takes.isGap

/-- Points in front and behind are gaps, and so is one between names; the point in a value is not.
In quotes a space is taken too. -/
theorem tokens_lie_over_points :
    (∃ body, [.segment "a", .segment "b", .operator .gt, .value "1.5", .eof] = body ++ [.eof] ∧
      .eof ∉ body ∧ Overlay body ".a.\"b\":>1.5  .".toList) ∧
    ∃ taken, taken ≠ [] ∧ "\"x y\" ".toList = taken ++ [' '] ∧ 12 = 7 + taken.length ∧
      TokenSpelling (.value "x y") taken := by
  obtain ⟨accepted, steps, -⟩ := tokens_lie_over_text
  have value : Lexes .value ['1', '.', '5', ' ', ' ', '.'] [.value "1.5", .eof] :=
    @Lexes.word _ ['1', '.', '5'] _ _ (by simp) (by simp [Mode.endsWord]) (by simp [Mode.endsWord])
      (@Lexes.spaces ['.'] _ 1 (by simp) (.point .done))
  have second : Lexes .path ['"', 'b', '"', ':', '>', '1', '.', '5', ' ', ' ', '.'] _ :=
    @Lexes.quoted _ ['b'] _ _ (by simp) (@Lexes.colon .gt _ _ (by simp) value)
  have first :
      Lexes .path ['.', 'a', '.', '"', 'b', '"', ':', '>', '1', '.', '5', ' ', ' ', '.'] _ :=
    .point (@Lexes.word _ ['a'] _ _ (by simp) (by simp [Mode.endsWord]) (by simp [Mode.endsWord])
      (.point second))
  have lexed : Token.ofText ".a.\"b\":>1.5  ."
      = .ok [.segment "a", .segment "b", .operator .gt, .value "1.5", .eof] :=
    Token.ofText_eq_ok_iff.2 first
  have step : (Cursor.mk "\"x y\" ".toList 7 .value).step
      = .onward ⟨[' '], 12, .value⟩ (some (.value "x y")) := rfl
  obtain ⟨taken, nonempty, split, moved, spelled, -⟩ := steps _ _ _ step
  exact ⟨accepted _ _ lexed, taken, nonempty, split, moved, spelled _ rfl⟩

end DocumentBase
