import DocumentBase.Query.Assembly

/-!
# DocumentBase.Proofs.Query.Lexing

Lexing as a run of steps.  A step that goes on puts its token, if it emits one, in front of what
lexing finds from the next cursor on (`lexHere_onward`), and what holds of all runs is proved by
induction along them (`onward_induction`).

There is one lemma for each kind of step, about a text of which only the front is known.
Conversely, a step that goes on is of one of these kinds (`step_eq_onward_iff`), so what it does is
read off `Takes` and not off its definition.
-/

namespace DocumentBase

/-- The characters that tell a comparison at its colon; equality has none. -/
def Operator.signChars : Operator → List Char
  | eq => []
  | lt => ['<']
  | gt => ['>']

namespace Cursor

/-! ## Runs -/

/- Lexing calls itself with the next cursor.  How a step can turn out is put into one equation for
each case here, and what is said about runs goes by these equations and the induction at the end. -/

/-- The step that goes on at a cursor, with a token or without one. -/
def Step.onward (next : Cursor) : Option Token → Step
  | some token => .emit token next
  | none => .skip next

@[simp] theorem next?_onward (next : Cursor) (token? : Option Token) :
    (Step.onward next token?).next? = some next := by
  cases token? <;> rfl

/-- Lexing is done where the text ends, and nowhere else. -/
theorem step_eq_done_iff {cursor : Cursor} : cursor.step = .done ↔ cursor.rest = [] := by
  constructor
  · intro h
    unfold step at h
    split at h
    · assumption
    · unfold quotedText comparison word at h
      dsimp only at h
      repeat' split at h
      all_goals cases h
  · intro h
    simp [step, h]

section Running

variable {cursor next : Cursor} {token? : Option Token}

/-- At the end of the text there is the last token, and the cursor stays. -/
theorem lexHere_done (h : cursor.rest = []) : cursor.lexHere = (.ok [.eof], cursor) := by
  have done := step_eq_done_iff.2 h
  rw [lexHere.eq_def]
  split <;> simp_all

/-- What a step emits stands in front of what lexing goes on to find. -/
theorem lexHere_onward (h : cursor.step = .onward next token?) :
    cursor.lexHere = (next.lexHere.1.map (token?.toList ++ ·), next.lexHere.2) := by
  rw [lexHere.eq_def, h]
  cases token? with
  | some token => rfl
  | none =>
    have same : next.lexHere.1.map ([] ++ ·) = next.lexHere.1 := by
      cases next.lexHere.1 <;> simp [Except.map]
    exact Prod.ext same.symm rfl

/-- A step that refuses the text ends the lexing, and the cursor stays where it was left. -/
theorem lexHere_refuse {left : Cursor} {error : QueryError}
    (h : cursor.step = .refuse error left) : cursor.lexHere = (.error error, left) := by
  rw [lexHere.eq_def]
  split <;> simp_all

end Running

/-- Induction along a run: what holds where lexing ends, and at a cursor whenever it holds at the
next one, holds at every cursor. -/
@[elab_as_elim]
theorem onward_induction {motive : Cursor → Prop}
    (done : ∀ cursor, cursor.rest = [] → motive cursor)
    (onward : ∀ cursor next token?, cursor.step = .onward next token? → motive next → motive cursor)
    (refuse : ∀ cursor error left, cursor.step = .refuse error left → motive cursor)
    (cursor : Cursor) : motive cursor := by
  induction cursor using lexHere.induct with
  | case1 cursor ended => exact done cursor (step_eq_done_iff.1 ended)
  | case2 cursor token next step ih => exact onward cursor next (some token) step ih
  | case3 cursor next step ih => exact onward cursor next none step ih
  | case4 cursor error left refused => exact refuse cursor error left refused

/-! ## Steps -/

/- Each lemma is about a text that begins with the piece in question and goes on with any `rest`.
Where a piece ends because of what stands behind it, as a word and spaces do, the lemma says what
`rest` must not begin with. -/

variable {text rest : List Char} {position : Nat} {mode : Mode}

/-- A text without quotes ends where a character says so. -/
theorem step_word (nonempty : text ≠ []) (inside : ∀ c ∈ text, mode.endsWord c = false)
    (stop : ∀ c ∈ rest.head?, mode.endsWord c = true) :
    (Cursor.mk (text ++ rest) position mode).step
      = .emit (mode.token (String.ofList text)) ⟨rest, position + text.length, mode⟩ := by
  have taken : (text ++ rest).takeWhile (!mode.endsWord ·) = text := by
    rw [List.takeWhile_append_of_pos (by simpa using inside)]
    cases rest with
    | nil => simp
    | cons c rest => simp [stop c rfl]
  have word : (Cursor.mk (text ++ rest) position mode).word
      = .emit (mode.token (String.ofList text)) ⟨rest, position + text.length, mode⟩ := by
    simp [Cursor.word, taken, advance]
  obtain ⟨c, behind, rfl⟩ := List.exists_cons_of_ne_nil nonempty
  have first := inside c List.mem_cons_self
  rw [← word]
  cases mode <;> simp_all [step, Mode.endsWord]

/-- A text in quotes ends at the next quote, whatever it holds. -/
theorem step_quoted (plain : '"' ∉ text) :
    (Cursor.mk ('"' :: (text ++ '"' :: rest)) position mode).step
      = .emit (mode.token (String.ofList text)) ⟨rest, position + (text.length + 2), mode⟩ := by
  have taken : (text ++ '"' :: rest).takeWhile (· != '"') = text := by
    have inside : ∀ c ∈ text, (c != '"') = true := by
      intro c hc
      simp only [bne_iff_ne, ne_eq]
      rintro rfl
      exact plain hc
    rw [List.takeWhile_append_of_pos inside]
    simp
  have behind : ('"' :: (text ++ '"' :: rest)).drop (text.length + 2) = rest := by
    simp [List.drop_append]
  simp [step, quotedText, taken, advance, behind]

/-- A colon in a path begins a comparison; the sign that may follow belongs to it.  Without a sign
the text goes on, and not as a sign would. -/
theorem step_colon {op : Operator}
    (plain : op = .eq → ∃ c ∈ rest.head?, c ≠ '<' ∧ c ≠ '>') :
    (Cursor.mk (':' :: (op.signChars ++ rest)) position .path).step
      = .emit (.operator op) ⟨rest, position + (op.signChars.length + 1), .value⟩ := by
  cases op with
  | eq =>
    obtain ⟨c, first, less, greater⟩ := plain rfl
    obtain ⟨behind, rfl⟩ := List.head?_eq_some_iff.1 first
    simp only [step, Operator.signChars, List.nil_append, comparison]
    simp [advance, less, greater]
  | lt => simp [step, Operator.signChars, comparison, advance]
  | gt => simp [step, Operator.signChars, comparison, advance]

/-- A point in a path stands between two names. -/
theorem step_point :
    (Cursor.mk ('.' :: rest) position .path).step = .skip ⟨rest, position + 1, .path⟩ := by
  simp [step, advance]

/-- All spaces at a cursor are skipped, and each moves it by one. -/
theorem skipSpaces_replicate (count : Nat) (stop : rest.head? ≠ some ' ') :
    (Cursor.mk (List.replicate count ' ' ++ rest) position mode).skipSpaces
      = ⟨rest, position + count, mode⟩ := by
  have taken : (List.replicate count ' ' ++ rest).takeWhile (· == ' ')
      = List.replicate count ' ' := by
    rw [List.takeWhile_append_of_pos (by simp)]
    cases rest with
    | nil => simp
    | cons c rest =>
      have other : c ≠ ' ' := by simpa using stop
      simp [other]
  simp [skipSpaces, taken, advance]

/-- Spaces behind a value lead to the next path. -/
theorem step_spaces (count : Nat) (stop : rest.head? ≠ some ' ') :
    (Cursor.mk (List.replicate (count + 1) ' ' ++ rest) position .value).step
      = .skip ⟨rest, position + (count + 1), .path⟩ := by
  have spaces := @skipSpaces_replicate rest position .value (count + 1) stop
  rw [List.replicate_succ, List.cons_append] at spaces ⊢
  simp [step, spaces]

/-! ## What a step takes -/

/- `Takes` is what the lemmas above have in common, without positions.  For the converse the
definition of a step is gone through once: each of its branches that goes on takes one of the five
pieces, and the others do not go on. -/

/-- What a step takes from the front of a text that goes on with `rest`: the characters, the token
that they are unless they are passed over, and the mode in which lexing goes on. -/
inductive Takes : Mode → List Char → Option Token → Mode → List Char → Prop where
  | quoted {mode : Mode} {text rest : List Char} : '"' ∉ text →
      Takes mode ('"' :: (text ++ ['"'])) (some (mode.token (String.ofList text))) mode rest
  | word {mode : Mode} {text rest : List Char} : text ≠ [] →
      (∀ c ∈ text, mode.endsWord c = false) → (∀ c ∈ rest.head?, mode.endsWord c = true) →
      Takes mode text (some (mode.token (String.ofList text))) mode rest
  | colon {op : Operator} {rest : List Char} :
      (op = .eq → ∃ c ∈ rest.head?, c ≠ '<' ∧ c ≠ '>') →
      Takes .path (':' :: op.signChars) (some (.operator op)) .value rest
  | point {rest : List Char} : Takes .path ['.'] none .path rest
  | spaces {rest : List Char} (count : Nat) : rest.head? ≠ some ' ' →
      Takes .value (List.replicate (count + 1) ' ') none .path rest

/-- A step that goes on takes a character at least. -/
theorem Takes.ne_nil {taken : List Char} {token? : Option Token} {mode next : Mode}
    (h : Takes mode taken token? next rest) : taken ≠ [] := by
  cases h with
  | word nonempty => exact nonempty
  | _ => simp [List.replicate_succ]

/-- What stands between a cursor and the next one is what a step takes. -/
def Passes (cursor : Cursor) (token? : Option Token) (next : Cursor) : Prop :=
  ∃ taken, cursor.rest = taken ++ next.rest ∧ next.position = cursor.position + taken.length ∧
    Takes cursor.mode taken token? next.mode next.rest

/-- Each way of passing is what a step does there. -/
theorem step_of_passes {cursor next : Cursor} {token? : Option Token}
    (h : cursor.Passes token? next) : cursor.step = .onward next token? := by
  obtain ⟨chars, position, mode⟩ := cursor
  obtain ⟨rest, position', mode'⟩ := next
  obtain ⟨taken, split, moved, takes⟩ := h
  dsimp only at split moved takes
  subst split moved
  cases takes with
  | @quoted _ text _ plain =>
    have step := @step_quoted text rest position mode plain
    simpa [Step.onward] using step
  | word nonempty inside stop => exact step_word nonempty inside stop
  | colon plain => exact step_colon plain
  | point => exact step_point
  | spaces count stop => simpa [Step.onward] using step_spaces count stop

theorem of_mem_takeWhile {p : Char → Bool} {chars : List Char} {c : Char}
    (h : c ∈ chars.takeWhile p) : p c = true :=
  List.all_eq_true.1 List.all_takeWhile c h

theorem of_mem_head?_dropWhile {p : Char → Bool} {chars : List Char} {c : Char}
    (h : c ∈ (chars.dropWhile p).head?) : p c = false := by
  have stop := List.head?_dropWhile_not p chars
  rw [h] at stop
  exact stop

/-- Behind what is taken stands what remains. -/
theorem drop_length_takeWhile (p : Char → Bool) (chars : List Char) :
    chars.drop (chars.takeWhile p).length = chars.dropWhile p := by
  have split : chars.takeWhile p ++ chars.dropWhile p = chars := List.takeWhile_append_dropWhile
  calc
    chars.drop (chars.takeWhile p).length
        = (chars.takeWhile p ++ chars.dropWhile p).drop (chars.takeWhile p).length := by rw [split]
    _ = chars.dropWhile p := List.drop_left

section Passing

variable {cursor next : Cursor} {token? : Option Token} {behind : List Char}

/-- A quoted text that is closed is passed with its quotes. -/
theorem passes_quotedText (rest : cursor.rest = '"' :: behind)
    (h : cursor.quotedText behind = .onward next token?) : cursor.Passes token? next := by
  have split : behind.takeWhile (· != '"') ++ behind.dropWhile (· != '"') = behind :=
    List.takeWhile_append_dropWhile
  have plain : '"' ∉ behind.takeWhile (· != '"') := fun held => by simpa using of_mem_takeWhile held
  unfold quotedText at h
  dsimp only at h
  split at h
  · next closed =>
    obtain ⟨c, after, remains⟩ : ∃ c after, behind.dropWhile (· != '"') = c :: after := by
      refine List.exists_cons_of_ne_nil fun none => ?_
      rw [none, List.append_nil] at split
      rw [split] at closed
      exact Nat.lt_irrefl _ closed
    have stop := @of_mem_head?_dropWhile (· != '"') behind c (by rw [remains]; rfl)
    obtain rfl : c = '"' := by simpa using stop
    rw [remains] at split
    generalize behind.takeWhile (· != '"') = text at *
    cases token? with
    | none => cases h
    | some token =>
      cases h
      have behind_text : (cursor.advance (text.length + 2)).rest = after := by
        simp [advance, rest, ← split]
      refine ⟨'"' :: (text ++ ['"']), ?_, by simp [advance], .quoted plain⟩
      rw [rest, ← split, behind_text]
      simp
  · cases token? <;> cases h

/-- A colon is passed with the sign that stands behind it. -/
theorem passes_comparison (rest : cursor.rest = ':' :: behind) (path : cursor.mode = .path)
    (h : cursor.comparison behind = .onward next token?) : cursor.Passes token? next := by
  obtain ⟨chars, position, mode⟩ := cursor
  dsimp only at rest path
  subst rest path
  unfold comparison at h
  split at h
  · cases token? <;> cases h
  · cases token? <;> cases h
    exact ⟨[':', '<'], rfl, rfl, @Takes.colon .lt _ (by simp)⟩
  · cases token? <;> cases h
    exact ⟨[':', '>'], rfl, rfl, @Takes.colon .gt _ (by simp)⟩
  · next nonempty less greater =>
    cases token? <;> cases h
    obtain ⟨c, after, rfl⟩ := List.exists_cons_of_ne_nil nonempty
    exact ⟨[':'], rfl, rfl, @Takes.colon .eq _ (by simp_all [advance])⟩

/-- A word is passed up to what ends it in this mode. -/
theorem passes_word {c : Char} (rest : cursor.rest = c :: behind)
    (inside : cursor.mode.endsWord c = false) (h : cursor.word = .onward next token?) :
    cursor.Passes token? next := by
  have nonempty : cursor.rest.takeWhile (!cursor.mode.endsWord ·) ≠ [] := by simp [rest, inside]
  cases token? with
  | none => cases h
  | some token =>
    cases h
    refine ⟨cursor.rest.takeWhile (!cursor.mode.endsWord ·), ?_, rfl, .word nonempty ?_ ?_⟩
    · simp only [advance, drop_length_takeWhile]
      exact List.takeWhile_append_dropWhile.symm
    · intro c held
      simpa using of_mem_takeWhile held
    · intro c first
      simp only [advance, drop_length_takeWhile] at first
      simpa using of_mem_head?_dropWhile first

/-- Spaces behind a value are passed together, and a path begins behind them. -/
theorem passes_spaces (rest : cursor.rest = ' ' :: behind) (value : cursor.mode = .value) :
    cursor.Passes none { cursor.skipSpaces with mode := .path } := by
  have blanks : cursor.rest.takeWhile (· == ' ')
      = List.replicate ((behind.takeWhile (· == ' ')).length + 1) ' ' := by
    refine List.eq_replicate_iff.2 ⟨by simp [rest], fun c held => ?_⟩
    simpa using of_mem_takeWhile held
  refine ⟨cursor.rest.takeWhile (· == ' '), ?_, rfl, ?_⟩
  · simp only [skipSpaces, advance, drop_length_takeWhile]
    exact List.takeWhile_append_dropWhile.symm
  · rw [blanks, value]
    refine .spaces _ fun first => ?_
    simp only [skipSpaces, advance, drop_length_takeWhile] at first
    simpa using of_mem_head?_dropWhile first

/-- A step that goes on passes in one of these ways. -/
theorem passes_of_step (h : cursor.step = .onward next token?) : cursor.Passes token? next := by
  unfold step at h
  split at h
  · cases token? <;> cases h
  · next c behind rest =>
    split at h
    · next quote => exact passes_quotedText (quote ▸ rest) h
    · split at h
      · next mode =>
        split at h
        · next colon => exact passes_comparison (colon ▸ rest) mode h
        · split at h
          · next point =>
            cases token? <;> cases h
            refine ⟨['.'], by simp [advance, rest, point], rfl, ?_⟩
            show Takes cursor.mode ['.'] none cursor.mode _
            rw [mode]
            exact .point
          · split at h
            · cases token? <;> cases h
            · exact passes_word rest (by simp_all [Mode.endsWord]) h
      · next mode =>
        split at h
        · cases token? <;> cases h
        · split at h
          · next space =>
            cases token? <;> cases h
            exact passes_spaces (space ▸ rest) mode
          · exact passes_word rest (by simp_all [Mode.endsWord]) h

/-- A step goes on exactly where the text begins with something that a step takes. -/
theorem step_eq_onward_iff : cursor.step = .onward next token? ↔ cursor.Passes token? next :=
  ⟨passes_of_step, step_of_passes⟩

end Passing

end Cursor
end DocumentBase
