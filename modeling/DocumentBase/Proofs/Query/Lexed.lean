import DocumentBase.Proofs.Collecting
import DocumentBase.Proofs.Query.Lexing

/-!
# DocumentBase.Proofs.Query.Lexed

The texts that lexing accepts, and their tokens, without cursors and positions.  `Lexes` has one
rule for each thing that a text can begin with: a text in quotes, a word, a colon with its sign, a
point, spaces.  Lexing succeeds with some tokens exactly when `Lexes` says so
(`Token.ofText_eq_ok_iff`), so what holds of every accepted text is proved by induction on its
rules.
-/

namespace DocumentBase

/-- The tokens of a text that is read in a mode. -/
inductive Lexes : Mode → List Char → List Token → Prop where
  | done {mode : Mode} : Lexes mode [] [.eof]
  | quoted {mode : Mode} {text rest : List Char} {tokens : List Token} :
      '"' ∉ text → Lexes mode rest tokens →
      Lexes mode ('"' :: (text ++ '"' :: rest)) (mode.token (String.ofList text) :: tokens)
  | word {mode : Mode} {text rest : List Char} {tokens : List Token} :
      text ≠ [] → (∀ c ∈ text, mode.endsWord c = false) →
      (∀ c ∈ rest.head?, mode.endsWord c = true) → Lexes mode rest tokens →
      Lexes mode (text ++ rest) (mode.token (String.ofList text) :: tokens)
  | colon {op : Operator} {rest : List Char} {tokens : List Token} :
      (op = .eq → ∃ c ∈ rest.head?, c ≠ '<' ∧ c ≠ '>') → Lexes .value rest tokens →
      Lexes .path (':' :: (op.signChars ++ rest)) (.operator op :: tokens)
  | point {rest : List Char} {tokens : List Token} :
      Lexes .path rest tokens → Lexes .path ('.' :: rest) tokens
  | spaces {rest : List Char} {tokens : List Token} (count : Nat) :
      rest.head? ≠ some ' ' → Lexes .path rest tokens →
      Lexes .value (List.replicate (count + 1) ' ' ++ rest) tokens

/-! ## One rule for all -/

/- The rules of `Lexes` are those of `Takes`, each with the tokens of the rest.  So they are one
rule, and a proof that treats all pieces alike needs no case for each. -/

section Rules

variable {mode next : Mode} {taken chars rest : List Char} {token? : Option Token}
  {tokens : List Token}

/-- What a step takes in front of an accepted text makes it an accepted text again. -/
theorem Lexes.of_takes (takes : Cursor.Takes mode taken token? next rest)
    (tail : Lexes next rest tokens) : Lexes mode (taken ++ rest) (token?.toList ++ tokens) := by
  cases takes with
  | quoted plain => simpa using Lexes.quoted plain tail
  | word nonempty inside stop => exact .word nonempty inside stop tail
  | colon plain => simpa using Lexes.colon plain tail
  | point => exact .point tail
  | spaces count stop => exact .spaces count stop tail

/-- Induction for what does not depend on the kinds of steps. -/
@[elab_as_elim]
theorem Lexes.takes_induction
    {motive : ∀ mode chars tokens, Lexes mode chars tokens → Prop}
    (done : ∀ mode, motive mode [] [.eof] .done)
    (takes : ∀ {mode next taken token? rest tokens}
      (takes : Cursor.Takes mode taken token? next rest) (tail : Lexes next rest tokens),
      motive next rest tokens tail → motive mode _ _ (.of_takes takes tail))
    (h : Lexes mode chars tokens) : motive mode chars tokens h := by
  induction h with
  | done => exact done _
  | quoted plain tail ih => simpa using takes (.quoted plain) tail ih
  | word nonempty inside stop tail ih => exact takes (.word nonempty inside stop) tail ih
  | colon plain tail ih => simpa using takes (.colon plain) tail ih
  | point tail ih => exact takes .point tail ih
  | spaces count stop tail ih => exact takes (.spaces count stop) tail ih

end Rules

/-! ## Lexing follows the rules -/

/- Positions are only counted, so they can be anything.  From the rules to the cursor the induction
is on the rules, and from the cursor to the rules it is along the run. -/

namespace Cursor

/-- What the rules lex is what a cursor returns, wherever it stands. -/
theorem lexHere_of_lexes {mode : Mode} {chars : List Char} {tokens : List Token}
    (h : Lexes mode chars tokens) (position : Nat) :
    (Cursor.mk chars position mode).lexHere.1 = .ok tokens := by
  induction h using Lexes.takes_induction generalizing position with
  | done => rw [lexHere_done rfl]
  | @takes mode next taken token? rest _ takes _ ih =>
    have passes : Passes ⟨taken ++ rest, position, mode⟩ token?
        ⟨rest, position + taken.length, next⟩ := ⟨taken, rfl, rfl, takes⟩
    rw [lexHere_onward (step_of_passes passes), ih]
    rfl

/-- What a cursor returns is lexed by the rules. -/
theorem lexes_of_lexHere {cursor : Cursor} {tokens : List Token}
    (h : cursor.lexHere.1 = .ok tokens) : Lexes cursor.mode cursor.rest tokens := by
  induction cursor using onward_induction generalizing tokens with
  | done cursor ended =>
    rw [lexHere_done ended] at h
    cases h
    rw [ended]
    exact .done
  | onward cursor next token? step ih =>
    rw [lexHere_onward step, Collecting.map_eq_ok_iff] at h
    obtain ⟨others, lexed, rfl⟩ := h
    obtain ⟨taken, split, -, takes⟩ := passes_of_step step
    rw [split]
    exact .of_takes takes (ih lexed)
  | refuse cursor error left refused =>
    rw [lexHere_refuse refused] at h
    cases h

end Cursor

/-- Spaces in front, and what remains. -/
theorem dropWhile_spaces (chars : List Char) :
    ∃ count, chars = List.replicate count ' ' ++ chars.dropWhile (· == ' ') := by
  refine ⟨(chars.takeWhile (· == ' ')).length, ?_⟩
  have blanks : chars.takeWhile (· == ' ')
      = List.replicate (chars.takeWhile (· == ' ')).length ' ' :=
    List.eq_replicate_iff.2 ⟨rfl, fun c held => by simpa using Cursor.of_mem_takeWhile held⟩
  rw [← blanks, List.takeWhile_append_dropWhile]

/-- A text is accepted with some tokens exactly when it has them by the rules, spaces in front being
of no account. -/
theorem Token.ofText_eq_ok_iff {text : String} {tokens : List Token} :
    Token.ofText text = .ok tokens ↔ Lexes .path (text.toList.dropWhile (· == ' ')) tokens := by
  have start : (Cursor.ofText text).skipSpaces
      = ⟨text.toList.dropWhile (· == ' '), (text.toList.takeWhile (· == ' ')).length, .path⟩ := by
    simp [Cursor.skipSpaces, Cursor.ofText, Cursor.advance, Cursor.drop_length_takeWhile]
  rw [Token.ofText, Cursor.lex, start]
  exact ⟨Cursor.lexes_of_lexHere, fun h => Cursor.lexHere_of_lexes h _⟩

/-- Spaces in front of an accepted text are of no account. -/
theorem Token.ofText_of_lexes {text : String} {front : Nat} {chars : List Char}
    {tokens : List Token} (split : text.toList = List.replicate front ' ' ++ chars)
    (visible : chars.head? ≠ some ' ') (h : Lexes .path chars tokens) :
    Token.ofText text = .ok tokens := by
  have start : text.toList.dropWhile (· == ' ') = chars := by
    rw [split, List.dropWhile_append_of_pos (by simp)]
    cases chars with
    | nil => rfl
    | cons c chars =>
      have other : c ≠ ' ' := by simpa using visible
      simp [other]
  rw [ofText_eq_ok_iff, start]
  exact h

/-! ## What all tokens have in common -/

/-- The end of a text is no piece of it. -/
theorem Cursor.Takes.ne_eof {mode next : Mode} {taken rest : List Char} {token : Token}
    (h : Takes mode taken (some token) next rest) : token ≠ .eof := by
  cases h with
  | quoted | word => cases mode <;> simp [Mode.token]
  | colon => simp

/-- The end of the text is the last token, and no other. -/
theorem Lexes.split_eof {mode : Mode} {chars : List Char} {tokens : List Token}
    (h : Lexes mode chars tokens) : ∃ body, tokens = body ++ [.eof] ∧ .eof ∉ body := by
  induction h using Lexes.takes_induction with
  | done => exact ⟨[], rfl, List.not_mem_nil⟩
  | @takes _ _ _ token? _ _ takes _ ih =>
    obtain ⟨body, rfl, inside⟩ := ih
    refine ⟨token?.toList ++ body, (List.append_assoc ..).symm, ?_⟩
    rw [List.mem_append, not_or]
    refine ⟨fun held => ?_, inside⟩
    obtain rfl := Option.mem_toList.1 held
    exact takes.ne_eof rfl

/-! ## How accepted texts begin -/

/-- A word does not begin with a character that ends it. -/
theorem Lexes.head_word {mode : Mode} {text rest : List Char} (nonempty : text ≠ [])
    (inside : ∀ c ∈ text, mode.endsWord c = false) {stop : Char}
    (ends : mode.endsWord stop = true) :
    (text ++ rest).head? ≠ some stop := by
  obtain ⟨c, text, rfl⟩ := List.exists_cons_of_ne_nil nonempty
  rintro first
  cases first
  rw [inside stop List.mem_cons_self] at ends
  cases ends

/-- A path does not begin with a space. -/
theorem Lexes.head_ne_space {chars : List Char} {tokens : List Token}
    (h : Lexes .path chars tokens) : chars.head? ≠ some ' ' := by
  generalize path : Mode.path = mode at h
  cases h with
  | word nonempty inside => exact head_word nonempty inside (by simp [Mode.endsWord])
  | spaces => cases path
  | _ => simp

/-- Behind a value there can be any number of spaces. -/
theorem Lexes.of_spaces {rest : List Char} {tokens : List Token} (h : Lexes .path rest tokens)
    (count : Nat) : Lexes .value (List.replicate (count + 1) ' ' ++ rest) tokens :=
  .spaces count h.head_ne_space h

/-! ## Queries -/

namespace Query

variable {text : String} {query : Query}

/-- An accepted text is empty, or its tokens are assembled to the clauses of the query. -/
theorem assembled_of_parse (parsed : parse text = .ok query) :
    ∃ body, Token.ofText text = .ok (body ++ [.eof]) ∧ .eof ∉ body ∧
      Clause.assemble {} (body ++ [.eof]) = .ok query.clauses := by
  unfold parse at parsed
  split at parsed
  · next blank =>
    cases parsed
    obtain rfl := String.isEmpty_iff.1 blank
    exact ⟨[], Token.ofText_eq_ok_iff.2 .done, List.not_mem_nil, rfl⟩
  · split at parsed
    · cases parsed
    · next tokens lexed =>
      obtain ⟨body, rfl, inside⟩ := (Token.ofText_eq_ok_iff.1 lexed).split_eof
      refine ⟨body, lexed, inside, ?_⟩
      split at parsed
      · cases parsed
      · cases parsed
      · next clauses _ assembled =>
        cases parsed
        exact assembled

/-- A text that is not empty is read as some clauses or refused. -/
theorem ne_nil_of_parse (nonempty : text ≠ "") (parsed : parse text = .ok query) :
    query.clauses ≠ [] := by
  unfold parse at parsed
  rw [if_neg (by simpa [String.isEmpty_iff] using nonempty)] at parsed
  split at parsed
  · cases parsed
  · split at parsed
    · cases parsed
    · cases parsed
    · next some_clause _ =>
      cases parsed
      exact some_clause

end Query

end DocumentBase
