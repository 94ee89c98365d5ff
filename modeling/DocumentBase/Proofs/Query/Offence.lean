import DocumentBase.Proofs.Query.Overlay
import Mathlib.Data.List.TakeWhile

/-!
# DocumentBase.Proofs.Query.Offence

Why lexing refuses a text, and where.  There are four reasons (`Cursor.Refuses`): a colon in a
value, a space in a path, a quote that is never closed, and a colon with nothing behind it.  The
first three are reported at the place of that character, the last one at the end of the text.

What has been read up to some place does not depend on what comes behind the next character
(`Cursor.exists_taken`): a word, spaces and a comparison all end before it.  So a colon or a space
that is refused is refused at the same place whatever comes behind it
(`refusals_point_at_offence`).
-/

namespace DocumentBase

namespace Cursor

/-! ## Reasons -/

/- The reasons are given without the definition of a step.  That there are no others is read off
that definition, branch by branch, as for the steps that go on. -/

/-- Where lexing refuses a text, for which reason, and from where it can be resumed.  A colon or a
space is left where it is; otherwise the text has been read to its end. -/
inductive Refuses : Cursor → QueryError → Cursor → Prop where
  | colon {behind : List Char} {position : Nat} :
      Refuses ⟨':' :: behind, position, .value⟩ (.colonInValue position)
        ⟨':' :: behind, position, .value⟩
  | space {behind : List Char} {position : Nat} :
      Refuses ⟨' ' :: behind, position, .path⟩ (.spaceInPath position)
        ⟨' ' :: behind, position, .path⟩
  | quote {behind : List Char} {position : Nat} {mode : Mode} : '"' ∉ behind →
      Refuses ⟨'"' :: behind, position, mode⟩ (.unclosedQuote position)
        ⟨[], position + (behind.length + 1), mode⟩
  | missing {position : Nat} :
      Refuses ⟨[':'], position, .path⟩ (.missingValue (position + 1)) ⟨[], position + 1, .value⟩

variable {cursor last left : Cursor} {error : QueryError} {behind : List Char}

/-- Each way of refusing is what a step does there. -/
theorem step_of_refuses (h : cursor.Refuses error left) : cursor.step = .refuse error left := by
  cases h with
  | colon | space | missing => rfl
  | @quote behind position mode plain =>
    have all : behind.takeWhile (· != '"') = behind := by
      refine List.takeWhile_eq_self_iff.2 fun c held => ?_
      simp only [bne_iff_ne, ne_eq]
      rintro rfl
      exact plain held
    simp [step, quotedText, all, advance]

/-- A quoted text is refused where it is not closed. -/
theorem refuses_of_quotedText (rest : cursor.rest = '"' :: behind)
    (h : cursor.quotedText behind = .refuse error left) : cursor.Refuses error left := by
  obtain ⟨chars, position, mode⟩ := cursor
  dsimp only at rest
  subst rest
  unfold quotedText at h
  dsimp only at h
  split at h
  · cases h
  · next unclosed =>
    have all : behind.takeWhile (· != '"') = behind :=
      (List.takeWhile_prefix _).eq_of_length_le (Nat.le_of_not_lt unclosed)
    have plain : '"' ∉ behind := by
      rw [← all]
      exact fun held => by simpa using of_mem_takeWhile held
    cases h
    simpa [all, advance] using Refuses.quote plain

/-- A comparison is refused if the text ends at its colon. -/
theorem refuses_of_comparison (rest : cursor.rest = ':' :: behind) (path : cursor.mode = .path)
    (h : cursor.comparison behind = .refuse error left) : cursor.Refuses error left := by
  obtain ⟨chars, position, mode⟩ := cursor
  dsimp only at rest path
  subst rest path
  unfold comparison at h
  split at h <;> cases h
  exact .missing

/-- There are no other reasons. -/
theorem refuses_of_step (h : cursor.step = .refuse error left) : cursor.Refuses error left := by
  obtain ⟨chars, position, mode⟩ := cursor
  unfold step at h
  split at h
  · cases h
  · next c behind rest =>
    dsimp only at rest
    subst rest
    split at h
    · next quote => exact refuses_of_quotedText (by rw [quote]) h
    · split at h
      · next path =>
        dsimp only at path
        subst path
        split at h
        · next colon => exact refuses_of_comparison (by rw [colon]) rfl h
        · split at h
          · cases h
          · split at h
            · next space =>
              cases h
              subst space
              exact .space
            · cases h
      · next value =>
        dsimp only at value
        subst value
        split at h
        · next colon =>
          cases h
          subst colon
          exact .colon
        · split at h <;> cases h

/-! ## What has been read -/

/- The text is changed behind the next character, and the steps that have led there have to be the
same.  They are, for whatever ends a piece is the next character or comes before it. -/

/-- What a step takes is decided by the next character behind it. -/
theorem Takes.congr {mode next : Mode} {taken rest other : List Char} {token? : Option Token}
    (h : Takes mode taken token? next rest) (same : other.head? = rest.head?) :
    Takes mode taken token? next other := by
  cases h with
  | quoted plain => exact .quoted plain
  | word nonempty inside stop => exact .word nonempty inside (same ▸ stop)
  | colon plain => exact .colon (same ▸ plain)
  | point => exact .point
  | spaces count stop => exact .spaces count (same ▸ stop)

theorem exists_onward {next : Cursor} (h : cursor.step.next? = some next) :
    ∃ token?, cursor.step = .onward next token? := by
  cases step : cursor.step with
  | done | refuse =>
    rw [step] at h
    cases h
  | emit token other =>
    rw [step] at h
    cases h
    exact ⟨some token, rfl⟩
  | skip other =>
    rw [step] at h
    cases h
    exact ⟨none, rfl⟩

/-- The steps up to some place take the characters in front of it, and they take them whatever
comes behind the next character. -/
theorem exists_taken {steps : Nat} (h : after steps cursor = some last) :
    ∃ taken, cursor.rest = taken ++ last.rest ∧ last.position = cursor.position + taken.length ∧
      ∀ other : List Char, other.head? = last.rest.head? →
        after steps ⟨taken ++ other, cursor.position, cursor.mode⟩
          = some ⟨other, last.position, last.mode⟩ := by
  induction steps generalizing cursor with
  | zero =>
    cases h
    exact ⟨[], rfl, rfl, fun other _ => rfl⟩
  | succ steps ih =>
    obtain ⟨next, goes_on, there⟩ := Option.bind_eq_some_iff.1 h
    obtain ⟨token?, step⟩ := exists_onward goes_on
    obtain ⟨first, split, moved, takes⟩ := passes_of_step step
    obtain ⟨taken, split', moved', stable⟩ := ih there
    refine ⟨first ++ taken, by rw [split, split', List.append_assoc], ?_, fun other same => ?_⟩
    · rw [moved', moved, List.length_append, Nat.add_assoc]
    · have front : (taken ++ other).head? = next.rest.head? := by
        rw [split', List.head?_append, List.head?_append, same]
      have passes : Passes ⟨first ++ (taken ++ other), cursor.position, cursor.mode⟩ token?
          ⟨taken ++ other, next.position, next.mode⟩ := ⟨first, rfl, moved, takes.congr front⟩
      rw [List.append_assoc, after, step_of_passes passes, next?_onward]
      exact stable other same

/-- Lexing refuses what it comes to refuse. -/
theorem lexHere_of_after {steps : Nat} (there : after steps cursor = some last)
    (refused : last.Refuses error left) : cursor.lexHere = (.error error, left) := by
  induction steps generalizing cursor with
  | zero =>
    cases there
    exact lexHere_refuse (step_of_refuses refused)
  | succ steps ih =>
    obtain ⟨next, goes_on, there⟩ := Option.bind_eq_some_iff.1 there
    obtain ⟨token?, step⟩ := exists_onward goes_on
    rw [lexHere_onward step, ih there]
    rfl

/-- Lexing from a cursor on reads some characters and comes to a last place.  What is refused there
is refused whatever comes behind the next character. -/
structure ReadsTo (cursor : Cursor) (front : List Char) (last : Cursor) : Prop where
  split : cursor.rest = front ++ last.rest
  moved : last.position = cursor.position + front.length
  /-- Spaces that come first are read. -/
  visible : front = [] → last.rest.head? ≠ some ' '
  stable : ∀ (other : List Char) (error : QueryError) (left : Cursor),
    other.head? = last.rest.head? → Refuses ⟨other, last.position, last.mode⟩ error left →
      (Cursor.mk (front ++ other) cursor.position cursor.mode).lex = (.error error, left)

/-- A refusal further on is the refusal of the whole text, with the tokens before it lost. -/
theorem ReadsTo.lex {front : List Char} (h : cursor.ReadsTo front last)
    (refused : last.Refuses error left) : cursor.lex = (.error error, left) := by
  have lexed := h.stable last.rest error left rfl refused
  rwa [← h.split] at lexed

/-- Lexing reads up to the end of the text or up to where it is refused. -/
theorem exists_readsTo (cursor : Cursor) :
    ∃ front last, cursor.ReadsTo front last ∧
      ((last.rest = [] ∧ ∃ tokens, cursor.lex = (.ok tokens, last)) ∨
        ∃ error left, last.Refuses error left) := by
  obtain ⟨chars, position, mode⟩ := cursor
  obtain ⟨count, spaces⟩ := dropWhile_spaces chars
  have visible : (chars.dropWhile (· == ' ')).head? ≠ some ' ' :=
    fun first => by simpa using of_mem_head?_dropWhile first
  generalize chars.dropWhile (· == ' ') = rest at spaces visible
  subst spaces
  have start := @skipSpaces_replicate rest position mode count visible
  obtain ⟨steps, last, there, -, ended⟩ := exists_last ⟨rest, position + count, mode⟩
  obtain ⟨taken, split, moved, stable⟩ := exists_taken there
  dsimp only at split moved stable
  refine ⟨List.replicate count ' ' ++ taken, last, ⟨?_, ?_, ?_, ?_⟩, ?_⟩
  · simp [split]
  · simp [moved, Nat.add_assoc]
  · intro none
    rw [(List.append_eq_nil_iff.1 none).2, List.nil_append] at split
    rwa [← split]
  · intro other error left same refused
    have front : (taken ++ other).head? ≠ some ' ' := by
      rwa [List.head?_append, same, ← List.head?_append, ← split]
    rw [Cursor.lex, List.append_assoc, skipSpaces_replicate count front]
    exact lexHere_of_after (stable other same) refused
  · rcases ended with ⟨tokens, done, lexed⟩ | ⟨error, left, refused, -⟩
    · exact .inl ⟨step_eq_done_iff.1 done, tokens, by rw [Cursor.lex, start, lexed]⟩
    · exact .inr ⟨error, left, refuses_of_step refused⟩

end Cursor

/-! ## Texts -/

/-- What a refused text holds at the place that is reported, and behind it. -/
inductive Offence (text : String) : QueryError → Prop where
  | colon {place : Nat} : text.toList[place]? = some ':' →
      (∀ more : String, Token.ofText (String.ofList (text.toList.take (place + 1)) ++ more)
        = .error (.colonInValue place)) →
      Offence text (.colonInValue place)
  | space {place : Nat} : text.toList[place]? = some ' ' →
      (∀ more : String, Token.ofText (String.ofList (text.toList.take (place + 1)) ++ more)
        = .error (.spaceInPath place)) →
      Offence text (.spaceInPath place)
  | quote {place : Nat} : text.toList[place]? = some '"' →
      '"' ∉ text.toList.drop (place + 1) →
      Offence text (.unclosedQuote place)
  | missing : text.toList.getLast? = some ':' → Offence text (.missingValue text.length)

section Front

variable {text : String} {front behind : List Char} {c : Char}

theorem getElem?_front (split : text.toList = front ++ c :: behind) :
    text.toList[front.length]? = some c := by
  rw [split]
  simp

/-- A text up to some character, and what may come behind it instead. -/
theorem ofList_take_append (split : text.toList = front ++ c :: behind) (more : String) :
    String.ofList (text.toList.take (front.length + 1)) ++ more
      = String.ofList (front ++ c :: more.toList) := by
  rw [split, List.take_length_add_append]
  simp [← String.toList_inj]

end Front

/-- A refused text has been read up to some place, and it is refused there also if it goes on in
another way behind the next character. -/
theorem Token.refuses_of_ofText {text : String} {reason : QueryError}
    (refused : ofText text = .error reason) :
    ∃ front last left, text.toList = front ++ last.rest ∧ last.position = front.length ∧
      Cursor.Refuses last reason left ∧
      ∀ (other : List Char) (error : QueryError) (left : Cursor),
        other.head? = last.rest.head? →
          Cursor.Refuses ⟨other, last.position, last.mode⟩ error left →
          ofText (String.ofList (front ++ other)) = .error error := by
  obtain ⟨front, last, reads, ended⟩ := (Cursor.ofText text).exists_readsTo
  rcases ended with ⟨-, tokens, lexed⟩ | ⟨error, left, offends⟩
  · rw [ofText, lexed] at refused
    cases refused
  · rw [ofText, reads.lex offends] at refused
    cases refused
    refine ⟨front, last, left, reads.split, ?_, offends, fun other error left same again => ?_⟩
    · rw [reads.moved, Cursor.ofText, Nat.zero_add]
    · have lexed := reads.stable other error left same again
      rw [ofText, Cursor.ofText, String.toList_ofList]
      exact congrArg Prod.fst lexed

/-- A text is refused for one of four reasons.  A colon in a value or a space in a path stands at
the place that is reported, counted in characters, and the text up to it is refused for the same
reason whatever comes behind.  Where a quote is reported stands one, and none comes behind it.  A
missing value is reported at the end of the text, behind a colon. -/
theorem refusals_point_at_offence (text : String) (reason : QueryError)
    (refused : Token.ofText text = .error reason) : Offence text reason := by
  obtain ⟨front, last, left, split, place, offends, stable⟩ := Token.refuses_of_ofText refused
  cases offends with
  | colon =>
    dsimp only at place split stable
    subst place
    refine .colon (getElem?_front split) fun more => ?_
    rw [ofList_take_append split]
    exact stable _ _ _ rfl .colon
  | space =>
    dsimp only at place split stable
    subst place
    refine .space (getElem?_front split) fun more => ?_
    rw [ofList_take_append split]
    exact stable _ _ _ rfl .space
  | @quote behind _ _ plain =>
    dsimp only at place split
    subst place
    refine .quote (getElem?_front split) ?_
    rw [split, List.drop_length_add_append]
    exact plain
  | missing =>
    dsimp only at place split
    have length : text.length = front.length + 1 := by
      rw [← String.length_toList, split, List.length_append, List.length_singleton]
    rw [place, ← length]
    refine .missing ?_
    rw [split, List.getLast?_concat]

/-- Places are counted in characters, not in bytes. -/
theorem refusals_point_at_space :
    Token.ofText "é b" = .error (.spaceInPath 1) ∧
    ∀ more : String, Token.ofText ("é " ++ more) = .error (.spaceInPath 1) := by
  have start : (Cursor.ofText "é b").skipSpaces = ⟨['é', ' ', 'b'], 0, .path⟩ := rfl
  have name : (Cursor.mk ['é', ' ', 'b'] 0 .path).step
      = .onward ⟨[' ', 'b'], 1, .path⟩ (some (.segment "é")) := rfl
  have space : (Cursor.mk [' ', 'b'] 1 .path).step
      = .refuse (.spaceInPath 1) ⟨[' ', 'b'], 1, .path⟩ := rfl
  have refused : Token.ofText "é b" = .error (.spaceInPath 1) := by
    rw [Token.ofText, Cursor.lex, start, Cursor.lexHere_onward name, Cursor.lexHere_refuse space]
    rfl
  refine ⟨refused, ?_⟩
  cases refusals_point_at_offence "é b" _ refused with
  | space _ lasts => exact lasts

end DocumentBase
