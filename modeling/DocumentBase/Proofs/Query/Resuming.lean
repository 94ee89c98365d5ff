import DocumentBase.Proofs.Query.Offence

/-!
# DocumentBase.Proofs.Query.Resuming

Lexing a text again and again on one cursor, which is left each time where lexing stopped.

1. A space in a path is left in place, and spaces that come first are skipped.  So lexing goes on
   behind it, as if the text began there (`Cursor.lex_of_space`): it does not depend on what stands
   in front of a text but for the places that it reports (`Cursor.lex_shift`).
2. A colon in a value is left in place too, but it is refused again and again.
3. In every other case the text has been read to its end, and nothing is left but the end.

Each refused space stands behind the one before, so there are only so many of them, and one of the
other cases comes (`resumes_until_settled`).
-/

namespace DocumentBase

/-- The reason where other characters stand in front of the text. -/
def QueryError.shift (count : Nat) : QueryError → QueryError
  | colonInValue position => colonInValue (count + position)
  | spaceInPath position => spaceInPath (count + position)
  | missingValue position => missingValue (count + position)
  | unclosedQuote position => unclosedQuote (count + position)
  | reason => reason

namespace Cursor

variable {cursor next last left : Cursor} {error : QueryError} {token? : Option Token}

/-! ## Characters in front -/

/- Two cursors that differ in their positions only run side by side: a position is counted and
reported, and nothing depends on it. -/

/-- The same place where other characters stand in front of the text. -/
def shift (count : Nat) (cursor : Cursor) : Cursor :=
  { cursor with position := count + cursor.position }

/-- What a cursor passes does not depend on its position. -/
theorem Passes.shift (h : cursor.Passes token? next) (count : Nat) :
    (cursor.shift count).Passes token? (next.shift count) := by
  obtain ⟨taken, split, moved, takes⟩ := h
  refine ⟨taken, split, ?_, takes⟩
  simp only [Cursor.shift, moved, Nat.add_assoc]

/-- Why a cursor refuses does not depend on its position, and the refusal moves along. -/
theorem Refuses.shift (h : cursor.Refuses error left) (count : Nat) :
    (cursor.shift count).Refuses (error.shift count) (left.shift count) := by
  cases h with
  | colon => exact .colon
  | space => exact .space
  | quote plain =>
    simp only [Cursor.shift, QueryError.shift, ← Nat.add_assoc]
    exact .quote plain
  | missing => exact .missing

/-- A cursor with more characters in front of it lexes the same, and its refusals move along. -/
theorem lexHere_shift (cursor : Cursor) (count : Nat) :
    (cursor.shift count).lexHere
      = (cursor.lexHere.1.mapError (.shift count), cursor.lexHere.2.shift count) := by
  induction cursor using onward_induction with
  | done cursor ended =>
    have ended' : (cursor.shift count).rest = [] := ended
    rw [lexHere_done ended, lexHere_done ended']
    rfl
  | onward cursor next token? step ih =>
    have moved := step_eq_onward_iff.2 ((step_eq_onward_iff.1 step).shift count)
    rw [lexHere_onward step, lexHere_onward moved, ih]
    cases next.lexHere.1 <;> rfl
  | refuse cursor error left refused =>
    have moved := step_of_refuses ((refuses_of_step refused).shift count)
    rw [lexHere_refuse refused, lexHere_refuse moved]
    rfl

/-- What stands in front of a text only moves the places that are reported. -/
theorem lex_shift (cursor : Cursor) (count : Nat) :
    (cursor.shift count).lex
      = (cursor.lex.1.mapError (.shift count), cursor.lex.2.shift count) := by
  have start : (cursor.shift count).skipSpaces = cursor.skipSpaces.shift count := by
    simp [skipSpaces, advance, Cursor.shift, Nat.add_assoc]
  rw [lex, start, lexHere_shift]
  rfl

/-! ## Where a call leaves the cursor -/

/-- A refusal leaves the cursor behind what it has read of the text. -/
theorem Refuses.reads (h : last.Refuses error left) :
    ∃ front, last.rest = front ++ left.rest ∧ left.position = last.position + front.length := by
  cases h with
  | colon | space => exact ⟨[], rfl, rfl⟩
  | @quote behind => exact ⟨'"' :: behind, by simp, rfl⟩
  | missing => exact ⟨[':'], rfl, rfl⟩

/-- A cursor is never moved back. -/
theorem exists_read (cursor : Cursor) :
    ∃ front, cursor.rest = front ++ cursor.lex.2.rest ∧
      cursor.lex.2.position = cursor.position + front.length := by
  obtain ⟨front, last, reads, ⟨-, tokens, lexed⟩ | ⟨error, left, refused⟩⟩ := cursor.exists_readsTo
  · rw [lexed]
    exact ⟨front, reads.split, reads.moved⟩
  · obtain ⟨more, split, moved⟩ := refused.reads
    rw [reads.lex refused]
    refine ⟨front ++ more, by rw [reads.split, split, List.append_assoc], ?_⟩
    rw [moved, reads.moved, List.length_append, Nat.add_assoc]

/-- At the end of the text nothing but the end is left. -/
theorem lex_of_ended (ended : cursor.rest = []) : cursor.lex = (.ok [.eof], cursor) := by
  obtain ⟨chars, position, mode⟩ := cursor
  dsimp only at ended
  subst ended
  exact lexHere_done rfl

/-- A colon in a value is not passed. -/
theorem lex_of_colon (behind : List Char) (position : Nat) :
    (Cursor.mk (':' :: behind) position .value).lex
      = (.error (.colonInValue position), ⟨':' :: behind, position, .value⟩) :=
  lexHere_refuse (step_of_refuses .colon)

/-- A cursor at some place of a text. -/
def Within (chars : List Char) (cursor : Cursor) : Prop :=
  ∃ front, chars = front ++ cursor.rest ∧ cursor.position = front.length

/-- A call leaves the cursor within the text. -/
theorem Within.lex {chars : List Char} (h : Within chars cursor) : Within chars cursor.lex.2 := by
  obtain ⟨front, split, place⟩ := h
  obtain ⟨more, split', moved⟩ := cursor.exists_read
  refine ⟨front ++ more, by rw [split, split', List.append_assoc], ?_⟩
  rw [moved, place, List.length_append]

/-- Behind a refused space the cursor is as at the beginning of the text that is left. -/
theorem lex_of_space {chars : List Char} {place : Nat} (within : Within chars cursor)
    (h : cursor.lex.1 = .error (.spaceInPath place)) :
    cursor.lex.2 = (ofText (String.ofList (chars.drop place))).shift place := by
  have within' := within.lex
  obtain ⟨front, last, reads, ⟨-, tokens, lexed⟩ | ⟨error, left, refused⟩⟩ := cursor.exists_readsTo
  · rw [lexed] at h
    cases h
  · rw [reads.lex refused] at h within' ⊢
    cases h
    cases refused with
    | @space behind =>
      obtain ⟨before, split, rfl⟩ := within'
      rw [split, List.drop_left]
      simp [ofText, shift]

/-! ## One call after another -/

/- Each call begins at the cursor that the last one has left.  If that is a space, what is left of
the text is less than before, and the induction is on this; in the other cases the answers do not
change any more. -/

/-- Where some calls leave a cursor. -/
def again : Nat → Cursor → Cursor
  | 0, cursor => cursor
  | calls + 1, cursor => again calls cursor.lex.2

/-- What a cursor answers to one more call, after some calls. -/
def answer (cursor : Cursor) (calls : Nat) : Except QueryError (List Token) :=
  (again calls cursor).lex.1

theorem again_add (calls more : Nat) (cursor : Cursor) :
    again (calls + more) cursor = again more (again calls cursor) := by
  induction calls generalizing cursor with
  | zero => rw [Nat.zero_add, again]
  | succ calls ih => rw [Nat.succ_add, again, again, ih]

/-- One call more starts from where the others have left the cursor. -/
theorem again_succ (calls : Nat) (cursor : Cursor) :
    again (calls + 1) cursor = (again calls cursor).lex.2 :=
  again_add calls 1 cursor

theorem again_shift (calls : Nat) (cursor : Cursor) (count : Nat) :
    again calls (cursor.shift count) = (again calls cursor).shift count := by
  induction calls generalizing cursor with
  | zero => rfl
  | succ calls ih => rw [again, again, lex_shift, ih]

section Answers

variable {result : Except QueryError (List Token)}

theorem answer_zero (lexed : cursor.lex = (result, left)) : cursor.answer 0 = result := by
  rw [answer, again, lexed]

/-- The further answers are those of the cursor that is left. -/
theorem answer_succ (lexed : cursor.lex = (result, left)) (calls : Nat) :
    cursor.answer (calls + 1) = left.answer calls := by
  rw [answer, again, lexed, answer]

/-- A call that leaves the cursor where it was is answered in the same way ever after. -/
theorem answer_of_fixed (fixed : cursor.lex = (result, cursor)) (calls : Nat) :
    cursor.answer calls = result := by
  induction calls with
  | zero => exact answer_zero fixed
  | succ calls ih => rwa [answer_succ fixed]

end Answers

theorem Within.again {chars : List Char} (calls : Nat) (h : Within chars cursor) :
    Within chars (again calls cursor) := by
  induction calls generalizing cursor with
  | zero => exact h
  | succ calls ih => exact ih h.lex

/-- The answers of one cursor: first some spaces are refused, each behind the one before, and then
the same colon is refused for ever, or the text has ended after one more answer. -/
structure Course (answer : Nat → Except QueryError (List Token)) (spaces : List Nat) : Prop where
  refused : ∀ (calls place : Nat), spaces[calls]? = some place →
    answer calls = .error (.spaceInPath place)
  increasing : spaces.Pairwise (· < ·)
  settled :
    (∃ place, ∀ calls ≥ spaces.length, answer calls = .error (.colonInValue place)) ∨
      ((∃ tokens, answer spaces.length = .ok tokens) ∨
        (∃ place, answer spaces.length = .error (.unclosedQuote place)) ∨
        ∃ place, answer spaces.length = .error (.missingValue place)) ∧
      ∀ calls > spaces.length, answer calls = .ok [.eof]

/-- A refusal at a space and the course behind it are one course. -/
theorem Course.cons {answer : Nat → Except QueryError (List Token)} {spaces : List Nat}
    {place : Nat} (first : answer 0 = .error (.spaceInPath place))
    (behind : ∀ other ∈ spaces, place < other)
    (h : Course (fun calls => answer (calls + 1)) spaces) : Course answer (place :: spaces) where
  refused := by
    rintro (_ | calls) other there
    · cases there
      exact first
    · exact h.refused calls other there
  increasing := .cons behind h.increasing
  settled := by
    rcases h.settled with ⟨other, always⟩ | ⟨final, ended⟩
    · refine .inl ⟨other, ?_⟩
      rintro (_ | calls) bound
      · cases bound
      · exact always calls (Nat.le_of_succ_le_succ bound)
    · refine .inr ⟨final, ?_⟩
      rintro (_ | calls) bound
      · cases bound
      · exact ended calls (Nat.lt_of_succ_lt_succ bound)

/-- Where the text has been read to its end, one more answer comes and then the end. -/
theorem course_of_ended {result : Except QueryError (List Token)}
    (lexed : cursor.lex = (result, left)) (ended : left.rest = [])
    (final : (∃ tokens, result = .ok tokens) ∨ (∃ place, result = .error (.unclosedQuote place)) ∨
      ∃ place, result = .error (.missingValue place)) : Course cursor.answer [] where
  refused := by simp
  increasing := .nil
  settled := by
    refine .inr ⟨by simpa [answer_zero lexed] using final, ?_⟩
    rintro (_ | calls) bound
    · cases bound
    · rw [answer_succ lexed, answer_of_fixed (lex_of_ended ended)]

/-- At a colon in a value every call is refused in the same way, as the cursor stays there. -/
theorem course_of_colon {behind : List Char} {position : Nat}
    (lexed : cursor.lex
      = (.error (.colonInValue position), ⟨':' :: behind, position, .value⟩)) :
    Course cursor.answer [] where
  refused := by simp
  increasing := .nil
  settled := by
    refine .inl ⟨position, ?_⟩
    rintro (_ | calls) -
    · exact answer_zero lexed
    · rw [answer_succ lexed, answer_of_fixed (lex_of_colon behind position)]

/-- A refused space stands behind everything that has been read before. -/
theorem ReadsTo.behind_space {front behind : List Char} {position : Nat}
    (h : cursor.ReadsTo front ⟨' ' :: behind, position, .path⟩) :
    cursor.position < position ∧ (' ' :: behind).length < cursor.rest.length := by
  have some_char : 0 < front.length := List.length_pos_iff.2 fun none => h.visible none rfl
  have moved : position = cursor.position + front.length := h.moved
  have split : cursor.rest = front ++ ' ' :: behind := h.split
  rw [moved, split, List.length_append]
  omega

/-- From each cursor there is a course: the refused spaces lie further and further into the text, so
there are only so many of them. -/
theorem exists_course (cursor : Cursor) :
    ∃ spaces, Course cursor.answer spaces ∧ ∀ place ∈ spaces, cursor.position < place := by
  -- What is left is shorter after each space that is refused.
  induction size : cursor.rest.length using Nat.strong_induction_on generalizing cursor with
  | _ size ih =>
    subst size
    obtain ⟨front, last, reads, ⟨ended, tokens, lexed⟩ | ⟨error, left, refused⟩⟩ :=
      cursor.exists_readsTo
    · exact ⟨[], course_of_ended lexed ended (.inl ⟨tokens, rfl⟩), by simp⟩
    · have lexed := reads.lex refused
      cases refused with
      | colon => exact ⟨[], course_of_colon lexed, by simp⟩
      | @space behind position =>
        obtain ⟨moved, shorter⟩ := reads.behind_space
        obtain ⟨spaces, course, later⟩ := ih _ shorter ⟨' ' :: behind, position, .path⟩ rfl
        have others : (fun calls => cursor.answer (calls + 1))
            = (Cursor.mk (' ' :: behind) position .path).answer := funext (answer_succ lexed)
        refine ⟨position :: spaces, .cons (answer_zero lexed) later (by rwa [others]), ?_⟩
        exact List.forall_mem_cons.2
          ⟨moved, fun place held => Nat.lt_trans moved (later place held)⟩
      | quote => exact ⟨[], course_of_ended lexed rfl (.inr (.inl ⟨_, rfl⟩)), by simp⟩
      | missing => exact ⟨[], course_of_ended lexed rfl (.inr (.inr ⟨_, rfl⟩)), by simp⟩

end Cursor

/-- However often a text is lexed on one cursor, the cursor is never moved back and not behind the
end of the text.  Some spaces in paths are refused first, each behind the one before; then the same
colon in a value is refused for ever, or after one more answer there is nothing but the end.  And
after a refused space the answers are those to the text from there on, but for the places. -/
theorem resumes_until_settled (text : String) :
    (∀ calls : Nat, (Cursor.again calls (.ofText text)).position
        ≤ (Cursor.again (calls + 1) (.ofText text)).position ∧
      (Cursor.again calls (.ofText text)).position ≤ text.length) ∧
    (∃ spaces, Cursor.Course (Cursor.ofText text).answer spaces) ∧
    (∀ calls place : Nat, (Cursor.ofText text).answer calls = .error (.spaceInPath place) →
      ∀ more : Nat, (Cursor.ofText text).answer (calls + 1 + more)
        = ((Cursor.ofText (String.ofList (text.toList.drop place))).answer more).mapError
          (.shift place)) := by
  have within (calls : Nat) : Cursor.Within text.toList (Cursor.again calls (.ofText text)) :=
    Cursor.Within.again calls ⟨[], rfl, rfl⟩
  refine ⟨fun calls => ⟨?_, ?_⟩, ?_, fun calls place refused more => ?_⟩
  · obtain ⟨front, -, moved⟩ := (Cursor.again calls (.ofText text)).exists_read
    rw [Cursor.again_succ, moved]
    exact Nat.le_add_right _ _
  · obtain ⟨front, split, place⟩ := within calls
    rw [place, ← String.length_toList, split, List.length_append]
    exact Nat.le_add_right _ _
  · obtain ⟨spaces, course, -⟩ := (Cursor.ofText text).exists_course
    exact ⟨spaces, course⟩
  · rw [Cursor.answer, Cursor.again_add, Cursor.again_succ,
      Cursor.lex_of_space (within calls) refused, Cursor.again_shift, Cursor.lex_shift]
    rfl

/-- A text with two names behind the first.  Behind the first space it is refused as the text that
begins there, whose second space stands at place two, and one character stands in front. -/
theorem resumes_behind_space :
    (Cursor.ofText "a b c").answer 0 = .error (.spaceInPath 1) ∧
    (Cursor.ofText " b c").answer 0 = .error (.spaceInPath 2) ∧
    (Cursor.ofText "a b c").answer 1 = .error (.spaceInPath 3) := by
  have refused {text : String} {name : Char} {behind : List Char} {place : Nat}
      (start : (Cursor.ofText text).skipSpaces = ⟨name :: ' ' :: behind, place, .path⟩)
      (word : (Cursor.mk (name :: ' ' :: behind) place .path).step
        = .onward ⟨' ' :: behind, place + 1, .path⟩ (some (.segment (String.ofList [name])))) :
      (Cursor.ofText text).answer 0 = .error (.spaceInPath (place + 1)) := by
    rw [Cursor.answer, Cursor.again, Cursor.lex, start, Cursor.lexHere_onward word,
      Cursor.lexHere_refuse (Cursor.step_of_refuses .space)]
    rfl
  have first : (Cursor.ofText "a b c").answer 0 = .error (.spaceInPath 1) := refused rfl rfl
  have behind : (Cursor.ofText " b c").answer 0 = .error (.spaceInPath 2) := refused rfl rfl
  have next := (resumes_until_settled "a b c").2.2 0 1 first 0
  have rest : String.ofList ("a b c".toList.drop 1) = " b c" := rfl
  rw [rest, behind] at next
  exact ⟨first, behind, next⟩

end DocumentBase
