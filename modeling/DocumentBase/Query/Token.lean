import DocumentBase.Query.Clause
import DocumentBase.Query.Error

/-!
# DocumentBase.Query.Token

The tokens of a query.  A clause is a path, a colon and a value; spaces stand between clauses:

    name.name:value  name:<value  "any name":"any value"

The same characters mean different things in a path and in a value: a point separates names but
belongs to a value, and a space ends a value but is refused in a path.  So lexing carries a mode.
It also can be resumed: a cursor that has been lexed, with success or without, is left where lexing
stopped, and can be lexed again from there.
-/

namespace DocumentBase

/-- A token of a query. -/
inductive Token where
  /-- One name of a path. -/
  | segment (text : String)
  /-- The comparison, read at the colon. -/
  | operator (op : Operator)
  | value (text : String)
  /-- The end of the text. -/
  | eof
deriving DecidableEq

/-- What is being lexed: a path up to its colon, or a value up to a space. -/
inductive Mode where
  | path
  | value
deriving DecidableEq

namespace Mode

/-- The token of a text in this mode. -/
def token (text : String) : Mode → Token
  | path => .segment text
  | value => .value text

/-- Whether a character ends a text without quotes. -/
def endsWord (mode : Mode) (c : Char) : Bool :=
  c == ' ' || c == ':' || c == '"' || (c == '.' && mode == path)

end Mode

/-- A place in a text that is being lexed. -/
structure Cursor where
  /-- The characters not yet read. -/
  rest : List Char
  /-- How many characters have been read. -/
  position : Nat
  mode : Mode

namespace Cursor

/-- The start of a text. -/
def ofText (text : String) : Cursor := ⟨text.toList, 0, .path⟩

/-- The cursor behind the next characters, of which there are `count`. -/
def advance (cursor : Cursor) (count : Nat) : Cursor :=
  { cursor with rest := cursor.rest.drop count, position := cursor.position + count }

/-- The cursor behind the spaces that come next. -/
def skipSpaces (cursor : Cursor) : Cursor :=
  cursor.advance (cursor.rest.takeWhile (· == ' ')).length

/-! ## One step -/

/-- What happens at a cursor. -/
inductive Step where
  /-- The text has ended. -/
  | done
  | emit (token : Token) (next : Cursor)
  | skip (next : Cursor)
  /-- The text is refused; lexing again would start from `left`. -/
  | refuse (error : QueryError) (left : Cursor)

/-- A text in quotes, at the opening quote.  There are no escapes. -/
def quotedText (cursor : Cursor) (behind : List Char) : Step :=
  let text := behind.takeWhile (· != '"')
  if text.length < behind.length then
    .emit (cursor.mode.token (String.ofList text)) (cursor.advance (text.length + 2))
  else .refuse (.unclosedQuote cursor.position) (cursor.advance (text.length + 1))

/-- The comparison that a colon begins, at the colon of a path. -/
def comparison (cursor : Cursor) (behind : List Char) : Step :=
  let cursor := { cursor with mode := .value }
  match behind with
  | [] => .refuse (.missingValue (cursor.position + 1)) (cursor.advance 1)
  | '<' :: _ => .emit (.operator .lt) (cursor.advance 2)
  | '>' :: _ => .emit (.operator .gt) (cursor.advance 2)
  | _ => .emit (.operator .eq) (cursor.advance 1)

/-- A text without quotes, as long as it goes. -/
def word (cursor : Cursor) : Step :=
  let text := cursor.rest.takeWhile (!cursor.mode.endsWord ·)
  .emit (cursor.mode.token (String.ofList text)) (cursor.advance text.length)

/-- What happens at a cursor.  The first character decides. -/
def step (cursor : Cursor) : Step :=
  match cursor.rest with
  | [] => .done
  | c :: behind =>
    if c = '"' then cursor.quotedText behind
    else
      match cursor.mode with
      | .path =>
        if c = ':' then cursor.comparison behind
        else if c = '.' then .skip (cursor.advance 1)
        else if c = ' ' then .refuse (.spaceInPath cursor.position) cursor
        else cursor.word
      | .value =>
        if c = ':' then .refuse (.colonInValue cursor.position) cursor
        else if c = ' ' then .skip { cursor.skipSpaces with mode := .path }
        else cursor.word

/-- The cursor with which lexing goes on after a step, if it does. -/
def Step.next? : Step → Option Cursor
  | emit _ next | skip next => some next
  | done | refuse .. => none

/-! ## Progress -/

@[simp] theorem length_advance (cursor : Cursor) (count : Nat) :
    (cursor.advance count).rest.length = cursor.rest.length - count := by
  simp [advance]

/-- A cursor that is not at the end gets closer to it when it goes on. -/
theorem length_advance_lt {cursor : Cursor} {count : Nat} (rest : cursor.rest ≠ [])
    (pos : 0 < count) : (cursor.advance count).rest.length < cursor.rest.length := by
  have := List.length_pos_iff.2 rest
  rw [length_advance]
  omega

/-- Behind a quoted text a cursor stands closer to the end, for the opening quote has been taken. -/
theorem length_quotedText_lt {cursor next : Cursor} {behind : List Char}
    (h : (cursor.quotedText behind).next? = some next) (rest : cursor.rest ≠ []) :
    next.rest.length < cursor.rest.length := by
  simp only [quotedText] at h
  split at h
  · cases h; exact length_advance_lt rest (by omega)
  · cases h

/-- Behind a comparison a cursor stands closer to the end, for the colon has been taken. -/
theorem length_comparison_lt {cursor next : Cursor} {behind : List Char}
    (h : (cursor.comparison behind).next? = some next) (rest : cursor.rest ≠ []) :
    next.rest.length < cursor.rest.length := by
  unfold comparison at h
  have shorter {count : Nat} (pos : 0 < count) :=
    @length_advance_lt { cursor with mode := .value } count rest pos
  split at h <;> cases h <;> exact shorter (by omega)

/-- Behind a word a cursor stands closer to the end, for the word has at least the character that it
begins with. -/
theorem length_word_lt {cursor next : Cursor} {c : Char} {behind : List Char}
    (h : cursor.word.next? = some next) (rest : cursor.rest = c :: behind)
    (inside : cursor.mode.endsWord c = false) : next.rest.length < cursor.rest.length := by
  cases h
  refine length_advance_lt (by simp [rest]) ?_
  simp [rest, inside]

/-- Every step that goes on takes a character at least. -/
theorem length_step_lt {cursor next : Cursor} (h : cursor.step.next? = some next) :
    next.rest.length < cursor.rest.length := by
  unfold step at h
  split at h
  · cases h
  · next c behind rest =>
    have nonempty : cursor.rest ≠ [] := by simp [rest]
    split at h
    · exact length_quotedText_lt h nonempty
    · split at h
      · next mode =>
        split at h
        · exact length_comparison_lt h nonempty
        · split at h
          · cases h; exact length_advance_lt nonempty (by omega)
          · split at h
            · cases h
            · exact length_word_lt h rest (by simp_all [Mode.endsWord])
      · next mode =>
        split at h
        · cases h
        · split at h
          · cases h
            refine length_advance_lt nonempty ?_
            simp_all
          · exact length_word_lt h rest (by simp_all [Mode.endsWord])

/-! ## Lexing -/

/-- Lexes up to the end of the text or up to where it is refused.  The tokens of a refused text are
lost; where lexing stopped is returned in both cases. -/
def lexHere (cursor : Cursor) : Except QueryError (List Token) × Cursor :=
  match _taken : cursor.step with
  | .done => (.ok [.eof], cursor)
  | .emit token next => ((next.lexHere.1).map (token :: ·), next.lexHere.2)
  | .skip next => next.lexHere
  | .refuse error left => (.error error, left)
termination_by cursor.rest.length
decreasing_by
  all_goals exact length_step_lt (by rw [_taken]; rfl)

/-- Lexes from a cursor on; spaces that come first are skipped in either mode. -/
def lex (cursor : Cursor) : Except QueryError (List Token) × Cursor := cursor.skipSpaces.lexHere

end Cursor

/-- The tokens of a text. -/
def Token.ofText (text : String) : Except QueryError (List Token) := (Cursor.ofText text).lex.1

end DocumentBase
