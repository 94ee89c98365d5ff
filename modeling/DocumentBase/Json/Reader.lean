import DocumentBase.Json.Error
import DocumentBase.Text.Ascii

/-!
# DocumentBase.Json.Reader

Readers of JSON text.  A reader takes bytes from the front of a text and returns what they mean
with the bytes that are left, or the reason why they do not decode.  That no reader ever lengthens
its text is part of the type: a loop that takes a byte of its own in every round terminates for
any reader of its elements.
-/

namespace DocumentBase.Json

/-- What a reader returns: a value and the bytes left, or the reason for refusing the text. -/
abbrev Outcome (α : Type) := Except DecodeError (α × List UInt8)

/-- A reader of values from the front of a text. -/
structure Reader (α : Type) where
  run : List UInt8 → Outcome α
  length_le : ∀ {text value rest}, run text = .ok (value, rest) → rest.length ≤ text.length

namespace Reader

/-! ## Combining readers -/

/-- Reads nothing. -/
protected def pure (value : α) : Reader α where
  run text := .ok (value, text)
  length_le h := by cases h; exact Nat.le_refl _

/-- Reads with the first reader and then with the one that its value chooses. -/
protected def bind (first : Reader α) (next : α → Reader β) : Reader β where
  run text :=
    match first.run text with
    | .error e => .error e
    | .ok (value, rest) => (next value).run rest
  length_le {text value rest} h := by
    split at h
    · cases h
    · next first_ok => exact Nat.le_trans ((next _).length_le h) (first.length_le first_ok)

instance : Monad Reader where
  pure := Reader.pure
  bind := Reader.bind

/-- Refuses every text. -/
def fail (e : DecodeError) : Reader α where
  run _ := .error e
  length_le h := by cases h

@[simp] theorem run_pure (value : α) (text : List UInt8) :
    (pure value : Reader α).run text = .ok (value, text) := rfl

/-- Two readers one after the other: the second reads what the first has left, and a failure of the
first is the failure of both. -/
theorem run_bind (first : Reader α) (next : α → Reader β) (text : List UInt8) :
    (first >>= next).run text =
      match first.run text with
      | .error e => .error e
      | .ok (value, rest) => (next value).run rest := rfl

@[simp] theorem run_fail (e : DecodeError) (text : List UInt8) :
    (fail e : Reader α).run text = .error e := rfl

/-- Where the first reader is known to read a value, the second goes on with it. -/
theorem run_bind_ok {first : Reader α} {next : α → Reader β} {text rest : List UInt8} {value : α}
    (h : first.run text = .ok (value, rest)) :
    (first >>= next).run text = (next value).run rest := by
  rw [run_bind, h]

/-- A mapped reader reads the same text, and the value that it has read is mapped. -/
@[simp] theorem run_map (f : α → β) (reader : Reader α) (text : List UInt8) :
    (f <$> reader).run text = (reader.run text).map fun (value, rest) => (f value, rest) := by
  show (reader >>= fun value => pure (f value)).run text = _
  rw [run_bind]
  cases reader.run text <;> rfl

/-! ## Bytes -/

/-- The byte at the front, which stays there; none at the end of the text. -/
def peek : Reader (Option UInt8) where
  run text := .ok (text.head?, text)
  length_le h := by cases h; exact Nat.le_refl _

/-- Drops some bytes at the front. -/
def advance (count : Nat := 1) : Reader Unit where
  run text := .ok ((), text.drop count)
  length_le h := by cases h; simp

/-- Takes the byte at the front; a text that ends here has ended inside the given part. -/
def next (inside : Part) : Reader UInt8 where
  run
    | [] => .error (.endOfText inside)
    | b :: rest => .ok (b, rest)
  length_le {text value rest} h := by
    split at h
    · cases h
    · cases h; simp

end Reader

/-! ## Blanks -/

/-- The four bytes that may stand between the parts of a text. -/
def isBlank (b : UInt8) : Bool :=
  b == Ascii.space || b == Ascii.newline || b == Ascii.tab || b == Ascii.carriageReturn

/-- The text without the blanks at its front. -/
def skipBlanks (text : List UInt8) : List UInt8 := text.dropWhile isBlank

theorem length_skipBlanks_le (text : List UInt8) : (skipBlanks text).length ≤ text.length :=
  (List.dropWhile_suffix _).length_le

namespace Reader

/-- Drops the blanks at the front. -/
def blanks : Reader Unit where
  run text := .ok ((), skipBlanks text)
  length_le h := by cases h; exact length_skipBlanks_le _

/-- The first byte after the blanks, which stays there; a text that ends here has ended inside
the given part. -/
def ahead (inside : Part) : Reader UInt8 := do
  blanks
  match ← peek with
  | none => fail (.endOfText inside)
  | some b => pure b

/-- Looking ahead skips the blanks and takes nothing else, and the text must not end. -/
theorem run_ahead (inside : Part) (text : List UInt8) :
    (ahead inside).run text =
      match skipBlanks text with
      | [] => .error (.endOfText inside)
      | b :: rest => .ok (b, b :: rest) := by
  simp only [ahead, run_bind, blanks, peek]
  cases skipBlanks text <;> rfl

@[simp] theorem run_advance (count : Nat) (text : List UInt8) :
    (advance count).run text = .ok ((), text.drop count) := rfl

end Reader
end DocumentBase.Json
