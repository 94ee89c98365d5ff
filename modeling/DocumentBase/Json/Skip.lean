import DocumentBase.Json.Container

/-!
# DocumentBase.Json.Skip

Skipping a value that nobody asked for, such as that of an unknown field.  Skipping only finds the
end of the value: strings need not be valid UTF-8, numbers may be out of range, surrogates may
stand alone, and containers may be nested to any depth, for the open ones are kept in a list.
-/

namespace DocumentBase.Json

/-- A container that is open. -/
inductive Opened where
  | list
  | object
deriving DecidableEq

namespace Opened

def close : Opened → UInt8
  | list => Ascii.closeBracket
  | object => Ascii.closeBrace

def part : Opened → Part
  | list => .list
  | object => .object

def missingComma : Opened → DecodeError
  | list => .expectedCommaOrListEnd
  | object => .expectedCommaOrObjectEnd

end Opened

namespace Reader

/-- Skips a string behind its opening quote.  A numeric escape only needs its four digits. -/
def skipString : Reader Unit where
  run text :=
    match stringBytes (do let _ ← hexUnit; pure ' ') text with
    | .error e => .error e
    | .ok (_, rest) => .ok ((), rest)
  length_le {text value rest} h := by
    split at h
    · cases h
    · next read => cases h; exact length_stringBytes_le read

/-- Skips a scalar that begins with the byte ahead. -/
def skipScalar (first : UInt8) : Reader Unit :=
  match first with
  | Ascii.lowerN => do advance; nullTail
  | Ascii.lowerT => do advance; trueTail
  | Ascii.lowerF => do advance; falseTail
  | Ascii.quote => do advance; skipString
  | _ =>
    if first = Ascii.minus ∨ (Digits.ofByte? first).isSome then do
      let _ ← numberParts .invalidNumber
    else fail .expectedValue

/-- Skips the name of a field and its colon. -/
def skipName : Reader Unit := do
  if (← ahead .object) = Ascii.quote then
    advance
    skipString
    colon
  else fail .nameNotAString

/-- Goes on to the place of a value in a container. -/
def enter : Opened → Reader Unit
  | .list => pure ()
  | .object => skipName

/-- Behind a value: closes the containers that end here, innermost first, up to a comma, behind
which the next value stands.  What is left open is returned; nothing is, when the value was the
last of all. -/
def closeAll : List Opened → Reader (List Opened)
  | [] => pure []
  | innermost :: outer => do
    let b ← ahead innermost.part
    if b = Ascii.comma then
      advance
      enter innermost
      pure (innermost :: outer)
    else if b = innermost.close then
      advance
      closeAll outer
    else fail innermost.missingComma

/-- Closing takes at least the comma before the next value, if there is one, so that skipping values
ends. -/
theorem length_closeAll_lt {opened left : List Opened} {text rest : List UInt8}
    (h : (closeAll opened).run text = .ok (left, rest)) (open_left : left ≠ []) :
    rest.length < text.length := by
  induction opened generalizing text with
  | nil => cases h; exact absurd rfl open_left
  | cons innermost outer ih =>
    have := length_skipBlanks_le text
    simp only [closeAll, run_bind, run_ahead] at h
    split at h
    · cases h
    · next found =>
      split at found
      · cases found
      · next blank =>
        cases found
        simp only [blank, List.length_cons] at this
        split at h
        · simp only [run_bind, run_advance, List.drop_succ_cons, List.drop_zero] at h
          split at h
          · cases h
          · next entered =>
            have := (enter innermost).length_le entered
            cases h
            omega
        · split at h
          · simp only [run_bind, run_advance, List.drop_succ_cons, List.drop_zero] at h
            have := ih h
            omega
          · cases h

/-- Behind an opening bracket: closes the container at once if it is empty, and else goes on to
its first value. -/
def afterOpening (opened : Opened) (outer : List Opened) : Reader (List Opened) := do
  if (← ahead opened.part) = opened.close then
    advance
    closeAll outer
  else
    enter opened
    pure (opened :: outer)

/-- The container that a byte opens. -/
def opens? (b : UInt8) : Option Opened :=
  if b = Ascii.openBracket then some .list
  else if b = Ascii.openBrace then some .object
  else none

/-- Skips a value and everything up to the end of the containers that are open around it. -/
def skipAll (opened : List Opened) (text : List UInt8) : Outcome Unit :=
  match _found : skipBlanks text with
  | [] => .error (.endOfText .value)
  | first :: behind =>
    match opens? first with
    | some container =>
      match _read : (afterOpening container opened).run behind with
      | .error e => .error e
      | .ok ([], rest) => .ok ((), rest)
      | .ok (innermost :: outer, rest) => skipAll (innermost :: outer) rest
    | none =>
      match _scalar : (skipScalar first).run (first :: behind) with
      | .error e => .error e
      | .ok ((), more) =>
        match _close : (closeAll opened).run more with
        | .error e => .error e
        | .ok ([], rest) => .ok ((), rest)
        | .ok (innermost :: outer, rest) => skipAll (innermost :: outer) rest
termination_by text.length
decreasing_by
  · have := (afterOpening container opened).length_le _read
    have := length_skipBlanks_le text
    simp only [_found, List.length_cons] at this
    omega
  · have := (skipScalar first).length_le _scalar
    have := length_closeAll_lt _close (List.cons_ne_nil _ _)
    have := length_skipBlanks_le text
    simp only [_found] at this
    omega

theorem length_skipAll_le {opened : List Opened} {text rest : List UInt8} {done : Unit}
    (h : skipAll opened text = .ok (done, rest)) : rest.length ≤ text.length := by
  fun_induction skipAll opened text generalizing rest with
  | case3 opened text first behind found container _ more read =>
    have := (afterOpening container opened).length_le read
    have := length_skipBlanks_le text
    cases h
    simp only [found, List.length_cons] at this
    omega
  | case4 opened text first behind found container _ _ _ more read ih =>
    have := (afterOpening container opened).length_le read
    have := length_skipBlanks_le text
    have := ih h
    simp only [found, List.length_cons] at *
    omega
  | case7 opened text first behind found _ more read last closed =>
    have := (skipScalar first).length_le read
    have := (closeAll opened).length_le closed
    have := length_skipBlanks_le text
    cases h
    simp only [found] at *
    omega
  | case8 opened text first behind found _ more read _ _ last closed ih =>
    have := (skipScalar first).length_le read
    have := (closeAll opened).length_le closed
    have := length_skipBlanks_le text
    have := ih h
    simp only [found] at *
    omega
  | _ => cases h

/-- Skips a value. -/
def skip : Reader Unit where
  run := skipAll []
  length_le := length_skipAll_le

end Reader
end DocumentBase.Json
