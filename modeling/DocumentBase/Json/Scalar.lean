import DocumentBase.Json.Numeral
import DocumentBase.Text.Utf8

/-!
# DocumentBase.Json.Scalar

Readers of the parts of a JSON text that hold no other value: the words `null`, `true` and `false`,
strings, and beside them the numbers.  Each starts at the byte that tells what it is, or just behind
it.
-/

namespace DocumentBase.Json.Reader

/-! ## Words -/

/-- The rest of a word whose first letter has been taken. -/
def word : List UInt8 → Reader Unit
  | [] => pure ()
  | letter :: letters => do
    if (← next .value) = letter then word letters else fail .expectedWord

/-- `null`, after its first letter. -/
def nullTail : Reader Unit := word [0x75, 0x6c, 0x6c]

/-- `true`, after its first letter. -/
def trueTail : Reader Unit := word [0x72, 0x75, 0x65]

/-- `false`, after its first letter. -/
def falseTail : Reader Unit := word [0x61, 0x6c, 0x73, 0x65]

/-! ## Strings -/

/-- The value of a hexadecimal digit. -/
def hexDigit? (b : UInt8) : Option Nat :=
  if 0x30 ≤ b ∧ b ≤ 0x39 then some (b.toNat - 0x30)
  else if 0x41 ≤ b ∧ b ≤ 0x46 then some (b.toNat - 0x37)
  else if 0x61 ≤ b ∧ b ≤ 0x66 then some (b.toNat - 0x57)
  else none

/-- The value of four hexadecimal digits. -/
def hexValue? (a b c d : UInt8) : Option Nat := do
  let a ← hexDigit? a
  let b ← hexDigit? b
  let c ← hexDigit? c
  let d ← hexDigit? d
  some (((a * 16 + b) * 16 + c) * 16 + d)

/-- Four bytes that write a 16-bit unit in hexadecimal.  That four bytes are left is asked first. -/
def hexUnit : Reader Nat where
  run
    | a :: b :: c :: d :: rest =>
      match hexValue? a b c d with
      | some n => .ok (n, rest)
      | none => .error .invalidEscape
    | _ => .error (.endOfText .string)
  length_le {text value rest} h := by
    split at h
    · split at h
      · cases h; simp only [List.length_cons]; omega
      · cases h
    · cases h

/-- A numeric escape after its `u`.  Characters beyond the first 65536 are written as a pair of
surrogates, the high one first; a surrogate without its partner is refused. -/
def numericEscape : Reader Char := do
  let high ← hexUnit
  if 0xdc00 ≤ high ∧ high ≤ 0xdfff then fail .loneSurrogate
  else if high < 0xd800 ∨ 0xdbff < high then pure (Char.ofNat high)
  else if (← next .string) ≠ Ascii.backslash then fail .missingSurrogate
  else if (← next .string) ≠ Ascii.lowerU then fail .missingSurrogate
  else
    let low ← hexUnit
    if low < 0xdc00 ∨ 0xdfff < low then fail .loneSurrogate
    else pure (Char.ofNat (0x10000 + (high - 0xd800) * 0x400 + (low - 0xdc00)))

/-- An escape after its backslash, given what a numeric escape is. -/
def escape (numeric : Reader Char) : Reader Char := do
  match ← next .string with
  | Ascii.quote => pure '"'
  | Ascii.backslash => pure '\\'
  | Ascii.slash => pure '/'
  | Ascii.lowerB => pure '\x08'
  | Ascii.lowerF => pure '\x0c'
  | Ascii.lowerN => pure '\n'
  | Ascii.lowerR => pure '\r'
  | Ascii.lowerT => pure '\t'
  | Ascii.lowerU => numeric
  | _ => fail .invalidEscape

/-- The bytes of a string up to its closing quote, with the escapes resolved. -/
def stringBytes (numeric : Reader Char) (text : List UInt8) : Outcome (List UInt8) :=
  match text with
  | [] => .error (.endOfText .string)
  | b :: rest =>
    if b = Ascii.quote then .ok ([], rest)
    else if b = Ascii.backslash then
      match _read : (escape numeric).run rest with
      | .error e => .error e
      | .ok (c, more) =>
        match stringBytes numeric more with
        | .error e => .error e
        | .ok (bytes, last) => .ok (String.utf8EncodeChar c ++ bytes, last)
    else if b < Ascii.space then .error .controlCharacter
    else
      match stringBytes numeric rest with
      | .error e => .error e
      | .ok (bytes, last) => .ok (b :: bytes, last)
termination_by text.length
decreasing_by
  · have := (escape numeric).length_le _read
    simp only [List.length_cons]
    omega
  · simp

/-- A string leaves no more than there was, whatever its escapes stand for. -/
theorem length_stringBytes_le {numeric : Reader Char} {text bytes rest : List UInt8}
    (h : stringBytes numeric text = .ok (bytes, rest)) : rest.length ≤ text.length := by
  fun_induction stringBytes numeric text generalizing bytes rest with
  | case1 => cases h
  | case2 => cases h; simp
  | case3 => cases h
  | case4 => cases h
  | case5 front c more read bytes' last tail _ ih =>
    have := (escape numeric).length_le read
    have := ih tail
    cases h
    simp only [List.length_cons]
    omega
  | case6 => cases h
  | case7 => cases h
  | case8 b front _ _ _ bytes' last tail ih =>
    have := ih tail
    cases h
    simp only [List.length_cons]
    omega

/-- A string after its opening quote.  That its bytes are valid UTF-8 is asked last. -/
def stringTail : Reader String where
  run text :=
    match stringBytes numericEscape text with
    | .error e => .error e
    | .ok (bytes, rest) =>
      match Utf8.decode? bytes with
      | some s => .ok (s, rest)
      | none => .error .invalidUtf8
  length_le {text value rest} h := by
    split at h
    · cases h
    · next read =>
      split at h
      · cases h; exact length_stringBytes_le read
      · cases h

/-! ## Scalars -/

/-- The scalar that begins with the byte ahead. -/
def scalar (first : UInt8) : Reader Scalar :=
  match first with
  | Ascii.lowerN => do advance; nullTail; pure .null
  | Ascii.lowerT => do advance; trueTail; pure (.bool true)
  | Ascii.lowerF => do advance; falseTail; pure (.bool false)
  | Ascii.quote => do advance; .string <$> stringTail
  | _ =>
    if first = Ascii.minus ∨ (Digits.ofByte? first).isSome then .number <$> number
    else fail .expectedValue

end DocumentBase.Json.Reader
