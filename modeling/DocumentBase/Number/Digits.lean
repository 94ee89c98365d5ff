/-!
# DocumentBase.Number.Digits

Runs of decimal digits at the front of a text, for readers of numbers.  The readers differ in
alphabet (characters or bytes), so a run is taken with the alphabet's own digit test.
-/

namespace DocumentBase.Digits

/-- The value of an ASCII digit. -/
def ofChar? (c : Char) : Option Nat :=
  if c.isDigit then some (c.toNat - '0'.toNat) else none

/-- The value of the byte of an ASCII digit. -/
def ofByte? (b : UInt8) : Option Nat :=
  if 0x30 ≤ b ∧ b ≤ 0x39 then some (b.toNat - 0x30) else none

/-- The longest run of digits at the front, and what follows it. -/
def span (digit? : α → Option Nat) : List α → List Nat × List α
  | [] => ([], [])
  | a :: rest =>
    match digit? a with
    | some d => (d :: (span digit? rest).1, (span digit? rest).2)
    | none => ([], a :: rest)

/-- The number that a run of digits writes. -/
def value (digits : List Nat) : Nat := digits.foldl (fun n d => 10 * n + d) 0

/-- The run and its rest make up the text: the rest is no longer than the text. -/
theorem length_span (digit? : α → Option Nat) (text : List α) :
    (span digit? text).1.length + (span digit? text).2.length = text.length := by
  fun_induction span digit? text with
  | case1 => rfl
  | case2 _ _ _ _ ih => simp only [List.length_cons]; omega
  | case3 => simp

theorem length_span_rest_le (digit? : α → Option Nat) (text : List α) :
    (span digit? text).2.length ≤ text.length := by
  have := length_span digit? text
  omega

end DocumentBase.Digits
