import DocumentBase.Duration

/-!
# DocumentBase.Instant

Moments of a clock.  A clock counts its seconds in 63 bits, a length of time has up to 64 of them,
so there need not be a moment at the end of a length that begins now.  An operation that asks for
such a moment is broken off there, and what it was to do after that is not done: its outcome is no
answer.
-/

namespace DocumentBase

/-! ## Outcomes -/

/-- How an operation ends that asks the clock for a later moment. -/
inductive Outcome (α : Type) where
  | returned (answer : α)
  /-- The operation has been broken off, since a moment that it needs is out of range. -/
  | overflowed
deriving DecidableEq

namespace Outcome

variable {α β : Type} {f : α → β} {outcome : Outcome α} {answer : α} {other : β}

/-- The outcome with another answer, if there is one. -/
def map (f : α → β) : Outcome α → Outcome β
  | returned answer => returned (f answer)
  | overflowed => overflowed

@[simp] theorem map_returned : (returned answer).map f = returned (f answer) := rfl

@[simp] theorem map_overflowed : (overflowed : Outcome α).map f = overflowed := rfl

/-- Another answer is given exactly where one was given before. -/
@[simp] theorem map_eq_returned_iff :
    outcome.map f = returned other ↔ ∃ answer, outcome = returned answer ∧ f answer = other := by
  cases outcome <;> simp

@[simp] theorem map_eq_overflowed_iff : outcome.map f = overflowed ↔ outcome = overflowed := by
  cases outcome <;> simp

end Outcome

/-! ## Moments -/

/-- A moment, in nanoseconds of some clock.  The clock shows none from `limit` on, but what is said
of all moments holds of those that it shows. -/
abbrev Instant := Nat

namespace Instant

/-- The first moment that the clock cannot tell. -/
def limit : Instant := 0x8000000000000000 * Duration.nanosInSecond

/-- The moment at which a length of time is over that begins at another. -/
def after (moment : Instant) (span : Duration) : Outcome Instant :=
  if moment + span.toNanos < limit then .returned (moment + span.toNanos) else .overflowed

/-- The deadline of what is written at a moment, if it ever dies. -/
def deadline (written : Instant) (ttl : Option Duration) : Outcome (Option Instant) :=
  match ttl with
  | some span => (written.after span).map some
  | none => .returned none

/-- Whether a time to live that begins at a moment is over in range, or never. -/
def Fits (written : Instant) (ttl : Option Duration) : Prop :=
  ∀ span ∈ ttl, written + span.toNanos < limit

instance (written : Instant) (ttl : Option Duration) : Decidable (written.Fits ttl) :=
  inferInstanceAs (Decidable (∀ span ∈ ttl, written + span.toNanos < limit))

variable {written later : Instant} {ttl : Option Duration} {span : Duration}

/-- What never dies fits at every moment. -/
@[simp] theorem fits_none : written.Fits none := by simp [Fits]

@[simp] theorem fits_some : written.Fits (some span) ↔ written + span.toNanos < limit := by
  simp [Fits]

/-- What fits has fitted before. -/
theorem Fits.earlier (fits : later.Fits ttl) (order : written ≤ later) : written.Fits ttl :=
  fun span held => Nat.lt_of_le_of_lt (Nat.add_le_add_right order _) (fits span held)

/-- There is a deadline exactly where the time to live fits, and it is at its end. -/
theorem deadline_eq (written : Instant) (ttl : Option Duration) :
    written.deadline ttl =
      if written.Fits ttl then .returned (ttl.map (written + ·.toNanos)) else .overflowed := by
  cases ttl with
  | none => simp [deadline]
  | some span =>
    simp only [deadline, after, fits_some]
    split <;> rfl

end Instant
end DocumentBase
