import DocumentBase.Json.Record
import DocumentBase.Json.Tree

/-!
# DocumentBase.Duration

Lengths of time, in whole seconds and nanoseconds.  As JSON a length is a record of the two; more
nanoseconds than a second has are carried over when it is read.
-/

namespace DocumentBase

/-- How many nanoseconds make a second. -/
def Duration.nanosInSecond : Nat := 1000000000

/-- A length of time. -/
structure Duration where
  seconds : Nat
  nanos : Nat
  seconds_lt : seconds < 0x10000000000000000 := by decide
  nanos_lt : nanos < Duration.nanosInSecond := by decide
deriving DecidableEq

namespace Duration

/-- The length in nanoseconds. -/
def toNanos (span : Duration) : Nat := span.seconds * nanosInSecond + span.nanos

/-- A number of seconds and nanoseconds, if the seconds still fit after the carry. -/
def ofParts? (seconds nanos : Nat) : Option Duration :=
  if h : seconds + nanos / nanosInSecond < 0x10000000000000000 then
    some ⟨seconds + nanos / nanosInSecond, nanos % nanosInSecond, h, Nat.mod_lt _ (by decide)⟩
  else none

/-- A number of milliseconds. -/
def ofMillis? (millis : Nat) : Option Duration := ofParts? (millis / 1000) (millis % 1000 * 1000000)

/-- A number of minutes. -/
def ofMinutes (minutes : Fin 60) : Duration where
  seconds := minutes * 60
  nanos := 0
  seconds_lt := by have := minutes.2; omega

/-! ## JSON -/

theorem nanos_fit (span : Duration) :
    -0x8000000000000000 ≤ (span.nanos : Int) ∧ (span.nanos : Int) < 0x10000000000000000 := by
  have := span.nanos_lt
  unfold nanosInSecond at this
  omega

theorem seconds_fit (span : Duration) :
    -0x8000000000000000 ≤ (span.seconds : Int) ∧ (span.seconds : Int) < 0x10000000000000000 := by
  have := span.seconds_lt
  omega

/-- A length as plain JSON. -/
def toJson (span : Duration) : Json :=
  .object [
    ("nanos", .number (.integer span.nanos span.nanos_fit)),
    ("secs", .number (.integer span.seconds span.seconds_fit))]

/-- The parts of a length that have been read. -/
structure Parts where
  seconds : Option { n : Nat // n < 0x10000000000000000 } := none
  nanos : Option { n : Nat // n < 0x100000000 } := none

/-- A length as a record. -/
def shape : Json.RecordShape Parts Duration where
  title := "struct Duration"
  lengthTitle := "struct Duration"
  fields := [
    .ofReader "secs" (·.seconds) (fun parts n => { parts with seconds := some n })
      (Json.Reader.natural _ "u64"),
    .ofReader "nanos" (·.nanos) (fun parts n => { parts with nanos := some n })
      (Json.Reader.natural _ "u32")]
  isClosed := true
  empty := {}
  finish parts := do
    let seconds ← Json.required "secs" parts.seconds
    let nanos ← Json.required "nanos" parts.nanos
    match ofParts? seconds nanos with
    | some span => .ok span
    | none => .error .durationOverflow

/-- Reads a length. -/
def reader (depth : Nat) : Json.Reader Duration := Json.Reader.record depth fun _ => shape

end Duration
end DocumentBase
