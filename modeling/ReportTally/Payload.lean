import ReportTally.Flaw
import ReportTally.Number.Decimal

/-!
# Payloads of marker lines

A marker line is a label, a colon and a payload. The payload ends at the next colon, so what
follows a second colon never counts: `payload`, `integer` and `number` read it. An elapsed time
has colons of its own, and `elapsed` reads all that follows the first colon.
-/

namespace ReportTally.Payload

/-- What stands between the first colon and the next one, or the end, without blanks. -/
def payload (marker line : Text) : Except Flaw Text :=
  match Text.after? ':' line with
  | none => .error (.noColon marker line)
  | some rest => .ok (Text.trim (Text.before ':' rest))

/-- A payload that is an integer in the range of a counter. -/
def integer (marker line : Text) : Except Flaw Counter := do
  let value ← payload marker line
  match Numeral.counter? value with
  | none => .error (.notInteger marker value)
  | some n => .ok n

/-- A payload that is a finite number. -/
def number (marker line : Text) : Except Flaw Float := do
  let value ← payload marker line
  match Decimal.finite? value with
  | none => .error (.notNumber marker value)
  | some x => .ok x

/-! ## Elapsed times -/

/-- Hours, or days and hours divided by the first point. No number on the way may be too large for a
64-bit word. -/
def hours? (t : Text) : Option Nat :=
  match Text.after? '.' t with
  | none => Numeral.word? t
  | some rest => do
    let days ← Numeral.word? (Text.before '.' t)
    let hours ← Numeral.word? rest
    let ofDays ← Numeral.fit? (24 * days)
    Numeral.fit? (ofDays + hours)

/-- A finite number of seconds that is not negative. -/
def seconds? (t : Text) : Option Float :=
  (Decimal.finite? t).filter fun x => !(x < 0)

/-- The seconds of a time `H:M:S`. The hours and minutes are whole seconds, counted in 64-bit words,
and no number on the way may be too large for one. -/
def elapsed? (t : Text) : Option Float :=
  match Text.fields ':' t with
  | [hours, minutes, seconds] => do
    let hours ← hours? hours
    let minutes ← Numeral.word? minutes
    let seconds ← seconds? seconds
    let ofHours ← Numeral.fit? (3600 * hours)
    let ofMinutes ← Numeral.fit? (60 * minutes)
    let whole ← Numeral.fit? (ofHours + ofMinutes)
    return Binary64.ofNat whole + seconds
  | _ => none

/-- All that follows the first colon, as an elapsed time in seconds. -/
def elapsed (marker line : Text) : Except Flaw Float :=
  match Text.after? ':' line with
  | none => .error (.noColon marker line)
  | some rest =>
    let value := Text.trim rest
    match elapsed? value with
    | none => .error (.notElapsed value)
    | some x => .ok x

end ReportTally.Payload
