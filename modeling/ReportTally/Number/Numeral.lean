import ReportTally.Number.Counter
import ReportTally.Text.Basic

/-!
# Integers as text

* `Numeral.natural?` reads a non-empty run of ASCII digits, `Numeral.unsigned?` allows a plus
  sign in front and `Numeral.signed?` either sign. Neither blanks nor any other character may
  occur.
* `Numeral.ofNat` and `Numeral.ofInt` write the shortest such text.
-/

namespace ReportTally.Numeral

/-- The ASCII digits. -/
def isDigit (c : Char) : Bool :=
  '0' ≤ c && c ≤ '9'

/-- The number with these digits. -/
def value (digits : Text) : Nat :=
  digits.foldl (fun n c => 10 * n + (c.toNat - '0'.toNat)) 0

/-- A run of digits. -/
def natural? (t : Text) : Option Nat :=
  if !t.isEmpty && t.all isDigit then some (value t) else none

/-- Digits, perhaps after a plus sign. -/
def unsigned? : Text → Option Nat
  | '+' :: t => natural? t
  | t => natural? t

/-- Digits, perhaps after a sign. -/
def signed? : Text → Option Int
  | '-' :: t => (natural? t).map fun n => -(n : Int)
  | '+' :: t => (natural? t).map Int.ofNat
  | t => (natural? t).map Int.ofNat

/-- One more than the greatest unsigned 64-bit number. -/
def wordLimit : Nat := 0x10000000000000000

/-- A number, if 64 bits are enough for it. -/
def fit? (n : Nat) : Option Nat :=
  if n < wordLimit then some n else none

/-- An unsigned number of 64 bits. -/
def word? (t : Text) : Option Nat :=
  (unsigned? t).filter (· < wordLimit)

/-- A counter's value. -/
def counter? (t : Text) : Option Counter :=
  (signed? t).bind Counter.ofInt?

/-- The decimal digits of a number. -/
def ofNat (n : Nat) : Text :=
  Nat.toDigits 10 n

/-- The decimal digits of an integer, after a minus sign if it is negative. -/
def ofInt (n : Int) : Text :=
  if n < 0 then '-' :: ofNat n.natAbs else ofNat n.natAbs

/-- The decimal form of a counter. -/
def ofCounter (n : Counter) : Text :=
  ofInt n.toInt

end ReportTally.Numeral
