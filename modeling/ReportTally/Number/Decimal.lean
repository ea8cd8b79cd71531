import ReportTally.Number.Binary64
import ReportTally.Number.Numeral

/-!
# Decimal forms of binary64 numbers

Three exact rules tie a float to its decimal forms.

* `Decimal.read?` reads a number literal and rounds it to the nearest float.
* `Decimal.shortest` chooses the fewest digits that read back, and of several such numbers the
  one nearest to the float. `Decimal.token?` lays them out for a JSON document.
* `Decimal.twoPlaces` rounds the exact value to hundredths, a half to the even neighbour.
-/

namespace ReportTally.Decimal

/-! ## Reading -/

/-- How many digits `n` has. -/
def size (n : Nat) : Nat :=
  (Numeral.ofNat n).length

/-- The magnitude word nearest to `m · 10 ^ e`. Numbers of more than 310 digits are infinite, and
those below `10 ^ -400` are zero. -/
def nearest (m : Nat) (e : Int) : Nat :=
  if m = 0 then 0
  else if 310 < size m + e then Binary64.infinity
  else if size m + e < -400 then 0
  else Binary64.nearest (m * Nat.pow 10 e.toNat) (Nat.pow 10 (-e).toNat)

/-- The parts of a number literal without its sign. -/
structure Parts where
  /-- The digits before the point. -/
  whole : Text
  /-- The digits after the point. -/
  fraction : Text
  /-- The power of ten. -/
  exponent : Int

/-- The size at which an exponent stops growing: digits that follow do not count. -/
def exponentLimit : Nat := 0x10000

/-- The size of an exponent with these digits. -/
def exponentSize (digits : Text) : Nat :=
  digits.foldl
    (fun n c => if n < exponentLimit then 10 * n + (c.toNat - '0'.toNat) else n) 0

/-- The digits of an exponent, if there are any and nothing else. -/
def exponentDigits? (t : Text) : Option Nat :=
  if !t.isEmpty && t.all Numeral.isDigit then some (exponentSize t) else none

/-- The exponent of a literal: nothing, or `e` and digits, perhaps after a sign. -/
def exponent? : Text → Option Int
  | [] => some 0
  | c :: t =>
    if c = 'e' || c = 'E' then
      match t with
      | '-' :: t => (exponentDigits? t).map fun n => -(n : Int)
      | '+' :: t => (exponentDigits? t).map Int.ofNat
      | t => (exponentDigits? t).map Int.ofNat
    else none

/-- The parts of a literal: digits with or without a point, at least one digit, and an
exponent. -/
def parts? (t : Text) : Option Parts :=
  let whole := t.takeWhile Numeral.isDigit
  let rest := t.dropWhile Numeral.isDigit
  let (fraction, rest) := match rest with
    | '.' :: r => (r.takeWhile Numeral.isDigit, r.dropWhile Numeral.isDigit)
    | _ => ([], rest)
  if whole.isEmpty && fraction.isEmpty then none
  else (exponent? rest).map fun e => ⟨whole, fraction, e⟩

/-- The magnitude word of a literal without its sign. The names of infinity and of what is not a
number are literals too, in any case. -/
def magnitude? (t : Text) : Option Nat :=
  let name := t.map Char.toLower
  if name = "inf".toList || name = "infinity".toList then some Binary64.infinity
  else if name = "nan".toList then some Binary64.noNumber
  else (parts? t).map fun p =>
    nearest (Numeral.value (p.whole ++ p.fraction)) (p.exponent - p.fraction.length)

/-- A number literal with an optional sign. -/
def read? : Text → Option Float
  | '-' :: t => (magnitude? t).map (Binary64.ofSign true)
  | '+' :: t => (magnitude? t).map (Binary64.ofSign false)
  | t => (magnitude? t).map (Binary64.ofSign false)

/-- A literal of a finite number. -/
def finite? (t : Text) : Option Float :=
  (read? t).filter Float.isFinite

/-! ## Fewest digits -/

/-- The number of digits before the point of `n / d`: the `p` with
`10 ^ (p - 1) ≤ n / d < 10 ^ p`. -/
def place (n d : Nat) : Int :=
  if d ≤ n then size (n / d)
  else
    let k := size (d / n)
    if d ≤ n * Nat.pow 10 (k - 1) then 2 - k else 1 - k

/-- A decimal number `digits · 10 ^ exponent`. -/
structure Form where
  /-- The digits as one number. -/
  digits : Nat
  /-- The power of ten. -/
  exponent : Int
  deriving DecidableEq, Repr

/-- The number of `count` digits that reads back as the magnitude word, if there is one: the
nearer of the two neighbours, and of two equally near ones the even one. -/
def ofCount? (word count : Nat) : Option Form :=
  let (n, d) := Binary64.quotient word
  let e := place n d - count
  let n := n * Nat.pow 10 (-e).toNat
  let d := d * Nat.pow 10 e.toNat
  let low := n / d
  let near := Binary64.roundQuotient n d
  let far := if near = low then low + 1 else low
  if nearest near e = word then some ⟨near, e⟩
  else if nearest far e = word then some ⟨far, e⟩
  else none

/-- All digits of a magnitude word. -/
def inFull (word : Nat) : Form :=
  let (m, e) := Binary64.scale word
  if 0 ≤ e then ⟨m * Nat.pow 2 e.toNat, 0⟩ else ⟨m * Nat.pow 5 (-e).toNat, e⟩

/-- The number of fewest digits that reads back as the magnitude word. Seventeen digits are
always enough. -/
def shortest (word : Nat) : Form :=
  ((List.range 17).findSome? fun i => ofCount? word (i + 1)).getD (inFull word)

/-! ## Layout -/

/-- A run of zeros. -/
def zeros (n : Nat) : Text :=
  List.replicate n '0'

/-- Numbers from `10 ^ -5` up to `10 ^ 16` are written with a point and all others with an
exponent, which carries its sign. The point stands between digits. -/
def layout (f : Form) : Text :=
  let digits := ((Numeral.ofNat f.digits).reverse.dropWhile (· = '0')).reverse
  let place : Int := size f.digits + f.exponent
  if -5 < place && place ≤ 0 then '0' :: '.' :: (zeros (-place).toNat ++ digits)
  else if 0 < place && place ≤ 16 then
    let place := place.toNat
    if digits.length ≤ place then digits ++ zeros (place - digits.length) ++ ['.', '0']
    else digits.take place ++ '.' :: digits.drop place
  else
    let power := place - 1
    let sign := if power < 0 then '-' else '+'
    let mantissa := if digits.length ≤ 1 then digits else digits.take 1 ++ '.' :: digits.drop 1
    mantissa ++ 'e' :: sign :: Numeral.ofNat power.natAbs

/-- A finite number as a JSON token. -/
def token? (x : Float) : Option Text :=
  let word := Binary64.magnitude x
  if Binary64.infinity ≤ word then none
  else
    let digits := if word = 0 then "0.0".toList else layout (shortest word)
    some (if Binary64.isNegative x then '-' :: digits else digits)

/-! ## Two places -/

/-- The exact value of a magnitude word in hundredths, rounded, a half to the even neighbour. -/
def hundredths (word : Nat) : Nat :=
  let (n, d) := Binary64.quotient word
  Binary64.roundQuotient (100 * n) d

/-- A number of hundredths with a point and two places. -/
def placeTwo (n : Nat) : Text :=
  Numeral.ofNat (n / 100) ++ '.' :: Nat.digitChar (n / 10 % 10) :: [Nat.digitChar (n % 10)]

/-- A float with two places. The sign is that of the float, also where nothing else is left of
it. -/
def twoPlaces (x : Float) : Text :=
  let word := Binary64.magnitude x
  if Binary64.infinity < word then "NaN".toList
  else
    let digits := if word = Binary64.infinity then "inf".toList else placeTwo (hundredths word)
    if Binary64.isNegative x then '-' :: digits else digits

end ReportTally.Decimal
