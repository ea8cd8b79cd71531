import ReportTally.Number.Counter

/-!
# Binary64 numbers

The finite numbers of the 64-bit binary format are the multiples `m · 2 ^ e` with `m` below
`2 ^ 53` and `e` between `-1074` and `971`. A number without its sign is its *magnitude word*, the
lower 63 bits of its bit pattern, and magnitude words are ordered as the numbers are.

* `Binary64.scale` reads a magnitude word as `m · 2 ^ e`.
* `Binary64.nearest` rounds a quotient of two naturals to the nearest magnitude word, and of two
  equally near ones to the even one.

Both are exact: they compute with integers only.
-/

namespace ReportTally.Binary64

/-- The nearest integer to `n / d`, of two the even one. -/
def roundQuotient (n d : Nat) : Nat :=
  let q := n / d
  let r := n % d
  if 2 * r < d then q else if d < 2 * r then q + 1 else q + q % 2

/-- The exponent `k` with `2 ^ k ≤ n / d < 2 ^ (k + 1)`. -/
def log2Quotient (n d : Nat) : Int :=
  let k : Int := (n.log2 : Int) - (d.log2 : Int)
  if d * Nat.pow 2 k.toNat ≤ n * Nat.pow 2 (-k).toNat then k else k - 1

/-- The least exponent. -/
def leastExponent : Int := -1074

/-- `2 ^ 52`, the least `m` of a number that is not subnormal. -/
def hidden : Nat := 0x10000000000000

/-- The magnitude word of infinity. Larger words are not numbers. -/
def infinity : Nat := 2047 * hidden

/-- The magnitude word of what is not a number. -/
def noNumber : Nat := infinity + hidden / 2

/-- `2 ^ 63`, the sign bit. -/
def signBit : Nat := 0x8000000000000000

/-- The magnitude word nearest to `n / d`: infinity if it is too large. The word of `m · 2 ^ e` is
`(e + 1074) · 2 ^ 52 + m`, also where rounding has carried `m` to `2 ^ 53`. -/
def nearest (n d : Nat) : Nat :=
  if n = 0 then 0
  else
    let e := max (log2Quotient n d - 52) leastExponent
    let m := roundQuotient (n * Nat.pow 2 (-e).toNat) (d * Nat.pow 2 e.toNat)
    min ((e - leastExponent).toNat * hidden + m) infinity

/-- A magnitude word as `m` and `e` with value `m · 2 ^ e`. -/
def scale (word : Nat) : Nat × Int :=
  if word / hidden = 0 then (word, leastExponent)
  else (hidden + word % hidden, leastExponent + (word / hidden - 1 : Nat))

/-- A magnitude word as a quotient of two naturals. -/
def quotient (word : Nat) : Nat × Nat :=
  let (m, e) := scale word
  (m * Nat.pow 2 e.toNat, Nat.pow 2 (-e).toNat)

/-! ## Floats -/

/-- The float with this sign and magnitude word. -/
def ofSign (negative : Bool) (word : Nat) : Float :=
  Float.ofBits (UInt64.ofNat (if negative then signBit + word else word))

/-- Is the sign bit set? It is for `-0` and may be for what is not a number. -/
def isNegative (x : Float) : Bool :=
  signBit ≤ x.toBits.toNat

/-- The magnitude word of a float. -/
def magnitude (x : Float) : Nat :=
  x.toBits.toNat % signBit

/-- The float nearest to a natural number. -/
def ofNat (n : Nat) : Float :=
  ofSign false (nearest n 1)

/-- The float nearest to a counter. -/
def ofCounter (n : Counter) : Float :=
  ofSign (n.toInt < 0) (nearest n.toInt.natAbs 1)

end ReportTally.Binary64
