import ReportTally.Text.Basic

/-!
# Bytes and text

A file holds bytes. `Utf8.encode` writes text as UTF-8, and `Utf8.decode` reads any bytes:
where they are not UTF-8, every maximal invalid part becomes one replacement character.
`Utf8.decodeStrict?` accepts the bytes that are UTF-8 and nothing else.

The decoder is a machine that takes one byte at a time. Its state is what an unfinished
sequence still needs (`Utf8.Unfinished`), so a byte that cannot continue a sequence ends it and
starts afresh.
-/

namespace ReportTally

/-- The contents of a file. -/
abbrev Bytes := List UInt8

namespace Utf8

/-- Text as UTF-8. -/
def encode (t : Text) : Bytes :=
  t.flatMap String.utf8EncodeChar

/-- What an unfinished sequence needs: how many bytes are missing, the bits read so far, and the
range of the next byte. -/
structure Unfinished where
  /-- The number of missing bytes, at least one. -/
  missing : Nat
  /-- The code point read so far. -/
  bits : Nat
  /-- The least byte that may follow. -/
  low : Nat
  /-- The greatest byte that may follow. -/
  high : Nat
  deriving DecidableEq, Repr

/-- The character that stands for an invalid part. -/
def replacement : Char :=
  '\uFFFD'

/-- A byte that does not continue a sequence: what it says at once, and what it starts. The
ranges of second bytes leave out overlong forms, surrogates and what lies beyond U+10FFFF. -/
def start (b : UInt8) : Text × Option Unfinished :=
  let n := b.toNat
  if n < 0x80 then ([Char.ofNat n], none)
  else if n < 0xC2 then ([replacement], none)
  else if n < 0xE0 then ([], some ⟨1, n - 0xC0, 0x80, 0xBF⟩)
  else if n < 0xF0 then
    ([], some ⟨2, n - 0xE0, if n = 0xE0 then 0xA0 else 0x80, if n = 0xED then 0x9F else 0xBF⟩)
  else if n < 0xF5 then
    ([], some ⟨3, n - 0xF0, if n = 0xF0 then 0x90 else 0x80, if n = 0xF4 then 0x8F else 0xBF⟩)
  else ([replacement], none)

/-- One step of the decoder: the characters that the byte completes, and the new state. -/
def step (state : Option Unfinished) (b : UInt8) : Text × Option Unfinished :=
  match state with
  | none => start b
  | some u =>
    let n := b.toNat
    if u.low ≤ n && n ≤ u.high then
      let bits := 64 * u.bits + (n - 0x80)
      if u.missing ≤ 1 then ([Char.ofNat bits], none)
      else ([], some ⟨u.missing - 1, bits, 0x80, 0xBF⟩)
    else
      let (t, next) := start b
      (replacement :: t, next)

/-- The decoder's state together with the text read so far, last character first. -/
structure Reading where
  /-- The text read so far, last character first. -/
  reversed : Text
  /-- The sequence that the last byte left unfinished. -/
  state : Option Unfinished

/-- One byte more. -/
def Reading.push (r : Reading) (b : UInt8) : Reading :=
  let (t, next) := step r.state b
  ⟨t.reverse ++ r.reversed, next⟩

/-- The text when no byte follows. -/
def Reading.text (r : Reading) : Text :=
  match r.state with
  | none => r.reversed.reverse
  | some _ => (replacement :: r.reversed).reverse

/-- The text of any bytes, with a replacement character for each maximal invalid part. -/
def decode (bs : Bytes) : Text :=
  (bs.foldl Reading.push ⟨[], none⟩).text

/-- The text of bytes that are UTF-8 throughout. -/
def decodeStrict? (bs : Bytes) : Option Text :=
  let t := decode bs
  if encode t = bs then some t else none

end Utf8

end ReportTally
