import ReportTally.Number.Decimal
import ReportTally.Toml.Reader
import ReportTally.Toml.Value

/-!
# Scalars

The values of a TOML document that hold no other values: texts in four kinds of quotes, integers in
four bases, floats, the two truth values, and dates and times.

What does not belong to a scalar stays behind it. The text after a value is checked where the value
stands, so a scalar with junk after it is no value there.
-/

namespace ReportTally.Toml.Reader

/-! ## Texts -/

/-- The value of a hexadecimal digit. -/
def digitValue (c : Char) : Nat :=
  if Numeral.isDigit c then c.toNat - '0'.toNat else c.toLower.toNat - 'a'.toNat + 10

/-- The number with these digits in a base. -/
def valueIn (base : Nat) (digits : Text) : Nat :=
  digits.foldl (fun n c => base * n + digitValue c) 0

/-- A hexadecimal digit in either case. -/
def isHexDigit (c : Char) : Bool :=
  Numeral.isDigit c || ('a' ≤ c && c ≤ 'f') || ('A' ≤ c && c ≤ 'F')

/-- A code point of so many hexadecimal digits that is a character. -/
def codePoint (n : Nat) : Reader Char := do
  let value := valueIn 16 (← take isHexDigit n)
  if value.isValidChar then return Char.ofNat value else failure

/-- A character after a backslash. -/
def escape : Reader Char := do
  exactly ['\\']
  match ← satisfy fun _ => true with
  | 'b' => return '\x08'
  | 't' => return '\t'
  | 'n' => return '\n'
  | 'f' => return '\x0c'
  | 'r' => return '\r'
  | '"' => return '"'
  | '\\' => return '\\'
  | 'u' => codePoint 4
  | 'U' => codePoint 8
  | _ => failure

/-- A part of a text in double quotes: characters that stand for themselves, or an escaped one. -/
def basicPiece : Reader Text :=
  span1 (fun c => isPrintable c && c ≠ '"' && c ≠ '\\') <|> ([·]) <$> escape

/-- A part of a text in single quotes: every character stands for itself. -/
def literalPiece : Reader Text :=
  span1 fun c => isPrintable c && c ≠ '\''

/-- A backslash at the end of a line, which drops the line end and all blanks and line ends that
follow. -/
def continuation : Reader Text := do
  exactly ['\\']
  spaces
  lineEnd
  let _ ← many do
    spaces
    lineEnd
  spaces
  return []

/-- One or two quotes in a row. -/
def fewQuotes (quote : Char) : Reader Text := do
  let quotes ← span1 (· = quote)
  if quotes.length < 3 then return quotes else failure

/-- Three quotes in a row, after up to two that belong to the text. -/
def closingQuotes (quote : Char) : Reader Text := do
  let quotes ← span1 (· = quote)
  if 3 ≤ quotes.length && quotes.length ≤ 5 then return quotes.drop 3 else failure

/-- A text on one line. -/
def shortText (quote : Char) (piece : Reader Text) : Reader Text := do
  exactly [quote]
  let pieces ← many piece
  exactly [quote]
  return pieces.flatten

/-- A text on any number of lines. A line end after the first quotes is dropped, and every other
one is read as a line feed. -/
def longText (quote : Char) (piece : Reader Text) : Reader Text := do
  exactly [quote, quote, quote]
  let _ ← option lineEnd
  let pieces ← many (piece <|> (do lineEnd; return ['\n']) <|> fewQuotes quote)
  let last ← closingQuotes quote
  return pieces.flatten ++ last

/-- A text on one line, in quotes of either kind. -/
def quotedText : Reader Text :=
  shortText '"' basicPiece <|> shortText '\'' literalPiece

/-- A text. -/
def text : Reader Text :=
  longText '"' (basicPiece <|> continuation) <|> longText '\'' literalPiece <|> quotedText

/-! ## Numbers -/

/-- Digits of a class. An underscore may stand between two of them. -/
def digits (p : Char → Bool) : Reader Text := do
  let parts ← separated (span1 p) (exactly ['_'])
  return parts.flatten

/-- Is there a minus sign? There may also be a plus sign or none. -/
def sign : Reader Bool :=
  (do exactly ['-']; return true) <|> (do exactly ['+']; return false) <|> return false

/-- Decimal digits that do not start with a superfluous zero. -/
def wholeDigits : Reader Text := do
  let ds ← digits Numeral.isDigit
  if ds.head? = some '0' && 1 < ds.length then failure else return ds

/-- What may follow the digits of a float: a point and digits. -/
def fraction : Reader Text := do
  exactly ['.']
  digits Numeral.isDigit

/-- What may follow the digits of a float: a power of ten. -/
def exponent : Reader Int := do
  let _ ← satisfy fun c => c = 'e' || c = 'E'
  let negative ← sign
  let n := Decimal.exponentSize (← digits Numeral.isDigit)
  return if negative then -n else n

/-- An integer of 64 bits. -/
def integer (n : Int) : Reader Value :=
  if (Counter.ofInt? n).isSome then return .integer n else failure

/-- A float. One that would round to positive infinity is refused. -/
def float (negative : Bool) (whole fraction : Text) (exponent : Int) : Reader Value :=
  let word := Decimal.nearest (Numeral.value (whole ++ fraction)) (exponent - fraction.length)
  if word = Binary64.infinity && !negative then failure
  else return .float (Binary64.ofSign negative word)

/-- A decimal number: an integer, or a float if a fraction or an exponent follows. -/
def decimal : Reader Value := do
  let negative ← sign
  let whole ← wholeDigits
  match ← option fraction, ← option exponent with
  | none, none => integer (if negative then -Numeral.value whole else Numeral.value whole)
  | frac, power => float negative whole (frac.getD []) (power.getD 0)

/-- An integer in another base. -/
def based (lead : Text) (base : Nat) (p : Char → Bool) : Reader Value := do
  exactly lead
  let ds ← digits p
  integer (valueIn base ds)

/-- Infinity, or what is not a number. -/
def special : Reader Value := do
  let negative ← sign
  (do exactly "inf".toList; return .float (Binary64.ofSign negative Binary64.infinity)) <|>
    (do exactly "nan".toList; return .float (Binary64.ofSign negative Binary64.noNumber))

/-- A number. -/
def number : Reader Value :=
  based "0x".toList 16 isHexDigit <|>
    based "0o".toList 8 (fun c => '0' ≤ c && c ≤ '7') <|>
    based "0b".toList 2 (fun c => c = '0' || c = '1') <|>
    decimal <|> special

/-! ## Dates and times -/

/-- A number of so many digits within bounds. -/
def bounded (size least greatest : Nat) : Reader Nat := do
  let n := Numeral.value (← take Numeral.isDigit size)
  if least ≤ n && n ≤ greatest then return n else failure

/-- How many days a month has. -/
def daysIn (year month : Nat) : Nat :=
  if month = 2 then
    if year % 4 = 0 && (year % 100 ≠ 0 || year % 400 = 0) then 29 else 28
  else if month = 4 || month = 6 || month = 9 || month = 11 then 30
  else 31

/-- A date. -/
def date : Reader Unit := do
  let year ← bounded 4 0 9999
  exactly ['-']
  let month ← bounded 2 1 12
  exactly ['-']
  let _ ← bounded 2 1 (daysIn year month)

/-- A time of day. A minute may have a leap second. -/
def time : Reader Unit := do
  let _ ← bounded 2 0 23
  exactly [':']
  let _ ← bounded 2 0 59
  exactly [':']
  let _ ← bounded 2 0 60
  let _ ← option do
    exactly ['.']
    span1 Numeral.isDigit

/-- A distance from universal time. -/
def offset : Reader Unit :=
  (do let _ ← satisfy fun c => c = 'Z' || c = 'z') <|> do
    let _ ← satisfy fun c => c = '+' || c = '-'
    let _ ← bounded 2 0 23
    exactly [':']
    let _ ← bounded 2 0 59

/-- A date, a time, or a date with a time. -/
def moment : Reader Value := do
  let dated : Reader Unit := do
    date
    let _ ← option do
      let _ ← satisfy fun c => c = 'T' || c = 't' || c = ' '
      time
      let _ ← option offset
  dated <|> time
  return .moment

/-! ## Scalars -/

/-- A scalar. A date is tried before a number, since its year is one. -/
def scalar : Reader Value :=
  Value.text <$> text <|>
    (do exactly "true".toList; return .boolean true) <|>
    (do exactly "false".toList; return .boolean false) <|>
    moment <|> number

end ReportTally.Toml.Reader
