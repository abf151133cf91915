import LoxSyntax.Number.Decimal
import LoxSyntax.Toml.Reader

namespace LoxSyntax.Toml

/-- Digits with single underscores between them. -/
def digitRun (isDigit : Char → Bool) : Reader (List Char) := do
  let text ← Reader.run fun c => isDigit c || c == '_'
  let parts := text.splitOn '_'
  if parts.any List.isEmpty then failure else return parts.flatten

/-- The whole numbers that a document can hold are those of 64 bits. -/
def integerOf (n : Int) : Reader Int :=
  if Int64.minValue.toInt ≤ n && n ≤ Int64.maxValue.toInt then return n else failure

/-- A number in a base that is a power of two, with the letter that names the base. -/
def basedInteger (letter : Char) (base : Nat) (isDigit : Char → Bool) : Reader Int := do
  Reader.exactly ['0', letter]
  let digits ← digitRun isDigit
  let value (c : Char) := if c.isDigit then c.toNat - 48 else c.toLower.toNat - 87
  integerOf (digits.foldl (fun n c => base * n + value c) 0)

/-- Whether a sign is there, and whether it is a minus. -/
def sign : Reader (Option Bool) :=
  Reader.option ((do Reader.exactly ['+']; return false) <|> (do Reader.exactly ['-']; return true))

/-- A decimal whole number has no superfluous zeros in front. -/
def wholeDigits : Reader (List Char) := do
  let digits ← digitRun Char.isDigit
  if digits.head? == some '0' && digits.length != 1 then failure else return digits

/-- The fraction and the exponent behind a whole number. -/
structure Tail where
  fraction : List Char
  exponent : Int

/-- A fraction, an exponent, or both; a whole number without either is an integer. -/
def tail : Reader Tail := do
  let fraction ← Reader.option do
    Reader.exactly ['.']
    digitRun Char.isDigit
  let exponent ← Reader.option do
    let _ ← Reader.one fun c => c == 'e' || c == 'E'
    let negative := (← sign) == some true
    let size : Int := Nat.ofDigitChars 10 (← digitRun Char.isDigit) 0
    return if negative then -size else size
  if fraction.isNone && exponent.isNone then failure
  return ⟨fraction.getD [], exponent.getD 0⟩

/-- The size of a number with an exponent. Its digits place it between two powers of ten, and far
outside the range of finite numbers its value need not be computed. -/
def magnitudeOf (digits : List Char) (tail : Tail) : Binary64 :=
  let coefficient := Nat.ofDigitChars 10 (digits ++ tail.fraction) 0
  let exponent := tail.exponent - tail.fraction.length
  let leading := exponent + (digits.length + tail.fraction.length)
  if coefficient = 0 || leading < -400 then ⟨0⟩
  else if 400 < exponent then .ofRatio (.pow 10 400) 1
  else .ofRatio (coefficient * .pow 10 exponent.toNat) (.pow 10 (-exponent).toNat)

/-- A number that is not whole. One too large for a finite number is refused unless it is
negative. -/
def float : Reader Unit := do
  let negative := (← sign) == some true
  let special := Reader.exactly "inf".toList <|> Reader.exactly "nan".toList
  let finite : Reader Unit := do
    let size := magnitudeOf (← wholeDigits) (← tail)
    if size.isFinite || negative then return else failure
  finite <|> special

def integer : Reader Int :=
  basedInteger 'x' 16 (fun c => c.isDigit || 'a' ≤ c && c ≤ 'f' || 'A' ≤ c && c ≤ 'F') <|>
  basedInteger 'o' 8 (fun c => '0' ≤ c && c ≤ '7') <|>
  basedInteger 'b' 2 (fun c => c == '0' || c == '1') <|>
  do
    let negative := (← sign) == some true
    let size : Int := Nat.ofDigitChars 10 (← wholeDigits) 0
    integerOf (if negative then -size else size)

def boolean : Reader Bool :=
  (do Reader.exactly "true".toList; return true) <|>
  (do Reader.exactly "false".toList; return false)

def daysOfMonth (year month : Nat) : Nat :=
  if month = 2 then
    if year % 4 = 0 && (year % 100 != 0 || year % 400 = 0) then 29 else 28
  else if [4, 6, 9, 11].contains month then 30 else 31

/-- `yyyy-mm-dd` -/
def date : Reader Unit := do
  let year ← Reader.digits 4
  Reader.exactly ['-']
  let month ← Reader.digits 2
  Reader.exactly ['-']
  let day ← Reader.digits 2
  if 1 ≤ month && month ≤ 12 && 1 ≤ day && day ≤ daysOfMonth year month then return else failure

/-- `hh:mm:ss`, with the leap second and with any number of digits behind a point. -/
def time : Reader Unit := do
  let hour ← Reader.digits 2
  Reader.exactly [':']
  let minute ← Reader.digits 2
  Reader.exactly [':']
  let second ← Reader.digits 2
  let _ ← Reader.option do
    Reader.exactly ['.']
    let _ ← Reader.one Char.isDigit
    Reader.run Char.isDigit
  if hour ≤ 23 && minute ≤ 59 && second ≤ 60 then return else failure

/-- The distance of a time from universal time. -/
def offset : Reader Unit := do
  match ← Reader.one (['Z', 'z', '+', '-'].contains ·) with
  | '+' | '-' =>
    let hour ← Reader.digits 2
    Reader.exactly [':']
    let minute ← Reader.digits 2
    if hour ≤ 23 && minute ≤ 59 then return else failure
  | _ => return

/-- A date, a time of day, or both; only both can have an offset. -/
def moment : Reader Unit :=
  (do
    date
    let _ ← Reader.option do
      let _ ← Reader.one (['T', 't', ' '].contains ·)
      time
      Reader.option offset) <|>
  time

end LoxSyntax.Toml
