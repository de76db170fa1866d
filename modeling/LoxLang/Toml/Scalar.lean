import LoxLang.Number.Decimal
import LoxLang.Text.Utf8

/-!
Numbers, dates and times of a settings file.  No setting holds one, so only
their validity matters: a file with a malformed one is rejected as a whole.
-/

namespace LoxLang.Toml

def isDecimalDigit (c : Char) : Bool :=
  '0' ≤ c && c ≤ '9'

def digitValue (c : Char) : Nat :=
  if isDecimalDigit c then c.toNat - 48
  else if 'a' ≤ c && c ≤ 'f' then c.toNat - 87
  else if 'A' ≤ c && c ≤ 'F' then c.toNat - 55
  else 16

/-- A digit of a base up to sixteen. -/
def isDigitOf (base : Nat) (c : Char) : Bool :=
  digitValue c < base

/-- The number that digits of a base denote. -/
def digitsValue (base : Nat) (digits : List Char) : Nat :=
  digits.foldl (fun value c => base * value + digitValue c) 0

/-- Digits without the underscores between them.  An underscore stands between
two digits. -/
def digits? (base : Nat) : List Char → Option (List Char)
  | [] => none
  | [c] => if isDigitOf base c then some [c] else none
  | c :: '_' :: rest => if isDigitOf base c then (c :: ·) <$> digits? base rest else none
  | c :: rest => if isDigitOf base c then (c :: ·) <$> digits? base rest else none

/-- Decimal digits without a superfluous zero in front. -/
def wholeDigits? (text : List Char) : Option (List Char) :=
  match digits? 10 text with
  | some ('0' :: _ :: _) => none
  | found => found

def splitSign : List Char → Option Char × List Char
  | '-' :: rest => (some '-', rest)
  | '+' :: rest => (some '+', rest)
  | text => (none, text)

/-- A signed number of 64 bits. -/
def isInteger (text : List Char) : Bool :=
  let inBase (base : Nat) (rest : List Char) : Bool :=
    match digits? base rest with
    | some found => digitsValue base found < Nat.pow 2 63
    | none => false
  match text with
  | '0' :: 'x' :: rest => inBase 16 rest
  | '0' :: 'o' :: rest => inBase 8 rest
  | '0' :: 'b' :: rest => inBase 2 rest
  | _ =>
      let (sign, rest) := splitSign text
      match wholeDigits? rest with
      | some found => digitsValue 10 found < Nat.pow 2 63 + (if sign = some '-' then 1 else 0)
      | none => false

/-- A number with a fraction or an exponent, or one of the words for values
that are not finite. -/
def isFractional (text : List Char) : Bool :=
  let (_, rest) := splitSign text
  if rest = ['i', 'n', 'f'] || rest = ['n', 'a', 'n'] then
    true
  else
    let isMark (c : Char) : Bool := c == 'e' || c == 'E'
    let mantissa := rest.takeWhile (!isMark ·)
    let exponent := rest.dropWhile (!isMark ·)
    let whole := mantissa.takeWhile (· != '.')
    let fraction := mantissa.dropWhile (· != '.')
    let power : Option Int := match exponent with
      | [] => some 0
      | _ :: power =>
          let (sign, power) := splitSign power
          (digits? 10 power).map fun found =>
            let value : Int := digitsValue 10 found
            if sign = some '-' then -value else value
    let places : Option (List Char) := match fraction with
      | [] => some []
      | _ :: places => digits? 10 places
    match wholeDigits? whole, places, power with
    | some whole, some places, some power =>
        let digits := digitsValue 10 (whole ++ places)
        let shift := power - places.length
        let depth := 800 + whole.length + places.length
        let number : Decimal := ⟨digits, min shift.toNat 400, min (-shift).toNat depth⟩
        !(fraction.isEmpty && exponent.isEmpty) &&
          (digits == 0 || number.nearest < Binary.infinityRank)
    | _, _, _ => false

/-- Exactly `width` decimal digits in front, within bounds. -/
def fixedDigits? (width low high : Nat) (text : List Char) : Option (Nat × List Char) :=
  let taken := text.take width
  let value := digitsValue 10 taken
  if taken.length = width && taken.all isDecimalDigit && low ≤ value && value ≤ high then
    some (value, text.drop width)
  else
    none

def daysOfMonth (year month : Nat) : Nat :=
  if month = 2 then
    if year % 4 = 0 && (year % 100 != 0 || year % 400 = 0) then 29 else 28
  else if month = 4 || month = 6 || month = 9 || month = 11 then
    30
  else
    31

def date? (text : List Char) : Option (List Char) := do
  let (year, rest) ← fixedDigits? 4 0 9999 text
  let '-' :: rest := rest | none
  let (month, rest) ← fixedDigits? 2 1 12 rest
  let '-' :: rest := rest | none
  let (_, rest) ← fixedDigits? 2 1 (daysOfMonth year month) rest
  return rest

/-- An hour in front, of one digit or two. -/
def hour? (text : List Char) : Option (List Char) :=
  let width := min 2 (text.takeWhile isDecimalDigit).length
  if width = 0 then none else (fixedDigits? width 0 23 text).map Prod.snd

def time? (text : List Char) : Option (List Char) := do
  let rest ← hour? text
  let ':' :: rest := rest | none
  let (_, rest) ← fixedDigits? 2 0 59 rest
  let ':' :: rest := rest | none
  let (_, rest) ← fixedDigits? 2 0 59 rest
  match rest with
  | '.' :: fraction =>
      if (fraction.takeWhile isDecimalDigit).isEmpty then none
      else some (fraction.dropWhile isDecimalDigit)
  | rest => some rest

/-- The whole text is an offset from universal time, or empty.  A full day and
a full hour are still offsets. -/
def isOffset : List Char → Bool
  | [] => true
  | ['Z'] | ['z'] => true
  | sign :: rest =>
      (sign == '+' || sign == '-') &&
        match fixedDigits? 2 0 24 rest with
        | some (_, ':' :: minutes) =>
            match fixedDigits? 2 0 60 minutes with
            | some (_, []) => true
            | _ => false
        | _ => false

/-- A date, a time, or both.  A time that stands alone does not start with a
zero of its own. -/
def isMoment (text : List Char) : Bool :=
  match date? text with
  | some [] => true
  | some (mark :: rest) =>
      (mark == 'T' || mark == 't' || mark == ' ') &&
        match time? rest with
        | some offset => isOffset offset
        | none => false
  | none => time? text == some [] && text.take 2 != ['0', ':']

end LoxLang.Toml
