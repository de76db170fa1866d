import LoxLang.Text.Classes

/-!
Text between double quotes.  Visible characters stand for themselves; quotes,
backslashes, and everything that cannot be seen are escaped, so the quoted form
determines the bytes.
-/

namespace LoxLang.Text

def hexDigit (value : Nat) : UInt8 :=
  if value < 10 then (48 + value).toUInt8 else (87 + value).toUInt8

/-- The lowest `width` hexadecimal digits of a value. -/
def hexDigits : Nat → Nat → Bytes
  | 0, _ => []
  | width + 1, value => hexDigits width (value / 16) ++ [hexDigit (value % 16)]

/-- The letter that escapes a control character, if it has one. -/
def escapeLetter? (code : Nat) : Option String :=
  match code with
  | 7 => some "a"
  | 8 => some "b"
  | 12 => some "f"
  | 10 => some "n"
  | 13 => some "r"
  | 9 => some "t"
  | 11 => some "v"
  | _ => none

/-- A code point inside quotes. -/
def escapeScalar (code : Nat) : Bytes :=
  if code = 34 ∨ code = 92 then
    [92, code.toUInt8]
  else if isVisible code then
    Utf8.encode code
  else
    match escapeLetter? code with
    | some letter => 92 :: Bytes.ofString letter
    | none =>
        if code < 32 ∨ code = 127 then Bytes.ofString "\\x" ++ hexDigits 2 code
        else if code < 0x10000 then Bytes.ofString "\\u" ++ hexDigits 4 code
        else Bytes.ofString "\\U" ++ hexDigits 8 code

def escapePiece : Utf8.Piece → Bytes
  | .scalar code => escapeScalar code
  | .stray byte => Bytes.ofString "\\x" ++ hexDigits 2 byte.toNat

def quoted (text : Bytes) : Bytes :=
  34 :: (Utf8.pieces text).flatMap escapePiece ++ [34]

def quotedScalar (code : Nat) : Bytes :=
  let inner :=
    if code = 39 then [92, 39]
    else if code = 34 then [34]
    else escapeScalar code
  39 :: inner ++ [39]

end LoxLang.Text
