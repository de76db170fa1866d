import LoxLang.Text.Bytes

/-!
Reading bytes as UTF-8.  `pieces` divides any byte list from left to right
into well-formed sequences and single bytes that start none.
-/

namespace LoxLang.Utf8

/-- One step of reading: a code point, or a byte that starts no well-formed
sequence. -/
inductive Piece where
  | scalar (code : Nat)
  | stray (byte : UInt8)
deriving DecidableEq, Repr

def continuation? (byte : UInt8) : Option Nat :=
  if 0x80 ≤ byte && byte ≤ 0xBF then some (byte.toNat - 0x80) else none

/-- The code point of the sequence that starts with `first`, and how many
bytes of `rest` belong to it.  Overlong forms, surrogates and values above
`0x10FFFF` are not well formed. -/
def sequence? (first : UInt8) (rest : Bytes) : Option (Nat × Nat) :=
  if first < 0x80 then
    some (first.toNat, 0)
  else if 0xC0 ≤ first && first ≤ 0xDF then
    match rest with
    | second :: _ => do
        let low ← continuation? second
        let code := (first.toNat - 0xC0) * 64 + low
        if 0x80 ≤ code then some (code, 1) else none
    | _ => none
  else if 0xE0 ≤ first && first ≤ 0xEF then
    match rest with
    | second :: third :: _ => do
        let middle ← continuation? second
        let low ← continuation? third
        let code := (first.toNat - 0xE0) * 4096 + middle * 64 + low
        if 0x800 ≤ code && !(0xD800 ≤ code && code ≤ 0xDFFF) then some (code, 2) else none
    | _ => none
  else if 0xF0 ≤ first && first ≤ 0xF7 then
    match rest with
    | second :: third :: fourth :: _ => do
        let high ← continuation? second
        let middle ← continuation? third
        let low ← continuation? fourth
        let code := (first.toNat - 0xF0) * 262144 + high * 4096 + middle * 64 + low
        if 0x10000 ≤ code && code ≤ 0x10FFFF then some (code, 3) else none
    | _ => none
  else
    none

/-- Divide a text into well-formed sequences and stray bytes. -/
def pieces : Bytes → List Piece
  | [] => []
  | first :: rest =>
      match sequence? first rest with
      | some (code, taken) => .scalar code :: pieces (rest.drop taken)
      | none => .stray first :: pieces rest
termination_by text => text.length
decreasing_by
  · simp only [List.length_drop, List.length_cons]; omega
  · simp

/-- Every byte belongs to a well-formed sequence. -/
def isValid (text : Bytes) : Bool :=
  (pieces text).all fun
    | .scalar _ => true
    | .stray _ => false

/-- The code point that a byte reads as when it starts no well-formed sequence. -/
def replacement : Nat := 0xFFFD

/-- The code point that a text starts with, and how many bytes it takes.  A byte that starts
no well-formed sequence is read as the replacement; nothing is read of an empty text. -/
def decodeFirst : Bytes → Nat × Nat
  | [] => (replacement, 0)
  | first :: rest =>
      match sequence? first rest with
      | some (code, taken) => (code, taken + 1)
      | none => (replacement, 1)

theorem size_decodeFirst_pos (first : UInt8) (rest : Bytes) :
    0 < (decodeFirst (first :: rest)).2 := by
  unfold decodeFirst
  dsimp only
  split
  · exact Nat.succ_pos _
  · exact Nat.one_pos

def encode (code : Nat) : Bytes :=
  if code < 0x80 then
    [code.toUInt8]
  else if code < 0x800 then
    [(0xC0 + code / 64).toUInt8, (0x80 + code % 64).toUInt8]
  else if code < 0x10000 then
    [(0xE0 + code / 4096).toUInt8, (0x80 + code / 64 % 64).toUInt8,
      (0x80 + code % 64).toUInt8]
  else
    [(0xF0 + code / 262144).toUInt8, (0x80 + code / 4096 % 64).toUInt8,
      (0x80 + code / 64 % 64).toUInt8, (0x80 + code % 64).toUInt8]

end LoxLang.Utf8
