import LoxLang.Text.Utf8
import Mathlib.Logic.ExistsUnique

/-!
The division of text into code points.  What is read as a well-formed sequence is the encoding
of a code point, and the encoding of a code point is read as nothing else, so every text has
one division into encodings and single bytes that start none.
-/

namespace LoxLang.Utf8

theorem toNat_toUInt8 {number : Nat} (small : number < 256) : number.toUInt8.toNat = number := by
  rw [Nat.toUInt8_eq, UInt8.toNat_ofNat']
  omega

theorem eq_toUInt8 {byte : UInt8} {number : Nat} (same : byte.toNat = number) :
    byte = number.toUInt8 := by
  have bound := byte.toNat_lt
  rw [← UInt8.toNat_inj, toNat_toUInt8 (by omega), same]

theorem within_iff {low high byte : UInt8} :
    (low ≤ byte && byte ≤ high) = true ↔
      low.toNat ≤ byte.toNat ∧ byte.toNat ≤ high.toNat := by
  rw [Bool.and_eq_true, decide_eq_true_eq, decide_eq_true_eq, UInt8.le_iff_toNat_le,
    UInt8.le_iff_toNat_le]

theorem not_within {low high byte : UInt8} (above : high.toNat < byte.toNat) :
    ¬ (low ≤ byte && byte ≤ high) = true := fun within =>
  Nat.not_lt.mpr (within_iff.mp within).2 above

/-- A continuation byte holds six bits. -/
theorem continuation?_eq_some_iff {byte : UInt8} {low : Nat} :
    continuation? byte = some low ↔ low < 64 ∧ byte = (0x80 + low).toUInt8 := by
  unfold continuation?
  constructor
  · intro found
    split at found
    · next isContinuation =>
        have bounds : 128 ≤ byte.toNat ∧ byte.toNat ≤ 191 := within_iff.mp isContinuation
        obtain rfl := Option.some.inj found
        exact ⟨by omega, eq_toUInt8 (by omega)⟩
    · cases found
  · rintro ⟨small, rfl⟩
    have value : (0x80 + low).toUInt8.toNat = 0x80 + low := toNat_toUInt8 (by omega)
    rw [if_pos (within_iff.mpr (by
      show 128 ≤ (0x80 + low).toUInt8.toNat ∧ (0x80 + low).toUInt8.toNat ≤ 191
      omega)), value]
    exact congrArg some (Nat.add_sub_cancel_left ..)

/-- What UTF-8 can encode: every code point but the surrogates. -/
def IsScalar (code : Nat) : Prop :=
  code < 0xD800 ∨ (0xDFFF < code ∧ code ≤ 0x10FFFF)

theorem not_ascii {byte : UInt8} (large : 128 ≤ byte.toNat) : ¬ byte < 0x80 := fun small => by
  have : byte.toNat < 128 := UInt8.lt_iff_toNat_lt.mp small
  omega

/-- What is read as a sequence is the encoding of a code point. -/
theorem sequence?_sound {first : UInt8} {rest : Bytes} {code taken : Nat}
    (found : sequence? first rest = some (code, taken)) :
    IsScalar code ∧ first :: rest = encode code ++ rest.drop taken := by
  unfold sequence? at found
  split at found
  · next ascii =>
      have small : first.toNat < 128 := UInt8.lt_iff_toNat_lt.mp ascii
      cases found
      refine ⟨.inl (by omega), ?_⟩
      rw [encode, if_pos small, ← eq_toUInt8 rfl]
      rfl
  split at found
  · next two =>
      have lead : 192 ≤ first.toNat ∧ first.toNat ≤ 223 := within_iff.mp two
      split at found
      · obtain ⟨low, isLow, yields⟩ := Option.bind_eq_some_iff.mp found
        obtain ⟨lowBits, rfl⟩ := continuation?_eq_some_iff.mp isLow
        dsimp only at yields
        split at yields
        · next least =>
            generalize number : (first.toNat - 192) * 64 + low = value at yields least
            cases yields
            have one : first = (0xC0 + code / 64).toUInt8 := eq_toUInt8 (by omega)
            have last : code % 64 = low := by omega
            refine ⟨.inl (by omega), ?_⟩
            rw [encode, if_neg (by omega), if_pos (by omega), ← one, last]
            rfl
        · cases yields
      · cases found
  split at found
  · next three =>
      have lead : 224 ≤ first.toNat ∧ first.toNat ≤ 239 := within_iff.mp three
      split at found
      · obtain ⟨middle, isMiddle, further⟩ := Option.bind_eq_some_iff.mp found
        obtain ⟨low, isLow, yields⟩ := Option.bind_eq_some_iff.mp further
        obtain ⟨middleBits, rfl⟩ := continuation?_eq_some_iff.mp isMiddle
        obtain ⟨lowBits, rfl⟩ := continuation?_eq_some_iff.mp isLow
        dsimp only at yields
        split at yields
        · next bounds =>
            generalize number : (first.toNat - 224) * 4096 + middle * 64 + low = value
              at yields bounds
            cases yields
            simp only [Bool.and_eq_true, decide_eq_true_eq, Bool.not_eq_true',
              Bool.and_eq_false_iff, decide_eq_false_iff_not] at bounds
            have one : first = (0xE0 + code / 4096).toUInt8 := eq_toUInt8 (by omega)
            have second : code / 64 % 64 = middle := by omega
            have last : code % 64 = low := by omega
            refine ⟨?_, ?_⟩
            · unfold IsScalar
              omega
            · rw [encode, if_neg (by omega), if_neg (by omega), if_pos (by omega), ← one, second,
                last]
              rfl
        · cases yields
      · cases found
  split at found
  · next four =>
      have lead : 240 ≤ first.toNat ∧ first.toNat ≤ 247 := within_iff.mp four
      split at found
      · obtain ⟨high, isHigh, further⟩ := Option.bind_eq_some_iff.mp found
        obtain ⟨middle, isMiddle, beyond⟩ := Option.bind_eq_some_iff.mp further
        obtain ⟨low, isLow, yields⟩ := Option.bind_eq_some_iff.mp beyond
        obtain ⟨highBits, rfl⟩ := continuation?_eq_some_iff.mp isHigh
        obtain ⟨middleBits, rfl⟩ := continuation?_eq_some_iff.mp isMiddle
        obtain ⟨lowBits, rfl⟩ := continuation?_eq_some_iff.mp isLow
        dsimp only at yields
        split at yields
        · next bounds =>
            generalize number :
              (first.toNat - 240) * 262144 + high * 4096 + middle * 64 + low = value
                at yields bounds
            cases yields
            simp only [Bool.and_eq_true, decide_eq_true_eq] at bounds
            have one : first = (0xF0 + code / 262144).toUInt8 := eq_toUInt8 (by omega)
            have second : code / 4096 % 64 = high := by omega
            have third : code / 64 % 64 = middle := by omega
            have last : code % 64 = low := by omega
            refine ⟨.inr (by omega), ?_⟩
            rw [encode, if_neg (by omega), if_neg (by omega), if_neg (by omega), ← one, second,
              third, last]
            rfl
        · cases yields
      · cases found
  · cases found

/-- The encoding of a code point is read as that sequence. -/
theorem sequence?_encode {code : Nat} (isScalar : IsScalar code) (rest : Bytes) :
    ∃ first others, encode code = first :: others ∧
      sequence? first (others ++ rest) = some (code, others.length) := by
  have continues (number : Nat) :
      continuation? (0x80 + number % 64).toUInt8 = some (number % 64) :=
    continuation?_eq_some_iff.mpr ⟨Nat.mod_lt _ (by decide), rfl⟩
  unfold encode
  split
  · next ascii =>
      have value : code.toUInt8.toNat = code := toNat_toUInt8 (by omega)
      have small : code.toUInt8 < 0x80 := UInt8.lt_iff_toNat_lt.mpr (by rw [value]; exact ascii)
      refine ⟨_, [], rfl, ?_⟩
      simp only [sequence?, if_pos small, value, List.length_nil]
  split
  · have value : (0xC0 + code / 64).toUInt8.toNat = 0xC0 + code / 64 := toNat_toUInt8 (by omega)
    refine ⟨_, _, rfl, ?_⟩
    generalize (0xC0 + code / 64).toUInt8 = first at value
    have notAscii : ¬ first < 0x80 := not_ascii (by omega)
    have two : (0xC0 ≤ first && first ≤ 0xDF) = true := within_iff.mpr (by
      show 192 ≤ first.toNat ∧ first.toNat ≤ 223
      omega)
    have number : (first.toNat - 0xC0) * 64 + code % 64 = code := by omega
    unfold sequence?
    rw [if_neg notAscii, if_pos two]
    refine Option.bind_eq_some_iff.mpr ⟨_, continues code, ?_⟩
    dsimp only
    rw [number, if_pos (by omega)]
    rfl
  split
  · have value : (0xE0 + code / 4096).toUInt8.toNat = 0xE0 + code / 4096 :=
      toNat_toUInt8 (by omega)
    refine ⟨_, _, rfl, ?_⟩
    generalize (0xE0 + code / 4096).toUInt8 = first at value
    have notAscii : ¬ first < 0x80 := not_ascii (by omega)
    have notTwo : ¬ (0xC0 ≤ first && first ≤ 0xDF) = true := not_within (by
      show 223 < first.toNat
      omega)
    have three : (0xE0 ≤ first && first ≤ 0xEF) = true := within_iff.mpr (by
      show 224 ≤ first.toNat ∧ first.toNat ≤ 239
      omega)
    have number : (first.toNat - 0xE0) * 4096 + code / 64 % 64 * 64 + code % 64 = code := by
      omega
    unfold sequence?
    rw [if_neg notAscii, if_neg notTwo, if_pos three]
    refine Option.bind_eq_some_iff.mpr ⟨_, continues (code / 64), ?_⟩
    refine Option.bind_eq_some_iff.mpr ⟨_, continues code, ?_⟩
    dsimp only
    rw [number, if_pos]
    · rfl
    · unfold IsScalar at isScalar
      simp only [Bool.and_eq_true, decide_eq_true_eq, Bool.not_eq_true', Bool.and_eq_false_iff,
        decide_eq_false_iff_not]
      omega
  · have greatest : code ≤ 0x10FFFF := by
      unfold IsScalar at isScalar
      omega
    have value : (0xF0 + code / 262144).toUInt8.toNat = 0xF0 + code / 262144 :=
      toNat_toUInt8 (by omega)
    refine ⟨_, _, rfl, ?_⟩
    generalize (0xF0 + code / 262144).toUInt8 = first at value
    have notAscii : ¬ first < 0x80 := not_ascii (by omega)
    have notTwo : ¬ (0xC0 ≤ first && first ≤ 0xDF) = true := not_within (by
      show 223 < first.toNat
      omega)
    have notThree : ¬ (0xE0 ≤ first && first ≤ 0xEF) = true := not_within (by
      show 239 < first.toNat
      omega)
    have four : (0xF0 ≤ first && first ≤ 0xF7) = true := within_iff.mpr (by
      show 240 ≤ first.toNat ∧ first.toNat ≤ 247
      omega)
    have number : (first.toNat - 0xF0) * 262144 + code / 4096 % 64 * 4096 +
        code / 64 % 64 * 64 + code % 64 = code := by
      omega
    unfold sequence?
    rw [if_neg notAscii, if_neg notTwo, if_neg notThree, if_pos four]
    refine Option.bind_eq_some_iff.mpr ⟨_, continues (code / 4096), ?_⟩
    refine Option.bind_eq_some_iff.mpr ⟨_, continues (code / 64), ?_⟩
    refine Option.bind_eq_some_iff.mpr ⟨_, continues code, ?_⟩
    dsimp only
    rw [number, if_pos]
    · rfl
    · simp only [Bool.and_eq_true, decide_eq_true_eq]
      omega

theorem encode_ne_nil {code : Nat} (isScalar : IsScalar code) : encode code ≠ [] := by
  obtain ⟨first, others, spelled, -⟩ := sequence?_encode isScalar []
  rw [spelled]
  exact List.cons_ne_nil _ _

/-- A text is divided, from left to right, into encodings of code points and single bytes at
which no encoding starts. -/
inductive Divides : Bytes → List Piece → Prop where
  | nil : Divides [] []
  | scalar {code : Nat} {rest : Bytes} {pieces : List Piece} : IsScalar code →
      Divides rest pieces → Divides (encode code ++ rest) (.scalar code :: pieces)
  | stray {byte : UInt8} {rest : Bytes} {pieces : List Piece} :
      (∀ code, IsScalar code → ¬ encode code <+: byte :: rest) →
        Divides rest pieces → Divides (byte :: rest) (.stray byte :: pieces)

theorem sequence?_eq_none {byte : UInt8} {rest : Bytes}
    (starts : ∀ code, IsScalar code → ¬ encode code <+: byte :: rest) :
    sequence? byte rest = none := by
  cases found : sequence? byte rest with
  | none => rfl
  | some read =>
      obtain ⟨isScalar, whole⟩ := sequence?_sound found
      exact absurd ⟨_, whole.symm⟩ (starts read.1 isScalar)

/-- Reading a text from left to right divides it. -/
theorem divides_pieces (text : Bytes) : Divides text (pieces text) := by
  fun_induction pieces text with
  | case1 => exact .nil
  | case2 first rest code taken found inductionHypothesis =>
      obtain ⟨isScalar, whole⟩ := sequence?_sound found
      rw [whole]
      exact .scalar isScalar inductionHypothesis
  | case3 first rest found inductionHypothesis =>
      refine .stray (fun code isScalar begins => ?_) inductionHypothesis
      obtain ⟨after, whole⟩ := begins
      obtain ⟨lead, others, spelled, read⟩ := sequence?_encode isScalar after
      rw [spelled, List.cons_append] at whole
      obtain ⟨rfl, rfl⟩ := List.cons.inj whole
      rw [read] at found
      cases found

/-- Encodings are prefix-free, so a text is divided in one way. -/
theorem Divides.eq_pieces {text : Bytes} {division : List Piece} (divides : Divides text division) :
    division = pieces text := by
  induction divides with
  | nil => rw [pieces]
  | @scalar code rest division isScalar _ inductionHypothesis =>
      obtain ⟨first, others, spelled, read⟩ := sequence?_encode isScalar rest
      rw [spelled, List.cons_append, pieces, read]
      simp only [List.drop_left, inductionHypothesis]
  | stray starts _ inductionHypothesis =>
      rw [pieces, sequence?_eq_none starts, inductionHypothesis]

theorem existsUnique_division (text : Bytes) : ∃! division, Divides text division :=
  ⟨pieces text, divides_pieces text, fun _ divides => divides.eq_pieces⟩

/-- Code points that are encoded one after the other divide their text. -/
theorem divides_flatMap_encode {codes : List Nat} (areScalars : ∀ code ∈ codes, IsScalar code)
    {rest : Bytes} {division : List Piece} (divides : Divides rest division) :
    Divides (codes.flatMap encode ++ rest) (codes.map .scalar ++ division) := by
  induction codes with
  | nil => exact divides
  | cons code codes inductionHypothesis =>
      obtain ⟨isScalar, others⟩ := List.forall_mem_cons.mp areScalars
      rw [List.flatMap_cons, List.append_assoc]
      exact .scalar isScalar (inductionHypothesis others)

section Decode

variable {code : Nat}

theorem decodeFirst_encode (isScalar : IsScalar code) (rest : Bytes) :
    decodeFirst (encode code ++ rest) = (code, (encode code).length) := by
  obtain ⟨first, others, spelled, read⟩ := sequence?_encode isScalar rest
  rw [spelled, List.cons_append, decodeFirst, read, List.length_cons]

theorem decodeFirst_stray {byte : UInt8} {rest : Bytes}
    (starts : ∀ code, IsScalar code → ¬ encode code <+: byte :: rest) :
    decodeFirst (byte :: rest) = (replacement, 1) := by
  rw [decodeFirst, sequence?_eq_none starts]

end Decode

end LoxLang.Utf8
