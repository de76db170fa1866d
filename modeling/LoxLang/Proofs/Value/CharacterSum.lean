import LoxLang.Proofs.Number.Whole
import LoxLang.Proofs.Text.Utf8
import LoxLang.Value.Basic

/-!
Character sums.  The number that stands for a text is the sum over its division into code
points and stray bytes, exactly as long as it does not exceed `2 ^ 53`.
-/

namespace LoxLang

namespace Utf8

/-- What a piece counts: its code point, or the value of a stray byte. -/
def Piece.weight : Piece → Nat
  | .scalar code => code
  | .stray byte => byte.toNat

/-- What the pieces of a text add up to. -/
def total (division : List Piece) : Nat :=
  (division.map Piece.weight).sum

@[simp]
theorem total_nil : total [] = 0 :=
  rfl

@[simp]
theorem total_cons (piece : Piece) (division : List Piece) :
    total (piece :: division) = piece.weight + total division :=
  List.sum_cons

theorem total_append (first second : List Piece) :
    total (first ++ second) = total first + total second := by
  rw [total, List.map_append, List.sum_append]
  rfl

theorem total_scalars (codes : List Nat) : total (codes.map .scalar) = codes.sum := by
  rw [total, List.map_map]
  exact congrArg List.sum (List.map_id codes)

theorem Piece.weight_le {text : Bytes} {division : List Piece} (divides : Divides text division) :
    ∀ piece ∈ division, piece.weight ≤ 2 ^ 53 := by
  induction divides with
  | nil => exact fun _ member => absurd member List.not_mem_nil
  | @scalar code _ _ isScalar _ inductionHypothesis =>
      refine List.forall_mem_cons.mpr ⟨?_, inductionHypothesis⟩
      unfold IsScalar at isScalar
      show code ≤ 2 ^ 53
      omega
  | @stray byte _ _ _ _ inductionHypothesis =>
      refine List.forall_mem_cons.mpr ⟨?_, inductionHypothesis⟩
      have bound := byte.toNat_lt
      show byte.toNat ≤ 2 ^ 53
      omega

end Utf8

open Utf8

/-- A code point is added as it is, the replacement character included. -/
theorem addCharacters_encode {code : Nat} (isScalar : IsScalar code) (sum : Float)
    (rest : Bytes) :
    addCharacters sum (encode code ++ rest) = addCharacters (sum + Float.ofNat code) rest := by
  have read := decodeFirst_encode isScalar rest
  have notStray : ¬ (code = replacement ∧ (encode code).length = 1) := by
    rintro ⟨rfl, short⟩
    cases short
  obtain ⟨first, others, spelled⟩ := List.exists_cons_of_ne_nil (encode_ne_nil isScalar)
  rw [spelled, List.cons_append] at read ⊢
  rw [spelled] at notStray
  rw [addCharacters, read]
  simp only [if_neg notStray, ← List.cons_append, List.drop_left]

/-- A byte at which no code point is encoded is added as its value. -/
theorem addCharacters_stray {byte : UInt8} {rest : Bytes}
    (starts : ∀ code, IsScalar code → ¬ encode code <+: byte :: rest) (sum : Float) :
    addCharacters sum (byte :: rest) = addCharacters (sum + Float.ofNat byte.toNat) rest := by
  rw [addCharacters, decodeFirst_stray starts]
  rfl

/-- One step of the sum adds what the first piece counts. -/
theorem addCharacters_piece {text : Bytes} {piece : Piece} {division : List Piece}
    (divides : Divides text (piece :: division)) :
    ∃ rest, Divides rest division ∧
      ∀ sum, addCharacters sum text = addCharacters (sum + Float.ofNat piece.weight) rest := by
  cases divides with
  | scalar isScalar later => exact ⟨_, later, fun sum => addCharacters_encode isScalar sum _⟩
  | stray starts later => exact ⟨_, later, addCharacters_stray starts⟩

/-- Sums of naturals up to `2 ^ 53` are exact, so the whole is. -/
theorem addCharacters_ofNat {text : Bytes} {division : List Piece}
    (divides : Divides text division) {before : Nat} (small : before + total division ≤ 2 ^ 53) :
    addCharacters (Float.ofNat before) text = Float.ofNat (before + total division) := by
  induction division generalizing text before with
  | nil =>
      cases divides
      rw [addCharacters, total_nil, Nat.add_zero]
  | cons piece division inductionHypothesis =>
      obtain ⟨rest, later, step⟩ := addCharacters_piece divides
      rw [total_cons, ← Nat.add_assoc] at small ⊢
      rw [step, Binary.ofNat_add (Nat.le_of_add_right_le small)]
      exact inductionHypothesis later small

/-- A sum of characters is always a number, however long the text is. -/
theorem isNaN_addCharacters {text : Bytes} {division : List Piece}
    (divides : Divides text division) {sum : Float} (isNumber : sum.isNaN = false) :
    (addCharacters sum text).isNaN = false := by
  induction division generalizing text sum with
  | nil =>
      cases divides
      rw [addCharacters]
      exact isNumber
  | cons piece division inductionHypothesis =>
      have small := Piece.weight_le divides piece List.mem_cons_self
      obtain ⟨rest, later, step⟩ := addCharacters_piece divides
      rw [step]
      exact inductionHypothesis later
        (Binary.isNaN_add isNumber (Binary.isWhole_ofNat small).isFinite)

theorem isNaN_characterSum (text : Bytes) : (characterSum text).isNaN = false :=
  isNaN_addCharacters (divides_pieces text) rfl

theorem characterSum_of_divides {text : Bytes} {division : List Piece}
    (divides : Divides text division) (small : total division ≤ 2 ^ 53) :
    characterSum text = Float.ofNat (total division) := by
  have fromZero : 0 + total division ≤ 2 ^ 53 := by rwa [Nat.zero_add]
  have whole := addCharacters_ofNat divides fromZero
  rw [Nat.zero_add] at whole
  exact whole

/-- The character sum of a text is the sum over its one division, that of encoded code points
is the sum of these, and what follows encoded code points is summed by itself. -/
theorem characterSum_eq_total (text : Bytes) :
    (∃! division, Divides text division) ∧
      (∀ division, Divides text division → total division ≤ 2 ^ 53 →
        characterSum text = Float.ofNat (total division)) ∧
      (∀ codes : List Nat, (∀ code ∈ codes, IsScalar code) → text = codes.flatMap encode →
        codes.sum ≤ 2 ^ 53 → characterSum text = Float.ofNat codes.sum) ∧
      ∀ (codes : List Nat) (rest : Bytes) (division : List Piece),
        (∀ code ∈ codes, IsScalar code) → text = codes.flatMap encode →
          Divides (text ++ rest) division → total division ≤ 2 ^ 53 →
            characterSum (text ++ rest) = characterSum text + characterSum rest := by
  refine ⟨existsUnique_division text, fun _ => characterSum_of_divides, ?_, ?_⟩
  · rintro codes areScalars rfl small
    have divides := divides_flatMap_encode areScalars .nil
    rw [List.append_nil, List.append_nil] at divides
    rw [← total_scalars] at small ⊢
    exact characterSum_of_divides divides small
  · rintro codes rest division areScalars rfl divides small
    have first := divides_flatMap_encode areScalars .nil
    have second := divides_pieces rest
    rw [List.append_nil, List.append_nil] at first
    obtain rfl : division = codes.map .scalar ++ pieces rest :=
      divides.eq_pieces.trans (divides_flatMap_encode areScalars second).eq_pieces.symm
    rw [total_append] at small
    rw [characterSum_of_divides divides (by rwa [total_append]),
      characterSum_of_divides first (Nat.le_of_add_right_le small),
      characterSum_of_divides second (Nat.le_of_add_left_le small), total_append,
      Binary.ofNat_add small]

/-- An encoded replacement character counts as itself, and the bytes of an encoded surrogate
count one by one, before it and after it. -/
theorem characterSum_eq_total_replacement :
    Divides [0xED, 0xA0, 0x80, 0xEF, 0xBF, 0xBD]
        [.stray 0xED, .stray 0xA0, .stray 0x80, .scalar 0xFFFD] ∧
      characterSum [0xED, 0xA0, 0x80, 0xEF, 0xBF, 0xBD] = Float.ofNat 66058 ∧
      characterSum [0xEF, 0xBF, 0xBD] = Float.ofNat 0xFFFD ∧
      characterSum ([0xEF, 0xBF, 0xBD] ++ [0xED, 0xA0, 0x80]) =
        characterSum [0xEF, 0xBF, 0xBD] + characterSum [0xED, 0xA0, 0x80] := by
  have divides := divides_pieces [0xED, 0xA0, 0x80, 0xEF, 0xBF, 0xBD]
  have division : pieces [0xED, 0xA0, 0x80, 0xEF, 0xBF, 0xBD] =
      [.stray 0xED, .stray 0xA0, .stray 0x80, .scalar 0xFFFD] := by decide +kernel
  rw [division] at divides
  have areScalars : ∀ code ∈ [0xFFFD], IsScalar code :=
    List.forall_mem_singleton.mpr (by unfold IsScalar; omega)
  have spelled : [0xEF, 0xBF, 0xBD] = [0xFFFD].flatMap encode := by decide +kernel
  obtain ⟨-, -, ofScalars, appended⟩ := characterSum_eq_total [0xEF, 0xBF, 0xBD]
  exact ⟨divides, (characterSum_eq_total _).2.1 _ divides (by decide),
    ofScalars [0xFFFD] areScalars spelled (by decide),
    appended [0xFFFD] [0xED, 0xA0, 0x80] _ areScalars spelled (divides_pieces _)
      (by decide +kernel)⟩

end LoxLang
