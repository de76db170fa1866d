import LoxLang.Eval.Basic
import LoxLang.Program.Parser
import LoxLang.Proofs.Number.Numeral
import LoxLang.Proofs.Token.Layout

/-!
Numbers read back.  What is written for a finite double is a numeral behind a sign.  The
numeral is one token for the magnitude, the whole is an expression for the double itself, and
a line of input that holds the numeral gives the magnitude.
-/

namespace LoxLang

open Chunk (EndsNumeral)
open Binary (isNegative rank toFloat infinityRank)

section Numeral

variable {numeral : Bytes}

theorem IsNumeral.ne_nil (isNumeral : IsNumeral numeral) : numeral ≠ [] :=
  isNumeral.lexeme.ne_nil

theorem IsNumeral.isDigit_head (isNumeral : IsNumeral numeral) :
    ∃ first rest, numeral = first :: rest ∧ Bytes.isDigit first = true := by
  have head {digits : Bytes} (isDigits : IsDigits digits) :
      ∃ first rest, digits = first :: rest ∧ Bytes.isDigit first = true := by
    obtain ⟨first, rest, rfl⟩ := List.exists_cons_of_ne_nil isDigits.1
    exact ⟨first, rest, rfl, isDigits.2 first List.mem_cons_self⟩
  cases isNumeral with
  | whole isDigits => exact head isDigits
  | decimal isDigits _ _ =>
      obtain ⟨first, rest, rfl, digit⟩ := head isDigits
      exact ⟨first, _, List.cons_append, digit⟩

/-- A numeral is cut whole before anything that does not go on with it. -/
theorem chunks_of_isNumeral (isNumeral : IsNumeral numeral) {rest : Bytes}
    (ends : EndsNumeral rest) :
    chunks (numeral ++ rest) = ⟨.token .number, numeral⟩ :: chunks rest := by
  have cut : Chunk.cutNumber (numeral ++ rest) = (⟨.token .number, numeral⟩, rest) := by
    cases isNumeral with
    | whole isDigits => exact Chunk.cutNumber_of_digits isDigits ends
    | decimal isDigits isFraction _ => exact Chunk.cutNumber_of_fraction isDigits isFraction ends
  obtain ⟨first, others, rfl, digit⟩ := isNumeral.isDigit_head
  rw [List.cons_append] at cut ⊢
  rw [chunks, Chunk.cut_eq, Chunk.start_eq_digit_iff.mpr digit]
  dsimp only
  rw [cut]

/-- A numeral as a statement. -/
theorem chunks_statement (isNumeral : IsNumeral numeral) :
    chunks (numeral ++ [59]) = [⟨.token .number, numeral⟩, ⟨.token .semicolon, [59]⟩] := by
  have ends : EndsNumeral [59] := by
    intro byte member
    cases member
    decide
  have semicolon : chunks [59] = [⟨.token .semicolon, [59]⟩] := by
    rw [chunks, show Chunk.cut 59 [] = (⟨.token .semicolon, [59]⟩, []) from rfl, chunks]
  rw [chunks_of_isNumeral isNumeral ends, semicolon]

theorem chunks_minus (text : Bytes) : chunks (45 :: text) = ⟨.token .minus, [45]⟩ :: chunks text := by
  rw [chunks, show Chunk.cut 45 text = (⟨.token .minus, [45]⟩, text) from rfl]

end Numeral

theorem Chunk.withLines_of_one_line (line : Nat) {cut : List Chunk}
    (oneLine : ∀ chunk ∈ cut, chunk.text.lineFeeds = 0) :
    withLines line cut = cut.map fun chunk => (line, chunk) := by
  induction cut with
  | nil => rfl
  | cons chunk rest inductionHypothesis =>
      obtain ⟨first, others⟩ := List.forall_mem_cons.mp oneLine
      rw [withLines, first, Nat.add_zero, inductionHypothesis others, List.map_cons]

/-- A text of one line is scanned to tokens and errors of line one. -/
theorem scan_of_one_line {source : Bytes} (oneLine : Bytes.lineFeed ∉ source) :
    scan source = ⟨(chunks source).filterMap (Chunk.token? 1) ++ [.endOfSource 1],
      (chunks source).filterMap (Chunk.diagnostic? 1)⟩ := by
  have placed : Chunk.withLines 1 (chunks source) = (chunks source).map fun chunk => (1, chunk) := by
    refine Chunk.withLines_of_one_line 1 fun chunk member => ?_
    refine List.count_eq_zero.mpr fun inside => oneLine ?_
    rw [← flatMap_text_chunks source]
    exact List.mem_flatMap.mpr ⟨chunk, member, inside⟩
  have feeds : source.lineFeeds = 0 := List.count_eq_zero.mpr oneLine
  simp only [scan, placed, feeds, List.filterMap_map, Nat.add_zero]
  rfl

section Readers

variable {rank : Nat}

theorem literal?_magnitude (finite : rank ≤ Binary.infinityRank) :
    Chunk.literal? .number (Number.magnitude rank) = some (.number (Binary.toFloat rank)) := by
  obtain ⟨number, found, nearest⟩ := Number.exists_parse?_magnitude finite
  simp only [Chunk.literal?, Number.read?, found, Option.map_some, nearest]

theorem readFinite?_magnitude (finite : rank < Binary.infinityRank) :
    Number.readFinite? (Number.magnitude rank) = some (Binary.toFloat rank) := by
  obtain ⟨number, found, rfl⟩ := Number.exists_parse?_magnitude (Nat.le_of_lt finite)
  rw [Number.readFinite?, found, Option.bind_eq_bind, Option.bind_some, if_pos finite]

/-- A line of input that holds a numeral loses nothing at its end. -/
theorem lineValue_magnitude (finite : rank < Binary.infinityRank) :
    Eval.lineValue (Number.magnitude rank) = .number (Binary.toFloat rank) := by
  have isNumeral := Number.isNumeral_magnitude rank
  have kept : Bytes.trimEndWhile (fun byte => byte == 13 || byte == Bytes.lineFeed)
      (Number.magnitude rank) = Number.magnitude rank := by
    have stays : ∀ byte ∈ Number.magnitude rank,
        (byte == 13 || byte == Bytes.lineFeed) = false := by
      intro byte member
      by_contra mark
      rw [Bool.not_eq_false, Bool.or_eq_true, beq_iff_eq, beq_iff_eq] at mark
      rcases mark with rfl | rfl
      · exact isNumeral.not_mem (by decide) (by decide) member
      · exact isNumeral.not_mem (by decide) (by decide) member
    rw [Bytes.trimEndWhile, List.dropWhile_eq_self_iff.mpr, List.reverse_reverse]
    intro long
    have member := List.mem_reverse.mp (List.getElem_mem long)
    rw [stays _ member]
    exact Bool.false_ne_true
  simp only [Eval.lineValue, kept, readFinite?_magnitude finite]

end Readers

/-- The first line of a text and what follows it make up the text. -/
theorem Bytes.append_of_splitLine {text line : Bytes} {remaining : Option Bytes}
    (split : text.splitLine = (line, remaining)) :
    text = line ++ remaining.elim [] (lineFeed :: ·) := by
  induction text generalizing line remaining with
  | nil =>
      cases split
      rfl
  | cons byte rest inductionHypothesis =>
      rw [splitLine] at split
      split at split
      · next ends =>
          cases split
          rw [ends]
          rfl
      · cases split
        exact congrArg (List.cons byte) (inductionHypothesis rfl)

/-- Reading a line takes it and the line feed behind it from the input. -/
theorem Input.readLine?_of_splitLine {input : Input} {line : Bytes} {remaining : Option Bytes}
    (split : input.pending.splitLine = (line, remaining)) (nonempty : line ≠ []) :
    ∃ after, input.readLine? = some (line, after) ∧ after.pending = remaining.getD [] := by
  have whole := Bytes.append_of_splitLine split
  have notEnd : input.pending.isEmpty = false := by
    rw [whole]
    cases line with
    | nil => exact absurd rfl nonempty
    | cons byte others => rfl
  cases remaining with
  | none =>
      refine ⟨input.drop line.length, ?_, ?_⟩
      · simp [readLine?, notEnd, split]
      · rw [pending_drop, whole]
        simp
  | some rest =>
      refine ⟨input.drop (line.length + 1), ?_, ?_⟩
      · simp [readLine?, notEnd, split]
      · rw [pending_drop, whole]
        simp

/-- What is written for a double is its sign and a numeral, and gives it back. -/
structure ReadsBack (value : Float) (numeral : Bytes) : Prop where
  written : Number.display value =
    (if isNegative value then Bytes.ofString "-" else []) ++ numeral
  isNumeral : IsNumeral numeral
  whole : Binary.IsIntegral value → Chunk.point ∉ numeral
  /-- The numeral is one token, for the magnitude. -/
  scanned : scan numeral =
    ⟨[⟨.number, numeral, some (.number value.abs), 1⟩, .endOfSource 1], []⟩
  /-- As a statement it is one expression, for the double. -/
  evaluated : ∀ nextId, ∃ expression,
    (scan (Number.display value ++ Bytes.ofString ";")).errors = [] ∧
      parse (scan (Number.display value ++ Bytes.ofString ";")).tokens nextId =
        ⟨[.expression expression true], [], nextId⟩ ∧
      ∀ access fuel machine, 2 ≤ fuel →
        Eval.evaluate access fuel expression machine = .ok (.number value) machine
  /-- As the next line of input the numeral is the magnitude. -/
  entered : ∀ (machine : Machine) (remaining : Option Bytes),
    machine.input.pending.splitLine = (numeral, remaining) →
      ∃ input, Eval.callNative .input machine =
          .ok (.number value.abs) { machine with input := input } ∧
        input.pending = remaining.getD []

section

variable {value : Float}

theorem evaluate_literal (access : Access) {fuel : Nat} (positive : 1 ≤ fuel) (number : Float)
    (machine : Machine) :
    Eval.evaluate access fuel (.literal (.number number)) machine = .ok (.number number) machine := by
  obtain ⟨fuel, rfl⟩ := Nat.exists_eq_add_of_le' positive
  unfold Eval.evaluate
  rfl

theorem evaluate_negated (access : Access) {fuel : Nat} (enough : 2 ≤ fuel) (line : Nat)
    (number : Float) (machine : Machine) :
    Eval.evaluate access fuel (.unary .negate line (.literal (.number number))) machine =
      .ok (.number (-number)) machine := by
  obtain ⟨fuel, rfl⟩ := Nat.exists_eq_add_of_le' enough
  have inner := evaluate_literal access (Nat.le_add_left 1 fuel) number machine
  unfold Eval.evaluate
  simp only [Bind.bind, EStateM.bind, inner]
  rfl

/-- The written form of a finite double, as an expression, evaluates to the double. -/
theorem exists_expression_display (finite : value.isFinite = true) (nextId : RefId) :
    ∃ expression,
      (scan (Number.display value ++ Bytes.ofString ";")).errors = [] ∧
        parse (scan (Number.display value ++ Bytes.ofString ";")).tokens nextId =
          ⟨[.expression expression true], [], nextId⟩ ∧
        ∀ access fuel machine, 2 ≤ fuel →
          Eval.evaluate access fuel expression machine = .ok (.number value) machine := by
  have isNumeral := Number.isNumeral_magnitude (rank value)
  have literal := literal?_magnitude (Nat.le_of_lt (Binary.isFinite_iff_rank.mp finite))
  rw [Binary.toFloat_rank finite] at literal
  have cut := chunks_statement isNumeral
  have oneLine : Bytes.lineFeed ∉ Number.magnitude (rank value) ++ [59] := by
    intro member
    rcases List.mem_append.mp member with inside | inside
    · exact isNumeral.not_mem (by decide) (by decide) inside
    · cases List.mem_singleton.mp inside
  rw [Number.display_eq finite]
  by_cases sign : isNegative value = true
  · have source : (if isNegative value then Bytes.ofString "-" else []) ++
        Number.magnitude (rank value) ++ Bytes.ofString ";" =
          45 :: (Number.magnitude (rank value) ++ [59]) := by
      rw [if_pos sign]
      rfl
    have oneLineSigned : Bytes.lineFeed ∉ 45 :: (Number.magnitude (rank value) ++ [59]) := by
      intro member
      rcases List.mem_cons.mp member with same | inside
      · cases same
      · exact oneLine inside
    have scanned := scan_of_one_line oneLineSigned
    simp only [chunks_minus, cut, List.filterMap_cons, List.filterMap_nil, Chunk.token?,
      Chunk.diagnostic?, literal] at scanned
    rw [source, scanned]
    refine ⟨.unary .negate 1 (.literal (.number value.abs)), rfl, rfl, ?_⟩
    intro access fuel machine enough
    rw [evaluate_negated access enough, Binary.neg_abs_of_negative finite sign]
  · have source : (if isNegative value then Bytes.ofString "-" else []) ++
        Number.magnitude (rank value) ++ Bytes.ofString ";" =
          Number.magnitude (rank value) ++ [59] := by
      rw [if_neg sign]
      rfl
    have scanned := scan_of_one_line oneLine
    simp only [cut, List.filterMap_cons, List.filterMap_nil, Chunk.token?,
      Chunk.diagnostic?, literal] at scanned
    rw [source, scanned]
    refine ⟨.literal (.number value.abs), rfl, rfl, ?_⟩
    intro access fuel machine enough
    rw [evaluate_literal access (Nat.le_of_succ_le enough),
      Binary.abs_of_not_negative finite (Bool.not_eq_true _ ▸ sign)]

/-- Every finite double is given back by its written form: digits and perhaps a point behind
the sign, read as the magnitude in source and in input, and as the double by evaluation. -/
theorem exists_readsBack (value : Float) (finite : value.isFinite = true) :
    ∃ numeral, ReadsBack value numeral := by
  have below := Binary.isFinite_iff_rank.mp finite
  have isNumeral := Number.isNumeral_magnitude (rank value)
  have magnitude := Binary.toFloat_rank finite
  refine ⟨Number.magnitude (rank value), Number.display_eq finite, isNumeral,
    fun integral => ?_, ?_, exists_expression_display finite, fun machine remaining split => ?_⟩
  · exact Number.point_not_mem_magnitude (Nat.le_of_lt below)
      (Binary.dvd_significand finite integral)
  · have literal := literal?_magnitude (Nat.le_of_lt below)
    have cut := chunks_of_isNumeral isNumeral Chunk.beginsBlank_nil.endsNumeral
    rw [List.append_nil, chunks] at cut
    rw [magnitude] at literal
    have oneLine : Bytes.lineFeed ∉ Number.magnitude (rank value) :=
      isNumeral.not_mem (by decide) (by decide)
    have scanned := scan_of_one_line oneLine
    simp only [cut, List.filterMap_cons, List.filterMap_nil, Chunk.token?, Chunk.diagnostic?,
      literal] at scanned
    exact scanned
  · obtain ⟨input, read, rest⟩ := Input.readLine?_of_splitLine split isNumeral.ne_nil
    refine ⟨input, ?_, rest⟩
    rw [← magnitude, ← lineValue_magnitude below]
    simp only [Eval.callNative, modifyGet, MonadStateOf.modifyGet, EStateM.modifyGet, read]

/-- Negative zero is written with its sign and without a point, and given back. -/
theorem exists_readsBack_negative_zero :
    (Float.ofBits 0x8000000000000000).isFinite = true ∧
      ∃ numeral, Number.display (Float.ofBits 0x8000000000000000) = Bytes.ofString "-" ++ numeral ∧
        Chunk.point ∉ numeral ∧ ReadsBack (Float.ofBits 0x8000000000000000) numeral := by
  have finite : (Float.ofBits 0x8000000000000000).isFinite = true := by decide +kernel
  have sign : isNegative (Float.ofBits 0x8000000000000000) = true := by decide +kernel
  obtain ⟨numeral, readsBack⟩ := exists_readsBack (Float.ofBits 0x8000000000000000) finite
  have written := readsBack.written
  rw [if_pos sign] at written
  exact ⟨finite, numeral, written, readsBack.whole trivial, readsBack⟩

end

end LoxLang
