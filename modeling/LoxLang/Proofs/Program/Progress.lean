import LoxLang.Proofs.Program.InStep
import LoxLang.Proofs.Session.Join
import LoxLang.Proofs.Token.Indexed

/-!
Scanning and parsing never leave what they read, and always get to its end.  Reading a
declaration that starts before the end succeeds or recovers at a later position, so the
program is read up to the token that ends the source.
-/

namespace LoxLang

open Grammar (EndsOnce)
open Relabelling (ofLines)

namespace Parser

/-- A declaration is read or given up, and either way some token is passed over. -/
theorem exists_recovering {bound : Nat} {before : State} (notEnd : ahead before.rest ≠ .eof)
    (room : 20 * before.rest.length + 13 ≤ bound) :
    ∃ found after, recovering bound before = .ok found after ∧ Advances before after ∧
      after.rest.length < before.rest.length := by
  have reads : Reads before (recovering bound) 1 _ :=
    (ReadsStatements.all bound).recovering notEnd room
  unfold Reads at reads
  cases result : recovering bound before with
  | ok found after =>
      rw [result] at reads
      exact ⟨found, after, rfl, reads.1, reads.2.1⟩
  | error abort after =>
      rw [result] at reads
      cases abort with
      | bound => exact reads.elim
      | syntaxError =>
          -- Recovery itself gives up nothing.
          obtain ⟨bound, rfl⟩ := Nat.exists_eq_add_of_le' (Nat.le_trans (Nat.le_add_left 1 _) room)
          simp only [recovering] at result
          split at result <;> cases result

/-- A program is read up to the end of its source, whatever its errors. -/
theorem exists_programFrom {bound : Nat} {before : State}
    (room : 20 * before.rest.length + 14 ≤ bound) :
    ∃ statements after, programFrom bound before = .ok statements after ∧
      ahead after.rest = .eof := by
  induction bound generalizing before with
  | zero => exact absurd room (by omega)
  | succ bound inductionHypothesis =>
      have isEnd : atEnd before = .ok (decide (ahead before.rest = .eof)) before := rfl
      simp only [programFrom]
      rw [bind_of_ok _ isEnd]
      by_cases ended : ahead before.rest = .eof
      · exact ⟨[], before, by simp only [ended, decide_true, if_true]; rfl, ended⟩
      · obtain ⟨found, middle, read, -, shorter⟩ :=
          @exists_recovering bound before ended (by omega)
        obtain ⟨others, after, further, isLast⟩ := @inductionHypothesis middle (by omega)
        simp only [ended, decide_false, Bool.false_eq_true, if_false]
        rw [bind_of_ok _ read]
        cases found with
        | none => exact ⟨others, after, further, isLast⟩
        | some first =>
            exact ⟨first :: others, after, by dsimp only; rw [bind_of_ok _ further]; rfl, isLast⟩

/-- Where only the token that ends the source is left, the position is the last. -/
theorem length_of_ahead_eof {tokens : List Token} {state : State} (within : state.Within tokens)
    (isEnd : ahead state.rest = .eof) : state.rest.length = 1 := by
  obtain ⟨token, rest, same⟩ := within.exists_cons
  rw [same, ahead_cons] at isEnd
  have suffix := within.suffix
  rw [same] at suffix ⊢
  cases rest with
  | nil => rfl
  | cons next others => exact absurd isEnd (kind_ne_eof_of_suffix within.ended suffix)

/-- Parsing by position gives the same trees and errors, and ends at the last token. -/
theorem indexedParse_eq {tokens : List Token} (ended : EndsOnce tokens) (lines : Nat → Nat)
    (nextId : RefId) :
    Indexed.parse (tokens.map (ofLines lines).token) nextId =
      .ok (Stmt.relabelAll (ofLines lines) (parse tokens nextId).statements)
        ⟨tokens.map (ofLines lines).token, tokens.length - 1,
          (parse tokens nextId).errors.map (ofLines lines).diagnostic,
          (parse tokens nextId).nextId⟩ := by
  have nonempty : tokens ≠ [] := by
    obtain ⟨body, last, rfl, -, -⟩ := ended
    exact List.concat_ne_nil last body
  have room : 20 * tokens.length + 14 ≤ boundFor tokens := by
    simp only [boundFor]
    omega
  have start : State.indexed tokens lines ⟨tokens, [], nextId⟩ =
      .start (tokens.map (ofLines lines).token) nextId := by
    simp only [State.indexed, Indexed.Parser.State.start, Nat.sub_self, List.map_nil]
  have follows : Follows tokens lines ⟨tokens, [], nextId⟩ _ _ _ :=
    Follows.programFrom (boundFor tokens)
  have ends := follows ⟨ended, nonempty, List.suffix_refl _⟩
  obtain ⟨statements, after, result, isEnd⟩ := @exists_programFrom _ ⟨tokens, [], nextId⟩ room
  have bounds : boundFor (tokens.map (ofLines lines).token) = boundFor tokens := by
    simp only [boundFor, List.length_map]
  rw [Indexed.parse, bounds, ← start]
  simp only [parse, result] at ends ⊢
  generalize Indexed.Parser.programFrom _ _ = indexedResult at ends ⊢
  cases ends with
  | ok within =>
      rw [State.indexed, length_of_ahead_eof within isEnd]

end Parser

namespace Indexed

open LoxLang.Parser (State.indexed State.Within FollowsStatements)

theorem map_token_ofLines (tokens : List Token) :
    tokens.map (ofLines fun line => line).token = tokens :=
  List.map_id tokens

theorem parse_eq {tokens : List Token} (ended : EndsOnce tokens) (nextId : RefId) :
    Indexed.parse tokens nextId =
      .ok (LoxLang.parse tokens nextId).statements
        ⟨tokens, tokens.length - 1, (LoxLang.parse tokens nextId).errors,
          (LoxLang.parse tokens nextId).nextId⟩ := by
  have inStep := LoxLang.Parser.indexedParse_eq ended (fun line => line) nextId
  rw [map_token_ofLines] at inStep
  rw [inStep]
  have statements : Stmt.relabelAll (ofLines fun line => line)
      (LoxLang.parse tokens nextId).statements = (LoxLang.parse tokens nextId).statements :=
    Stmt.relabelAll_eq_self _ fun _ _ => rfl
  have errors : (LoxLang.parse tokens nextId).errors.map (ofLines fun line => line).diagnostic =
      (LoxLang.parse tokens nextId).errors := List.map_id _
  rw [statements, errors]

/-- The parser that has the tokens from a position on before it. -/
def Parser.State.sequential (state : Parser.State) : LoxLang.Parser.State :=
  ⟨state.tokens.drop state.current, state.errors, state.nextId⟩

namespace Parser.State

variable {state : Parser.State}

theorem length_sequential_rest :
    state.sequential.rest.length = state.tokens.length - state.current :=
  List.length_drop

theorem indexed_sequential (inside : state.current ≤ state.tokens.length) :
    state.sequential.indexed state.tokens (fun line => line) = state := by
  have position : state.tokens.length - state.sequential.rest.length = state.current := by
    rw [length_sequential_rest]
    omega
  have unchanged : state.errors.map (ofLines fun line => line).diagnostic = state.errors :=
    List.map_id _
  simp only [State.indexed, map_token_ofLines, position]
  simp only [sequential, unchanged]

theorem within_sequential (ended : EndsOnce state.tokens)
    (inside : state.current < state.tokens.length) :
    state.sequential.Within state.tokens := by
  refine ⟨ended, List.ne_nil_of_length_pos ?_, List.drop_suffix _ _⟩
  rw [length_sequential_rest]
  omega

/-- Only the last token ends the source. -/
theorem ahead_sequential_ne_eof (ended : EndsOnce state.tokens)
    (inside : state.current + 1 < state.tokens.length) :
    LoxLang.Parser.ahead state.sequential.rest ≠ .eof := by
  have within := within_sequential ended (Nat.lt_of_succ_lt inside)
  have left := @length_sequential_rest state
  obtain ⟨token, rest, isAhead⟩ := within.exists_cons
  have suffix := within.suffix
  rw [isAhead] at suffix left ⊢
  cases rest with
  | nil =>
      rw [List.length_singleton] at left
      omega
  | cons next others => exact LoxLang.Parser.kind_ne_eof_of_suffix ended suffix

end Parser.State

/-- Reading a declaration from before the last token ends at a later position, also when it
recovers from a syntax error. -/
theorem exists_recovering {before : Parser.State} (ended : EndsOnce before.tokens)
    (inside : before.current + 1 < before.tokens.length) {bound : Nat}
    (room : 20 * (before.tokens.length - before.current) + 13 ≤ bound) :
    ∃ found after, Parser.recovering bound before = .ok found after ∧
      after.tokens = before.tokens ∧ before.current < after.current ∧
        after.current < before.tokens.length := by
  have within := Parser.State.within_sequential ended (Nat.lt_of_succ_lt inside)
  have notEnd := Parser.State.ahead_sequential_ne_eof ended inside
  have same := @Parser.State.indexed_sequential before (by omega)
  have left := @Parser.State.length_sequential_rest before
  obtain ⟨found, after, result, -, shorter⟩ :=
    @LoxLang.Parser.exists_recovering bound before.sequential notEnd (by rwa [left])
  have statements : FollowsStatements before.tokens (fun line => line) bound := .all bound
  have follows : LoxLang.Parser.Follows before.tokens _ before.sequential _ _ _ :=
    statements.recovering notEnd
  have ends := follows within
  rw [result, same] at ends
  generalize Parser.recovering bound before = indexedResult at ends ⊢
  cases ends with
  | ok inStep =>
      have positive := List.length_pos_iff.mpr inStep.nonempty
      have reached := inStep.length_le
      refine ⟨_, _, rfl, map_token_ofLines before.tokens, ?_, ?_⟩
      · simp only [State.indexed]
        omega
      · simp only [State.indexed]
        omega

end Indexed

/-- No index ever leaves the source in scanning or the list of tokens in parsing, whatever the
source and however malformed the tokens.  Scanning ends with the one token that ends the source,
parsing ends at it, and every declaration moves the position on. -/
theorem scanning_and_parsing_stay_inside :
    (∀ source, Indexed.scan source = some (scan source) ∧ EndsOnce (scan source).tokens) ∧
    ∀ tokens, EndsOnce tokens →
      (∀ nextId, Indexed.parse tokens nextId =
        .ok (parse tokens nextId).statements
          ⟨tokens, tokens.length - 1, (parse tokens nextId).errors,
            (parse tokens nextId).nextId⟩) ∧
      ∀ (before : Indexed.Parser.State) (bound : Nat), before.tokens = tokens →
        before.current + 1 < tokens.length →
        20 * (tokens.length - before.current) + 13 ≤ bound →
          ∃ found after, Indexed.Parser.recovering bound before = .ok found after ∧
            after.tokens = tokens ∧ before.current < after.current ∧
              after.current < tokens.length := by
  refine ⟨fun source => ⟨Indexed.scan_eq source, endsOnce_scan source⟩, fun tokens ended => ?_⟩
  refine ⟨Indexed.parse_eq ended, fun before bound same inside room => ?_⟩
  subst same
  exact Indexed.exists_recovering ended inside room

/-- The tokens of `{ fun } ;`: both errors are found, and reading goes on from the name that is
missing in the block. -/
theorem scanning_and_parsing_stay_inside_malformed :
    let word (kind : Token.Kind) : Token := ⟨kind, [], none, 1⟩
    let tokens := [word .leftBrace, word .funWord, word .rightBrace, word .semicolon, word .eof]
    EndsOnce tokens ∧
      Indexed.parse tokens 0 = .ok [] ⟨tokens, 4,
        [.atToken (word .rightBrace) (.expectedName (.callable .function)),
          .atToken (word .eof) (.expectedCloseBrace .block)], 0⟩ ∧
      ∃ found after, Indexed.Parser.recovering 100 ⟨tokens, 1, [], 0⟩ = .ok found after ∧
        after.tokens = tokens ∧ 1 < after.current ∧ after.current < tokens.length := by
  intro word tokens
  have ended : EndsOnce tokens := ⟨tokens.dropLast, word .eof, rfl, rfl, by decide⟩
  have inside := scanning_and_parsing_stay_inside.2 tokens ended
  exact ⟨ended, inside.1 0, inside.2 ⟨tokens, 1, [], 0⟩ 100 rfl (by decide) (by decide)⟩

/-- Without a token that ends the source, parsing by position does leave the list. -/
example : Indexed.parse [⟨.semicolon, [], none, 1⟩] 0 = .error .outside
    ⟨[⟨.semicolon, [], none, 1⟩], 0, [.atToken ⟨.semicolon, [], none, 1⟩ .expectedExpression], 0⟩ :=
  rfl

end LoxLang
