import LoxLang.Proofs.Program.Soundness
import LoxLang.Program.Printer
import LoxLang.Token.Scan

/-!
Where reading goes on after a syntax error.  Recovery passes over the token at which the error
occurred without looking at it, and from there on stops at the first statement boundary.  So it
stops at the first boundary from the error on exactly if that token starts no statement; a word
that starts one is lost together with the statement.
-/

namespace LoxLang

namespace Parser

/-- The tokens from the first statement boundary on: from a word that starts a statement, from
behind a semicolon, or from the end. -/
def fromBoundary : List Token → List Token
  | [] => []
  | token :: rest =>
      if token.kind = .eof ∨ startsStatement token.kind then
        token :: rest
      else if token.kind = .semicolon then
        rest
      else
        fromBoundary rest

/-- Nothing before the first boundary starts a statement. -/
theorem exists_fromBoundary (tokens : List Token) :
    ∃ discarded, tokens = discarded ++ fromBoundary tokens ∧
      ∀ token ∈ discarded, startsStatement token.kind = false := by
  induction tokens with
  | nil => exact ⟨[], rfl, by simp⟩
  | cons token rest inductionHypothesis =>
      obtain ⟨discarded, same, plain⟩ := inductionHypothesis
      unfold fromBoundary
      split
      · exact ⟨[], rfl, by simp⟩
      · next goesOn =>
          have first : startsStatement token.kind = false :=
            eq_false_of_ne_true fun starts => goesOn (.inr starts)
          split
          · exact ⟨[token], rfl, by simpa using first⟩
          · refine ⟨token :: discarded, by rw [List.cons_append, ← same], ?_⟩
            exact List.forall_mem_cons.mpr ⟨first, plain⟩

theorem length_fromBoundary_le (tokens : List Token) :
    (fromBoundary tokens).length ≤ tokens.length := by
  obtain ⟨discarded, same, -⟩ := exists_fromBoundary tokens
  have length := congrArg List.length same
  rw [List.length_append] at length
  omega

/-- Behind its first token recovery looks for a boundary. -/
theorem synchronize_cons {token : Token} (rest : List Token) (notEnd : token.kind ≠ .eof)
    (further : token.kind ≠ .semicolon) : synchronize (token :: rest) = fromBoundary rest := by
  induction rest generalizing token with
  | nil => simp [synchronize, notEnd, further, fromBoundary]
  | cons next rest inductionHypothesis =>
      rw [synchronize, if_neg notEnd, if_neg further]
      unfold fromBoundary
      cases starts : startsStatement next.kind with
      | true => simp
      | false =>
          by_cases isEnd : next.kind = .eof
          · simp [synchronize, isEnd]
          · by_cases isSemicolon : next.kind = .semicolon
            · simp [synchronize, isSemicolon]
            · simpa [isEnd, isSemicolon] using inductionHypothesis isEnd isSemicolon

theorem synchronize_of_starts {token : Token} (rest : List Token)
    (starts : startsStatement token.kind = true) :
    synchronize (token :: rest) = fromBoundary rest := by
  apply synchronize_cons
  · intro isEnd
    rw [isEnd] at starts
    cases starts
  · intro isSemicolon
    rw [isSemicolon] at starts
    cases starts

theorem synchronize_of_plain {tokens : List Token} (plain : startsStatement (ahead tokens) = false) :
    synchronize tokens = fromBoundary tokens := by
  cases tokens with
  | nil => rfl
  | cons token rest =>
      rw [ahead_cons] at plain
      by_cases isEnd : token.kind = .eof
      · simp [synchronize, fromBoundary, isEnd]
      · by_cases isSemicolon : token.kind = .semicolon
        · simp [synchronize, fromBoundary, isSemicolon, startsStatement]
        · rw [synchronize_cons rest isEnd isSemicolon, fromBoundary,
            if_neg (by simp [isEnd, plain]), if_neg isSemicolon]

/-- After a syntax error reading goes on at the first statement boundary from the error on, and
no word that starts a statement is discarded, exactly if the token at which the error occurred
starts no statement.  If it starts one, reading goes on at the first boundary behind it. -/
theorem recovering_resumes_at_boundary_iff {bound : Nat} {before failed : State}
    (error : declaration bound before = .error .syntaxError failed) :
    ∃ resumed discarded, recovering (bound + 1) before = .ok none resumed ∧
      failed.rest = discarded ++ resumed.rest ∧
      (resumed.rest = fromBoundary failed.rest ↔ startsStatement (ahead failed.rest) = false) ∧
      ((∀ token ∈ discarded, startsStatement token.kind = false) ↔
        startsStatement (ahead failed.rest) = false) ∧
      (startsStatement (ahead failed.rest) = true →
        resumed.rest = fromBoundary failed.rest.tail) := by
  have recovered : recovering (bound + 1) before =
      .ok none { failed with rest := synchronize failed.rest } := by
    simp only [recovering, error]
  cases starts : startsStatement (ahead failed.rest) with
  | false =>
      have resumed := synchronize_of_plain starts
      obtain ⟨discarded, same, plain⟩ := exists_fromBoundary failed.rest
      refine ⟨_, discarded, recovered, ?_, by simp [resumed], by simpa using plain, ?_⟩
      · rw [resumed]
        exact same
      · intro impossible
        cases impossible
  | true =>
      obtain ⟨token, rest, same⟩ : ∃ token rest, failed.rest = token :: rest :=
        List.exists_cons_of_ne_nil fun none_ => by rw [none_] at starts; cases starts
      rw [same, ahead_cons] at starts
      have resumed := synchronize_of_starts rest starts
      obtain ⟨discarded, left, -⟩ := exists_fromBoundary rest
      have shorter : fromBoundary rest ≠ token :: rest := fun whole => by
        have length := length_fromBoundary_le rest
        rw [whole, List.length_cons] at length
        omega
      have atToken : fromBoundary (token :: rest) = token :: rest := if_pos (.inr starts)
      refine ⟨_, token :: discarded, recovered, ?_, ?_, ?_, fun _ => ?_⟩
      · rw [same, resumed, List.cons_append, ← left]
      · simp [same, resumed, atToken, shorter]
      · simp [starts]
      · rw [same, resumed, List.tail_cons]

/-- In `var; print x;` the error occurs at the first semicolon. -/
theorem recovering_resumes_at_boundary_iff_semicolon :
    let word (kind : Token.Kind) (lexeme : String) : Token := ⟨kind, Bytes.ofString lexeme, none, 1⟩
    let tokens := [word .varWord "var", word .semicolon ";", word .printWord "print",
      word .identifier "x", word .semicolon ";", word .eof ""]
    ∃ failed resumed : State, declaration 200 ⟨tokens, [], 0⟩ = .error .syntaxError failed ∧
      ahead failed.rest = .semicolon ∧ recovering 201 ⟨tokens, [], 0⟩ = .ok none resumed ∧
      resumed.rest = fromBoundary failed.rest ∧ ahead resumed.rest = .printWord := by
  intro word tokens
  have error : declaration 200 ⟨tokens, [], 0⟩ = .error .syntaxError
      ⟨tokens.drop 1, [.atToken (word .semicolon ";") .expectedVariableName], 0⟩ := rfl
  obtain ⟨resumed, discarded, recovered, -, atBoundary, -⟩ :=
    recovering_resumes_at_boundary_iff error
  have boundary := atBoundary.mpr rfl
  refine ⟨_, resumed, error, rfl, recovered, boundary, ?_⟩
  rw [boundary]
  rfl

/-- In `print var x; print x;` the error occurs at the second word.  It starts a declaration, so
that it is the first boundary from the error on, but the declaration is lost. -/
theorem recovering_discards_declaration :
    let word (kind : Token.Kind) (lexeme : String) : Token := ⟨kind, Bytes.ofString lexeme, none, 1⟩
    let tokens := [word .printWord "print", word .varWord "var", word .identifier "x",
      word .semicolon ";", word .printWord "print", word .identifier "x", word .semicolon ";",
      word .eof ""]
    (scan (Bytes.ofString "print var x; print x;")).tokens = tokens ∧
    ∃ failed resumed : State, declaration 200 ⟨tokens, [], 0⟩ = .error .syntaxError failed ∧
      failed.rest = tokens.drop 1 ∧ fromBoundary failed.rest = failed.rest ∧
      recovering 201 ⟨tokens, [], 0⟩ = .ok none resumed ∧ resumed.rest = tokens.drop 4 ∧
      resumed.rest ≠ fromBoundary failed.rest ∧
      renderProgram (parse tokens 0).statements = Bytes.ofString "(print x)\n" := by
  intro word tokens
  have lost : tokens.drop 4 ≠ tokens.drop 1 := fun same =>
    absurd (congrArg List.length same) (by decide)
  exact ⟨by decide +kernel, _, _, rfl, rfl, rfl, rfl, rfl, lost, by decide +kernel⟩

end Parser

end LoxLang
