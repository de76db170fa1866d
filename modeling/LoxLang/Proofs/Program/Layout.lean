import LoxLang.Proofs.Program.Progress
import LoxLang.Proofs.Token.Layout

/-!
Layout and trees.  Parsing treats the lines of tokens as labels, so sources with the same
tokens on other lines are parsed to the same trees on other lines.
-/

namespace LoxLang

open Relabelling (withoutLines)

/-- Trees, errors and identities depend on the lines of tokens only in their own lines. -/
theorem parse_of_withoutLines {tokens others : List Token} (ended : Grammar.EndsOnce tokens)
    (otherEnded : Grammar.EndsOnce others)
    (same : tokens.map withoutLines.token = others.map withoutLines.token) (nextId : RefId) :
    Stmt.relabelAll withoutLines (parse tokens nextId).statements =
        Stmt.relabelAll withoutLines (parse others nextId).statements ∧
      (parse tokens nextId).errors.map withoutLines.diagnostic =
        (parse others nextId).errors.map withoutLines.diagnostic ∧
      (parse tokens nextId).nextId = (parse others nextId).nextId := by
  have first := Parser.indexedParse_eq ended (fun _ => 0) nextId
  have second := Parser.indexedParse_eq otherEnded (fun _ => 0) nextId
  change Indexed.parse (tokens.map withoutLines.token) nextId = _ at first
  change Indexed.parse (others.map withoutLines.token) nextId = _ at second
  rw [← same, first] at second
  obtain ⟨statements, states⟩ := EStateM.Result.ok.inj second
  obtain ⟨-, -, errors, ids⟩ := Indexed.Parser.State.mk.inj states
  exact ⟨statements, errors, ids⟩

/-- The lexemes of a source, written in order with any layout between them, are scanned without
an error to the tokens of the source, and parsed to its trees, on other lines. -/
theorem scan_and_parse_of_relaid {source text : Bytes}
    (laid : LaidOut ((scan source).tokens.dropLast.map Token.lexeme) text) :
    (scan text).errors = [] ∧
      (scan text).tokens.map withoutLines.token = (scan source).tokens.map withoutLines.token ∧
      ∀ nextId,
        Stmt.relabelAll withoutLines (parse (scan text).tokens nextId).statements =
            Stmt.relabelAll withoutLines (parse (scan source).tokens nextId).statements ∧
          (parse (scan text).tokens nextId).errors.map withoutLines.diagnostic =
            (parse (scan source).tokens nextId).errors.map withoutLines.diagnostic ∧
          (parse (scan text).tokens nextId).nextId = (parse (scan source).tokens nextId).nextId :=
  ⟨errors_of_relaid laid, tokens_of_relaid laid, fun nextId =>
    parse_of_withoutLines (endsOnce_scan text) (endsOnce_scan source) (tokens_of_relaid laid)
      nextId⟩

/-- A comment, a byte that starts nothing and a line feed in a string. -/
theorem scan_and_parse_of_relaid_comment :
    let source := Bytes.ofString "print/*1*/\"a\nb\"#;x.y=1.;"
    let text := Bytes.ofString
      "print \n\"a\nb\" \n; \nx \n. \ny \n= \n1 \n. \n;"
    LaidOut ((scan source).tokens.dropLast.map Token.lexeme) text ∧
      (scan source).errors ≠ [] ∧ (scan text).errors = [] ∧
      (scan text).tokens.map withoutLines.token =
        (scan source).tokens.map withoutLines.token := by
  intro source text
  have spelled : [32, Bytes.lineFeed].intercalate
      ((scan source).tokens.dropLast.map Token.lexeme) = text := by decide +kernel
  have gap : IsLayout [32, Bytes.lineFeed] := by simp [IsLayout]
  have laid := laidOut_intercalate (List.cons_ne_nil _ _) gap
    ((scan source).tokens.dropLast.map Token.lexeme)
  rw [spelled] at laid
  have relaid := scan_and_parse_of_relaid laid
  exact ⟨laid, by decide +kernel, relaid.1, relaid.2.1⟩

end LoxLang
