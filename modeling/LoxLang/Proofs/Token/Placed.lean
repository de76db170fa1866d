import LoxLang.Proofs.Token.Longest

/-!
Scanning by the lexical grammar.  Tokens and errors are those of the one way to cut source
into longest matches, in its order, each on the line on which its chunk ends.
-/

namespace LoxLang

namespace Chunk

/-- What a chunk of a shape is reported for. -/
def Shape.cause? : Shape → Option Diagnostic.Cause
  | .openString => some .unterminatedString
  | .openComment => some .unterminatedComment
  | .stray => some .unexpectedCharacter
  | .token _ | .blank | .comment => none

/-- The kind of token that a chunk of a shape is. -/
def Shape.kind? : Shape → Option Token.Kind
  | .token kind => some kind
  | _ => none

theorem token?_eq (line : Nat) (chunk : Chunk) :
    chunk.token? line = chunk.shape.kind?.map fun kind =>
      ⟨kind, chunk.text, literal? kind chunk.text, line⟩ := by
  unfold token? Shape.kind?
  cases chunk.shape <;> rfl

theorem diagnostic?_eq (line : Nat) (chunk : Chunk) :
    chunk.diagnostic? line = chunk.shape.cause?.map fun cause => ⟨cause, line, .unnamed⟩ := by
  unfold diagnostic? Shape.cause?
  cases chunk.shape <;> rfl

/-- The line on which the chunk at an index ends. -/
def lastLine (cut : List Chunk) (index : Nat) : Nat :=
  1 + Bytes.lineFeeds ((cut.take (index + 1)).flatMap text)

theorem getElem?_withLines (line index : Nat) (cut : List Chunk) :
    (withLines line cut)[index]? = cut[index]?.map fun chunk =>
      (line + Bytes.lineFeeds ((cut.take (index + 1)).flatMap text), chunk) := by
  induction cut generalizing line index with
  | nil => rfl
  | cons first rest inductionHypothesis =>
      cases index with
      | zero => simp [withLines]
      | succ index =>
          simp only [withLines, List.getElem?_cons_succ, inductionHypothesis, List.take_succ_cons,
            List.flatMap_cons, Bytes.lineFeeds, List.count_append, Nat.add_assoc]

theorem withLines_eq (cut : List Chunk) :
    withLines 1 cut = cut.zipIdx.map fun (chunk, index) => (lastLine cut index, chunk) := by
  apply List.ext_getElem?
  intro index
  rw [getElem?_withLines, List.getElem?_map, List.getElem?_zipIdx, Option.map_map]
  simp [Function.comp_def, lastLine]

/-- A token has the kind of a reserved word exactly if it is the whole word. -/
theorem kind_eq_reserved_iff {kind : Token.Kind} {text : Bytes} (lexeme : Lexeme kind text)
    {entry : String × Token.Kind} (member : entry ∈ Token.Kind.reserved) :
    kind = entry.2 ↔ text = Bytes.ofString entry.1 := by
  have marks : ∀ mark ∈ operators, ∀ entry ∈ Token.Kind.reserved, mark.2 ≠ entry.2 := by decide
  have once : ∀ first ∈ Token.Kind.reserved, ∀ second ∈ Token.Kind.reserved,
      first.2 = second.2 → first.1 = second.1 := by decide
  have others : ∀ entry ∈ Token.Kind.reserved,
      entry.2 ≠ .number ∧ entry.2 ≠ .string ∧ entry.2 ≠ .identifier := by decide
  obtain ⟨notNumber, notString, notIdentifier⟩ := others entry member
  constructor
  · intro same
    cases lexeme with
    | operator listed => exact absurd same (marks _ listed entry member)
    | whole _ | decimal _ _ => exact absurd same.symm notNumber
    | string _ => exact absurd same.symm notString
    | reserved listed => exact congrArg Bytes.ofString (once _ listed entry member same)
    | identifier _ _ => exact absurd same.symm notIdentifier
  · rintro rfl
    obtain ⟨first, rest, spelled, letter, -⟩ := isWord_reserved entry member
    have whole : Bytes.ofString entry.1 ++ [] = first :: rest := by
      rw [List.append_nil, spelled]
    have form := form_of_lexeme lexeme whole
    rw [start_eq_letter_iff.mpr letter] at form
    cases form
    exact ofWord_reserved entry member

/-- The literal of a string token is its text without the quotes. -/
theorem literal?_of_string {text : Bytes} (lexeme : Lexeme .string text) :
    ∃ body, text = quote :: body ++ [quote] ∧ literal? .string text = some (.string body) := by
  have marks : ∀ mark ∈ operators, mark.2 ≠ .string := by decide
  have words : ∀ entry ∈ Token.Kind.reserved, entry.2 ≠ .string := by decide
  cases lexeme with
  | operator listed => exact absurd rfl (marks _ listed)
  | @string body _ => exact ⟨body, rfl, by simp [literal?]⟩
  | reserved listed => exact absurd rfl (words _ listed)

/-- Every chunk of a cut matches its shape. -/
theorem IsCut.matches_of_mem {source : Bytes} {cut : List Chunk} (isCut : IsCut source cut)
    {chunk : Chunk} (member : chunk ∈ cut) : ∃ rest, Matches chunk.shape chunk.text rest := by
  induction isCut with
  | done => cases member
  | @next first rest others longest _ inductionHypothesis =>
      rcases List.mem_cons.mp member with rfl | inRest
      · exact ⟨rest, longest.matched⟩
      · exact inductionHypothesis inRest

end Chunk

/-- A token is that of a chunk, or ends the source. -/
theorem lexeme_of_mem_scan {source : Bytes} {token : Token}
    (member : token ∈ (scan source).tokens) :
    (Lexeme token.kind token.lexeme ∧ token.literal = Chunk.literal? token.kind token.lexeme) ∨
      token = .endOfSource (1 + source.lineFeeds) := by
  rcases List.mem_append.mp member with inChunks | isEnd
  · left
    obtain ⟨⟨line, chunk⟩, placed, found⟩ := List.mem_filterMap.mp inChunks
    obtain ⟨rest, matched⟩ :=
      (Chunk.isCut_chunks source).matches_of_mem (Chunk.mem_of_mem_withLines placed)
    dsimp only [Chunk.token?] at found
    split at found
    · next kind shape =>
        obtain rfl := Option.some.inj found
        rw [shape] at matched
        cases matched with
        | token lexeme => exact ⟨lexeme, rfl⟩
    · cases found
  · exact .inr (List.mem_singleton.mp isEnd)

/-- Scanning is the cutting of source into longest matches, which is possible in one way.
Its tokens are the token chunks in order and one that ends the source, its errors one for
each unterminated chunk and for each byte that begins nothing, all on the lines on which the
chunks end.  The kind of a token is that of a reserved word exactly if it is the whole word,
and the literal of a string is what stands between its quotes. -/
theorem scan_longest_match (source : Bytes) :
    ∃ cut : List Chunk, Chunk.IsCut source cut ∧
      (∀ other, Chunk.IsCut source other → other = cut) ∧
      (scan source).tokens =
        (cut.zipIdx.filterMap fun (chunk, index) => chunk.shape.kind?.map fun kind =>
          ⟨kind, chunk.text, Chunk.literal? kind chunk.text, Chunk.lastLine cut index⟩) ++
          [⟨.eof, [], none, 1 + source.lineFeeds⟩] ∧
      (scan source).errors =
        (cut.zipIdx.filterMap fun (chunk, index) => chunk.shape.cause?.map fun cause =>
          ⟨cause, Chunk.lastLine cut index, .unnamed⟩) ∧
      (∀ token ∈ (scan source).tokens, ∀ entry ∈ Token.Kind.reserved,
        token.kind = entry.2 ↔ token.lexeme = Bytes.ofString entry.1) ∧
      ∀ token ∈ (scan source).tokens, token.kind = .string →
        ∃ body, token.lexeme = Chunk.quote :: body ++ [Chunk.quote] ∧
          token.literal = some (.string body) := by
  have isCut := Chunk.isCut_chunks source
  refine ⟨chunks source, isCut, fun other otherCut => isCut.unique otherCut, ?_, ?_,
    fun token member entry listed => ?_, fun token member isString => ?_⟩
  · rw [tokens_scan, tokensWithin, Chunk.withLines_eq, List.filterMap_map]
    simp only [Function.comp_def, Chunk.token?_eq]
    rfl
  · simp only [scan, Chunk.withLines_eq, List.filterMap_map, Function.comp_def,
      Chunk.diagnostic?_eq]
  · rcases lexeme_of_mem_scan member with ⟨lexeme, -⟩ | rfl
    · exact Chunk.kind_eq_reserved_iff lexeme listed
    · have other : ∀ entry ∈ Token.Kind.reserved,
          .eof ≠ entry.2 ∧ [] ≠ Bytes.ofString entry.1 := by decide
      exact ⟨fun same => absurd same (other entry listed).1,
        fun same => absurd same (other entry listed).2⟩
  · rcases lexeme_of_mem_scan member with ⟨lexeme, literal⟩ | rfl
    · rw [isString] at lexeme literal
      obtain ⟨body, spelled, found⟩ := Chunk.literal?_of_string lexeme
      exact ⟨body, spelled, literal.trans found⟩
    · cases isString

/-- A string over two lines between a word that only begins like a reserved one and a
comment without an end. -/
theorem scan_longest_match_open :
    let source := Bytes.ofString "fort \"a\nb\"/*/"
    let string : Token := ⟨.string, Bytes.ofString "\"a\nb\"",
      some (.string (Bytes.ofString "a\nb")), 2⟩
    string ∈ (scan source).tokens ∧
      (∃ body, string.lexeme = Chunk.quote :: body ++ [Chunk.quote] ∧
        string.literal = some (.string body)) ∧
      (∃ word ∈ (scan source).tokens, word.lexeme = Bytes.ofString "fort" ∧
        word.kind ≠ .forWord) ∧
      (scan source).errors = [⟨.unterminatedComment, 2, .unnamed⟩] := by
  intro source string
  obtain ⟨-, -, -, -, -, words, strings⟩ := scan_longest_match source
  have member : string ∈ (scan source).tokens := by decide +kernel
  have word : ⟨.identifier, Bytes.ofString "fort", none, 1⟩ ∈ (scan source).tokens := by
    decide +kernel
  have reserved : ("for", Token.Kind.forWord) ∈ Token.Kind.reserved := by decide
  refine ⟨member, strings string member rfl, ⟨_, word, rfl, fun same => ?_⟩, by decide +kernel⟩
  have spelled := (words _ word _ reserved).mp same
  exact absurd spelled (by decide)

end LoxLang
