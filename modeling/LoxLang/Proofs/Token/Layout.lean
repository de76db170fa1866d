import LoxLang.Proofs.Token.Placed

/-!
Lexemes with layout between them.  A lexeme is cut before a blank as it is anywhere, so the
lexemes of a text, written in order with blanks between them, are scanned to the same tokens
again, whatever stood between them before.
-/

namespace LoxLang

/-- Trees and tokens without their lines. -/
def Relabelling.withoutLines : Relabelling :=
  ⟨fun id => id, fun _ => 0⟩

/-- Blanks between tokens: spaces, tabs, carriage returns and line feeds. -/
def IsLayout (gap : Bytes) : Prop :=
  ∀ byte ∈ gap, byte ∈ [(32 : UInt8), 9, 13, Bytes.lineFeed]

/-- Lexemes in order, with some layout between each two of them. -/
inductive LaidOut : List Bytes → Bytes → Prop where
  | none : LaidOut [] []
  | last {lexeme : Bytes} : LaidOut [lexeme] lexeme
  | next {lexeme second gap text : Bytes} {others : List Bytes} :
      gap ≠ [] → IsLayout gap → LaidOut (second :: others) text →
        LaidOut (lexeme :: second :: others) (lexeme ++ gap ++ text)

/-- The same layout may stand everywhere. -/
theorem laidOut_intercalate {gap : Bytes} (nonempty : gap ≠ []) (layout : IsLayout gap)
    (lexemes : List Bytes) : LaidOut lexemes (gap.intercalate lexemes) := by
  induction lexemes with
  | nil => exact .none
  | cons lexeme others inductionHypothesis =>
      cases others with
      | nil =>
          rw [List.intercalate_singleton]
          exact .last
      | cons second others =>
          rw [List.intercalate_cons_of_ne_nil (List.cons_ne_nil _ _)]
          exact .next nonempty layout inductionHypothesis

namespace Chunk

/-- A text that is over or goes on with a blank. -/
def BeginsBlank (rest : Bytes) : Prop :=
  ∀ byte ∈ rest.head?, byte ∈ [(32 : UInt8), 9, 13, Bytes.lineFeed]

theorem beginsBlank_nil : BeginsBlank [] := by
  simp [BeginsBlank]

theorem beginsBlank_append {gap : Bytes} (nonempty : gap ≠ []) (layout : IsLayout gap)
    (rest : Bytes) : BeginsBlank (gap ++ rest) := by
  cases gap with
  | nil => exact absurd rfl nonempty
  | cons byte others =>
      intro head member
      obtain rfl : byte = head := by simpa using member
      exact layout byte List.mem_cons_self

/-- What a blank does not go on with. -/
theorem isBlank_stops : ∀ byte ∈ [(32 : UInt8), 9, 13, Bytes.lineFeed],
    Bytes.isDigit byte = false ∧ Bytes.isWordByte byte = false ∧ byte ≠ point ∧
      byte ≠ equalSign ∧ byte ≠ slash ∧ byte ≠ asterisk := by
  decide +kernel

/-- A text that is over or goes on with what belongs to no numeral. -/
def EndsNumeral (rest : Bytes) : Prop :=
  ∀ byte ∈ rest.head?, Bytes.isDigit byte = false ∧ byte ≠ point

theorem BeginsBlank.endsNumeral {rest : Bytes} (blank : BeginsBlank rest) : EndsNumeral rest :=
  fun byte member =>
    have stops := isBlank_stops byte (blank byte member)
    ⟨stops.1, stops.2.2.1⟩

/-- What passes a test is taken whole before a text that does not go on with it. -/
theorem while_of_stops {test : UInt8 → Bool} {body rest : Bytes}
    (passes : ∀ byte ∈ body, test byte = true) (stops : ∀ byte ∈ rest.head?, test byte = false) :
    (body ++ rest).takeWhile test = body ∧ (body ++ rest).dropWhile test = rest := by
  cases rest with
  | nil => simp [List.takeWhile_eq_self_iff.mpr passes, List.dropWhile_eq_nil_iff.mpr passes]
  | cons stop others => exact while_append passes (stops stop rfl) others

/-- Cutting goes by the class of the first byte. -/
theorem cut_eq (first : UInt8) (rest : Bytes) :
    cut first rest = match start first with
      | .single kind => (⟨.token kind, [first]⟩, rest)
      | .paired alone joined =>
          match rest with
          | [] => (⟨.token alone, [first]⟩, [])
          | second :: after =>
              if second = equalSign then (⟨.token joined, [first, second]⟩, after)
              else (⟨.token alone, [first]⟩, rest)
      | .slash => cutSlash rest
      | .blank => (⟨.blank, [first]⟩, rest)
      | .quote => cutString rest
      | .digit => cutNumber (first :: rest)
      | .letter => cutWord (first :: rest)
      | .nothing => (⟨.stray, [first]⟩, rest) := by
  unfold cut start
  cases single? first with
  | some kind => rfl
  | none =>
      cases paired? first with
      | some pair => rfl
      | none =>
          dsimp only
          split_ifs <;> rfl

section Lexeme

variable {first : UInt8} {text rest others : Bytes} {kind : Token.Kind}

theorem cutNumber_of_digits (digits : IsDigits text) (ends : EndsNumeral rest) :
    cutNumber (text ++ rest) = (⟨.token .number, text⟩, rest) := by
  obtain ⟨taken, dropped⟩ := while_of_stops digits.2 fun byte member => (ends byte member).1
  rcases cutNumber_cases (text ++ rest) with ⟨digit, more, after, -, -⟩ | ⟨-, cut⟩
  · rw [dropped] at after
    subst after
    exact absurd rfl (ends point rfl).2
  · rw [cut, taken, dropped]

theorem cutNumber_of_fraction {fraction : Bytes} (digits : IsDigits text)
    (isFraction : IsDigits fraction) (ends : EndsNumeral rest) :
    cutNumber (text ++ point :: fraction ++ rest) =
      (⟨.token .number, text ++ point :: fraction⟩, rest) := by
  obtain ⟨taken, dropped⟩ := @digits_before_point text fraction rest _ digits rfl
  obtain ⟨fractionTaken, fractionDropped⟩ :=
    while_of_stops isFraction.2 fun byte member => (ends byte member).1
  obtain ⟨digit, more, rfl⟩ := List.exists_cons_of_ne_nil isFraction.1
  have isDigit := isFraction.2 digit List.mem_cons_self
  rw [List.cons_append] at fractionTaken fractionDropped dropped
  rcases cutNumber_cases (text ++ point :: digit :: more ++ rest) with
    ⟨next, after, same, -, cut⟩ | ⟨noFraction, -⟩
  · obtain ⟨-, same⟩ := List.cons.inj (same.symm.trans dropped)
    rw [cut, taken, same, fractionTaken, fractionDropped]
  · rw [noFraction digit (more ++ rest) dropped] at isDigit
    cases isDigit

theorem cutSlash_of_beginsBlank (blank : BeginsBlank rest) :
    cutSlash rest = (⟨.token .slash, [slash]⟩, rest) := by
  cases rest with
  | nil => rfl
  | cons byte others =>
      obtain ⟨-, -, -, -, notSlash, notStar⟩ := isBlank_stops byte (blank byte rfl)
      simp only [cutSlash, if_neg notSlash, if_neg notStar]

theorem cutString_of_unquoted {body : Bytes} (unquoted : quote ∉ body) (rest : Bytes) :
    cutString (body ++ quote :: rest) = (⟨.token .string, quote :: body ++ [quote]⟩, rest) := by
  have passes : ∀ byte ∈ body, (byte != quote) = true := fun byte member => by
    rw [bne_iff_ne]
    rintro rfl
    exact unquoted member
  have stops : (quote != quote) = false := by decide
  obtain ⟨taken, dropped⟩ := while_append passes stops rest
  simp only [cutString, taken, dropped]

theorem cutWord_of_beginsBlank (isWord : IsWord text) (blank : BeginsBlank rest) :
    cutWord (text ++ rest) = (⟨.token (.ofWord text), text⟩, rest) := by
  obtain ⟨taken, dropped⟩ := while_of_stops (IsWord.passes isWord)
    fun byte member => (isBlank_stops byte (blank byte member)).2.1
  simp only [cutWord, taken, dropped]

/-- A lexeme is cut whole, and nothing more, where it is over or a blank follows it. -/
theorem cut_of_lexeme (lexeme : Lexeme kind text) (blank : BeginsBlank rest)
    (whole : text ++ rest = first :: others) :
    cut first others = (⟨.token kind, text⟩, rest) := by
  have form := form_of_lexeme lexeme whole
  rw [cut_eq]
  generalize same : start first = class_ at form ⊢
  cases form with
  | single =>
      obtain ⟨-, rfl⟩ := List.cons.inj whole
      rfl
  | alone =>
      obtain ⟨-, rfl⟩ := List.cons.inj whole
      cases rest with
      | nil => rfl
      | cons byte more => exact if_neg (isBlank_stops byte (blank byte rfl)).2.2.2.1
  | joined =>
      obtain ⟨-, rfl⟩ := List.cons.inj whole
      exact if_pos rfl
  | slash =>
      obtain rfl := start_eq_slash_iff.mp same
      obtain ⟨-, rfl⟩ := List.cons.inj whole
      exact cutSlash_of_beginsBlank blank
  | @string body _ unquoted =>
      obtain rfl := start_eq_quote_iff.mp same
      have spelled : body ++ quote :: rest = others := by simpa using whole
      rw [← spelled]
      exact cutString_of_unquoted unquoted rest
  | whole isDigits =>
      rw [← whole]
      exact cutNumber_of_digits isDigits blank.endsNumeral
  | decimal isDigits isFraction =>
      rw [← whole]
      exact cutNumber_of_fraction isDigits isFraction blank.endsNumeral
  | word isWord =>
      rw [← whole]
      exact cutWord_of_beginsBlank isWord blank

theorem chunks_of_lexeme (lexeme : Lexeme kind text) (blank : BeginsBlank rest) :
    chunks (text ++ rest) = ⟨.token kind, text⟩ :: chunks rest := by
  obtain ⟨first, others, rfl⟩ := List.exists_cons_of_ne_nil lexeme.ne_nil
  rw [List.cons_append, chunks, cut_of_lexeme lexeme blank List.cons_append]

end Lexeme

theorem chunks_of_layout {gap : Bytes} (layout : IsLayout gap) (rest : Bytes) :
    chunks (gap ++ rest) = gap.map (fun byte => ⟨.blank, [byte]⟩) ++ chunks rest := by
  induction gap with
  | nil => rfl
  | cons byte others inductionHypothesis =>
      have isBlank := start_eq_blank_iff.mpr (layout byte List.mem_cons_self)
      have further := inductionHypothesis fun other member =>
        layout other (List.mem_cons_of_mem _ member)
      rw [List.cons_append, chunks, cut_eq, isBlank]
      exact congrArg _ further

theorem filter_blanks (gap : Bytes) :
    (gap.map fun byte => (⟨.blank, [byte]⟩ : Chunk)).filter (·.shape != .blank) = [] := by
  rw [List.filter_eq_nil_iff]
  intro chunk member
  obtain ⟨byte, -, rfl⟩ := List.mem_map.mp member
  simp

/-- The chunk of a token. -/
def IsLexeme (chunk : Chunk) : Prop :=
  ∃ kind, chunk.shape = .token kind ∧ Lexeme kind chunk.text

/-- Lexemes laid out are cut into themselves and blanks. -/
theorem chunks_of_laidOut {words : List Chunk} {text : Bytes}
    (laid : LaidOut (words.map Chunk.text) text) (lexemes : ∀ word ∈ words, word.IsLexeme) :
    (chunks text).filter (·.shape != .blank) = words := by
  generalize same : words.map Chunk.text = texts at laid
  induction laid generalizing words with
  | none =>
      rw [List.map_eq_nil_iff.mp same, chunks, List.filter_nil]
  | last =>
      obtain ⟨⟨shape, _⟩, rfl, rfl⟩ := List.map_eq_singleton_iff.mp same
      obtain ⟨kind, rfl, lexeme⟩ := lexemes _ List.mem_cons_self
      have cut := chunks_of_lexeme lexeme beginsBlank_nil
      rw [List.append_nil] at cut
      rw [cut, chunks]
      rfl
  | next nonempty layout laid inductionHypothesis =>
      obtain ⟨⟨shape, _⟩, others, rfl, rfl, rest⟩ := List.map_eq_cons_iff.mp same
      obtain ⟨⟨kind, rfl, lexeme⟩, otherLexemes⟩ := List.forall_mem_cons.mp lexemes
      rw [List.append_assoc, chunks_of_lexeme lexeme (beginsBlank_append nonempty layout _),
        chunks_of_layout layout, List.filter_cons_of_pos (by simp), List.filter_append,
        filter_blanks, List.nil_append, inductionHypothesis otherLexemes rest]

/-- The chunks of tokens among others. -/
def lexemesOf (cut : List Chunk) : List Chunk :=
  cut.filter (·.shape.kind?.isSome)

theorem isLexeme_of_mem_lexemesOf {source : Bytes} {word : Chunk}
    (member : word ∈ lexemesOf (chunks source)) : word.IsLexeme := by
  obtain ⟨inSource, isToken⟩ := List.mem_filter.mp member
  obtain ⟨rest, matched⟩ := (isCut_chunks source).matches_of_mem inSource
  obtain ⟨shape, text⟩ := word
  cases matched with
  | @token kind _ _ lexeme => exact ⟨kind, rfl, lexeme⟩
  | blank _ | lineComment _ | blockComment _ | openString _ | openComment _ | stray _ =>
      cases isToken

/-- Lines apart, the tokens of chunks are those of the token chunks among them. -/
theorem tokens_withoutLines (line : Nat) (cut : List Chunk) :
    ((withLines line cut).filterMap fun (last, chunk) => chunk.token? last).map
        Relabelling.withoutLines.token =
      (lexemesOf cut).filterMap (token? 0) := by
  induction cut generalizing line with
  | nil => rfl
  | cons chunk rest inductionHypothesis =>
      obtain ⟨shape, text⟩ := chunk
      cases shape with
      | token kind => exact congrArg (List.cons _) (inductionHypothesis _)
      | blank | comment | openString | openComment | stray => exact inductionHypothesis _

theorem lexemes_eq (line : Nat) (cut : List Chunk) :
    ((withLines line cut).filterMap fun (last, chunk) => chunk.token? last).map Token.lexeme =
      (lexemesOf cut).map Chunk.text := by
  induction cut generalizing line with
  | nil => rfl
  | cons chunk rest inductionHypothesis =>
      obtain ⟨shape, text⟩ := chunk
      cases shape with
      | token kind => exact congrArg (List.cons _) (inductionHypothesis _)
      | blank | comment | openString | openComment | stray => exact inductionHypothesis _

end Chunk

section Scan

variable {source text : Bytes}

theorem tokens_scan_withoutLines (source : Bytes) :
    (scan source).tokens.map Relabelling.withoutLines.token =
      (Chunk.lexemesOf (chunks source)).filterMap (Chunk.token? 0) ++ [.endOfSource 0] := by
  rw [tokens_scan, tokensWithin, List.map_append, Chunk.tokens_withoutLines]
  rfl

/-- The lexemes of a text, laid out anew, are cut into the chunks that they were. -/
theorem chunks_of_relaid (laid : LaidOut ((scan source).tokens.dropLast.map Token.lexeme) text) :
    (chunks text).filter (·.shape != .blank) = Chunk.lexemesOf (chunks source) := by
  rw [tokens_scan, List.dropLast_concat, tokensWithin, Chunk.lexemes_eq] at laid
  exact Chunk.chunks_of_laidOut laid fun word member => Chunk.isLexeme_of_mem_lexemesOf member

theorem blank_or_isLexeme (laid : LaidOut ((scan source).tokens.dropLast.map Token.lexeme) text)
    {chunk : Chunk} (member : chunk ∈ chunks text) : chunk.shape = .blank ∨ chunk.IsLexeme := by
  by_cases blank : chunk.shape = .blank
  · exact .inl blank
  · right
    refine @Chunk.isLexeme_of_mem_lexemesOf source _ ?_
    rw [← chunks_of_relaid laid]
    exact List.mem_filter.mpr ⟨member, by simpa using blank⟩

theorem tokens_of_relaid (laid : LaidOut ((scan source).tokens.dropLast.map Token.lexeme) text) :
    (scan text).tokens.map Relabelling.withoutLines.token =
      (scan source).tokens.map Relabelling.withoutLines.token := by
  have same : Chunk.lexemesOf (chunks text) = Chunk.lexemesOf (chunks source) := by
    rw [← chunks_of_relaid laid]
    refine List.filter_congr fun chunk member => ?_
    rcases blank_or_isLexeme laid member with blank | ⟨kind, shape, -⟩
    · rw [blank]
      rfl
    · rw [shape]
      rfl
  rw [tokens_scan_withoutLines, tokens_scan_withoutLines, same]

theorem errors_of_relaid (laid : LaidOut ((scan source).tokens.dropLast.map Token.lexeme) text) :
    (scan text).errors = [] := by
  refine List.filterMap_eq_nil_iff.mpr fun ⟨line, chunk⟩ placed => ?_
  have inText := Chunk.mem_of_mem_withLines placed
  refine (Chunk.diagnostic?_eq line chunk).trans ?_
  rcases blank_or_isLexeme laid inText with blank | ⟨kind, shape, -⟩
  · rw [blank]
    rfl
  · rw [shape]
    rfl

end Scan

end LoxLang
