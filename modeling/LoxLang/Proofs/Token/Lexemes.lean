import LoxLang.Token.Scan

/-!
The lexical grammar: what tokens, blanks, comments and unterminated pieces look like, said
without regard to how text is scanned, and what it means to cut text into longest matches.
At most one way of cutting consists of longest matches.
-/

namespace LoxLang

open Chunk (quote slash asterisk point equalSign)

/-- The tokens that are marks. -/
def operators : List (String × Token.Kind) :=
  [("(", .leftParen), (")", .rightParen), ("\x7b", .leftBrace), ("\x7d", .rightBrace),
    (",", .comma), (".", .dot), ("-", .minus), ("+", .plus), (";", .semicolon), ("/", .slash),
    ("*", .star), ("!", .bang), ("!=", .bangEqual), ("=", .equal), ("==", .equalEqual),
    (">", .greater), (">=", .greaterEqual), ("<", .less), ("<=", .lessEqual)]

/-- One digit or more. -/
def IsDigits (text : Bytes) : Prop :=
  text ≠ [] ∧ ∀ byte ∈ text, Bytes.isDigit byte = true

/-- A letter, and letters and digits after it. -/
def IsWord (text : Bytes) : Prop :=
  ∃ first rest, text = first :: rest ∧ Bytes.isLetter first = true ∧
    ∀ byte ∈ rest, Bytes.isWordByte byte = true

/-- The texts of the tokens of a kind. -/
inductive Lexeme : Token.Kind → Bytes → Prop
  | operator {text : String} {kind : Token.Kind} (listed : (text, kind) ∈ operators) :
      Lexeme kind (Bytes.ofString text)
  | whole {digits : Bytes} (isDigits : IsDigits digits) : Lexeme .number digits
  | decimal {digits fraction : Bytes} (isDigits : IsDigits digits)
      (isFraction : IsDigits fraction) : Lexeme .number (digits ++ point :: fraction)
  | string {body : Bytes} (unquoted : quote ∉ body) : Lexeme .string (quote :: body ++ [quote])
  | reserved {text : String} {kind : Token.Kind} (listed : (text, kind) ∈ Token.Kind.reserved) :
      Lexeme kind (Bytes.ofString text)
  | identifier {text : Bytes} (isWord : IsWord text)
      (unreserved : ∀ entry ∈ Token.Kind.reserved, Bytes.ofString entry.1 ≠ text) :
      Lexeme .identifier text

theorem Lexeme.ne_nil {kind : Token.Kind} {text : Bytes} (lexeme : Lexeme kind text) :
    text ≠ [] := by
  have marks : ∀ entry ∈ operators, Bytes.ofString entry.1 ≠ [] := by decide
  have words : ∀ entry ∈ Token.Kind.reserved, Bytes.ofString entry.1 ≠ [] := by decide
  cases lexeme with
  | operator listed => exact marks _ listed
  | whole isDigits => exact isDigits.1
  | decimal _ _ | string _ => simp
  | reserved listed => exact words _ listed
  | identifier isWord _ =>
      obtain ⟨first, rest, rfl, -⟩ := isWord
      exact List.cons_ne_nil first rest

namespace Chunk

/-- The marks that close a block comment. -/
def closing : Bytes := [asterisk, slash]

/-- What a chunk of a shape can be in front of a rest of text. -/
inductive Matches : Shape → Bytes → Bytes → Prop
  | token {kind : Token.Kind} {text rest : Bytes} (lexeme : Lexeme kind text) :
      Matches (.token kind) text rest
  | blank {byte : UInt8} {rest : Bytes}
      (isBlank : byte ∈ [(32 : UInt8), 9, 13, Bytes.lineFeed]) : Matches .blank [byte] rest
  | lineComment {body rest : Bytes} (within : Bytes.lineFeed ∉ body) :
      Matches .comment (slash :: slash :: body) rest
  /-- The comment ends with the first closing marks after its opening ones. -/
  | blockComment {body rest : Bytes} (open_ : ¬ closing <:+: body ++ [asterisk]) :
      Matches .comment (slash :: asterisk :: body ++ closing) rest
  | openString {body : Bytes} (unquoted : quote ∉ body) :
      Matches .openString (quote :: body) []
  | openComment {body : Bytes} (open_ : ¬ closing <:+: body) :
      Matches .openComment (slash :: asterisk :: body) []
  /-- A byte with which nothing else begins. -/
  | stray {byte : UInt8} {rest : Bytes} (unmarked : ∀ entry ∈ operators,
        (Bytes.ofString entry.1).head? ≠ some byte)
      (visible : byte ∉ [(32 : UInt8), 9, 13, Bytes.lineFeed]) (unquoted : byte ≠ quote)
      (noDigit : Bytes.isDigit byte = false) (noLetter : Bytes.isLetter byte = false) :
      Matches .stray [byte] rest

theorem Matches.ne_nil {shape : Shape} {text rest : Bytes} (matched : Matches shape text rest) :
    text ≠ [] := by
  cases matched with
  | token lexeme => exact lexeme.ne_nil
  | blank _ | lineComment _ | blockComment _ | openString _ | openComment _ | stray _ => simp

/-- A chunk is the longest match in front of a rest of text: whatever else matches where it
starts is shorter. -/
structure IsLongest (chunk : Chunk) (rest : Bytes) : Prop where
  matched : Matches chunk.shape chunk.text rest
  longest : ∀ (other : Chunk) (otherRest : Bytes),
    other.text ++ otherRest = chunk.text ++ rest →
      Matches other.shape other.text otherRest →
        other = chunk ∨ other.text.length < chunk.text.length

/-- Chunks cut a text from left to right, without gap or overlap, into longest matches. -/
inductive IsCut : Bytes → List Chunk → Prop
  | done : IsCut [] []
  | next {chunk : Chunk} {rest : Bytes} {others : List Chunk} (longest : chunk.IsLongest rest)
      (cut : IsCut rest others) : IsCut (chunk.text ++ rest) (chunk :: others)

/-- The longest match at a place is unique. -/
theorem IsLongest.unique {chunk other : Chunk} {rest otherRest : Bytes}
    (longest : chunk.IsLongest rest) (otherLongest : other.IsLongest otherRest)
    (same : other.text ++ otherRest = chunk.text ++ rest) : other = chunk := by
  rcases longest.longest other otherRest same otherLongest.matched with equal | shorter
  · exact equal
  · rcases otherLongest.longest chunk rest same.symm longest.matched with equal | longer
    · exact equal.symm
    · exact absurd longer (Nat.lt_asymm shorter)

/-- There is at most one way to cut a text. -/
theorem IsCut.unique {source : Bytes} {chunks others : List Chunk} (cut : IsCut source chunks)
    (otherCut : IsCut source others) : others = chunks := by
  induction cut generalizing others with
  | done =>
      generalize whole : ([] : Bytes) = source at otherCut
      cases otherCut with
      | done => rfl
      | next longest _ =>
          have nothing := (List.append_eq_nil_iff.mp whole.symm).1
          exact absurd nothing longest.matched.ne_nil
  | @next chunk rest _ longest _ inductionHypothesis =>
      generalize whole : chunk.text ++ rest = source at otherCut
      cases otherCut with
      | done =>
          have nothing := (List.append_eq_nil_iff.mp whole).1
          exact absurd nothing longest.matched.ne_nil
      | next otherLongest otherCut =>
          obtain rfl := longest.unique otherLongest whole.symm
          obtain rfl := List.append_cancel_left whole
          rw [inductionHypothesis otherCut]

end Chunk

end LoxLang
