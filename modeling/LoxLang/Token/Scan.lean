import LoxLang.Diagnostic
import LoxLang.Token.Chunk

/-!
From chunks to tokens.  Token chunks become tokens, unterminated and stray
chunks become errors, and both carry the line on which their chunk ends.
-/

namespace LoxLang

namespace Chunk

/-- The literal that a token chunk carries: a string without its quotes, or
the nearest double to a numeral. -/
def literal? (kind : Token.Kind) (text : Bytes) : Option Literal :=
  match kind with
  | .string => some (.string (text.drop 1).dropLast)
  | .number => (Number.read? text).map Literal.number
  | _ => none

/-- The token of a chunk that ends on a line. -/
def token? (line : Nat) (chunk : Chunk) : Option Token :=
  match chunk.shape with
  | .token kind => some ⟨kind, chunk.text, literal? kind chunk.text, line⟩
  | _ => none

/-- The error of a chunk that ends on a line. -/
def diagnostic? (line : Nat) (chunk : Chunk) : Option Diagnostic :=
  match chunk.shape with
  | .openString => some ⟨.unterminatedString, line, .unnamed⟩
  | .openComment => some ⟨.unterminatedComment, line, .unnamed⟩
  | .stray => some ⟨.unexpectedCharacter, line, .unnamed⟩
  | _ => none

/-- Pair every chunk with the line on which it ends. -/
def withLines (line : Nat) : List Chunk → List (Nat × Chunk)
  | [] => []
  | chunk :: rest =>
      let last := line + chunk.text.lineFeeds
      (last, chunk) :: withLines last rest

end Chunk

structure Scan where
  tokens : List Token
  errors : List Diagnostic

/-- Scan source text.  The tokens end with one end-of-source token. -/
def scan (source : Bytes) : Scan :=
  let placed := Chunk.withLines 1 (chunks source)
  { tokens := placed.filterMap (fun (line, chunk) => chunk.token? line) ++
      [.endOfSource (1 + source.lineFeeds)]
    errors := placed.filterMap fun (line, chunk) => chunk.diagnostic? line }

end LoxLang
