import LoxLang.Proofs.Program.Numbering
import LoxLang.Token.Scan

/-!
Identifier tokens.  Only a whole word that is not reserved becomes an identifier,
so no identifier spells a receiver or a superclass.
-/

namespace LoxLang

open Scope

namespace Chunk

theorem single?_ne_identifier (byte : UInt8) : single? byte ≠ some .identifier := by
  unfold single?
  split <;> simp

theorem paired?_ne_identifier {byte : UInt8} {alone joined : Token.Kind}
    (found : paired? byte = some (alone, joined)) :
    alone ≠ .identifier ∧ joined ≠ .identifier := by
  unfold paired? at found
  split at found <;> cases found <;> decide

theorem cutSlash_shape_ne (rest : Bytes) : (cutSlash rest).1.shape ≠ .token .identifier := by
  unfold cutSlash
  repeat' split
  all_goals simp

theorem cutString_shape_ne (rest : Bytes) : (cutString rest).1.shape ≠ .token .identifier := by
  unfold cutString
  dsimp only
  split <;> simp

theorem cutNumber_shape_ne (text : Bytes) : (cutNumber text).1.shape ≠ .token .identifier := by
  unfold cutNumber
  dsimp only
  repeat' split
  all_goals simp

/-- An identifier is a word that is not reserved. -/
theorem ofWord_of_cut {first : UInt8} {rest : Bytes}
    (isName : (cut first rest).1.shape = .token .identifier) :
    Token.Kind.ofWord (cut first rest).1.text = .identifier := by
  unfold cut at isName ⊢
  split at isName
  · next kind found =>
      obtain rfl := Shape.token.inj isName
      exact absurd found (single?_ne_identifier first)
  · next alone joined _ found =>
      obtain ⟨notAlone, notJoined⟩ := paired?_ne_identifier found
      split at isName
      · exact absurd (Shape.token.inj isName) notAlone
      · split at isName
        · exact absurd (Shape.token.inj isName) notJoined
        · exact absurd (Shape.token.inj isName) notAlone
  · split at isName
    · exact absurd isName (cutSlash_shape_ne rest)
    · split at isName
      · cases isName
      · split at isName
        · exact absurd isName (cutString_shape_ne rest)
        · split at isName
          · exact absurd isName (cutNumber_shape_ne _)
          · split at isName
            · next notSlash notBlank notQuote notDigit letter =>
                simp only [notSlash, notBlank, notQuote, notDigit, letter, if_true, if_false]
                exact Shape.token.inj isName
            · cases isName

theorem ofWord_of_mem_chunks {source : Bytes} {chunk : Chunk} (member : chunk ∈ chunks source)
    (isName : chunk.shape = .token .identifier) :
    Token.Kind.ofWord chunk.text = .identifier := by
  fun_induction chunks source with
  | case1 => cases member
  | case2 first rest inductionHypothesis =>
      rcases List.mem_cons.mp member with rfl | inRest
      · exact ofWord_of_cut isName
      · exact inductionHypothesis inRest

theorem mem_of_mem_withLines {line : Nat} {placed : List Chunk} {entry : Nat × Chunk}
    (member : entry ∈ withLines line placed) : entry.2 ∈ placed := by
  induction placed generalizing line with
  | nil => cases member
  | cons chunk rest inductionHypothesis =>
      rcases List.mem_cons.mp member with rfl | inRest
      · exact List.mem_cons_self
      · exact List.mem_cons_of_mem _ (inductionHypothesis inRest)

end Chunk

theorem isOrdinary_of_ofWord {text : Bytes} (isName : Token.Kind.ofWord text = .identifier) :
    IsOrdinary text := by
  constructor
  · rintro rfl
    exact absurd isName (by decide)
  · rintro rfl
    exact absurd isName (by decide)

/-- Scanned identifiers spell ordinary names. -/
theorem named_scan (source : Bytes) : Grammar.Named (scan source).tokens := by
  intro token member isName
  rcases List.mem_append.mp member with inChunks | isEnd
  · obtain ⟨⟨line, chunk⟩, placed, found⟩ := List.mem_filterMap.mp inChunks
    have inSource := Chunk.mem_of_mem_withLines placed
    dsimp only at inSource found
    unfold Chunk.token? at found
    split at found
    · next kind shape =>
        obtain rfl := Option.some.inj found
        obtain rfl : kind = .identifier := isName
        exact isOrdinary_of_ofWord (Chunk.ofWord_of_mem_chunks inSource shape)
    · cases found
  · obtain rfl := List.mem_singleton.mp isEnd
    cases isName

end LoxLang
