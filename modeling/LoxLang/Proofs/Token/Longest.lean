import Mathlib.Data.List.TakeWhile
import LoxLang.Proofs.Token.Join
import LoxLang.Proofs.Token.Lexemes

/-!
Scanning finds the longest matches.  The first byte of a chunk tells which forms can match
there, and cutting takes the longest of them.
-/

namespace LoxLang

namespace Chunk

/-- What can begin with a byte. -/
inductive Start where
  | single (kind : Token.Kind)
  | paired (alone joined : Token.Kind)
  | slash | blank | quote | digit | letter | nothing
deriving DecidableEq

def start (byte : UInt8) : Start :=
  match single? byte, paired? byte with
  | some kind, _ => .single kind
  | none, some (alone, joined) => .paired alone joined
  | none, none =>
      if byte = slash then .slash
      else if isBlank byte then .blank
      else if byte = quote then .quote
      else if Bytes.isDigit byte then .digit
      else if Bytes.isLetter byte then .letter
      else .nothing

/-- The marks that begin with a byte. -/
def Start.marks (byte : UInt8) : Start → List (Bytes × Token.Kind)
  | .single kind => [([byte], kind)]
  | .paired alone joined => [([byte], alone), ([byte, equalSign], joined)]
  | .slash => [([byte], .slash)]
  | _ => []

theorem forall_byte {holds : UInt8 → Prop} (each : ∀ number : Fin 256, holds (.ofFin number))
    (byte : UInt8) : holds byte :=
  each byte.toFin

theorem mem_marks_of_operators : ∀ entry ∈ operators, ∀ byte,
    (Bytes.ofString entry.1).head? = some byte →
      (Bytes.ofString entry.1, entry.2) ∈ (start byte).marks byte := by
  have each : ∀ entry ∈ operators, (Bytes.ofString entry.1).head?.all fun byte =>
      ((start byte).marks byte).contains (Bytes.ofString entry.1, entry.2) := by
    decide
  intro entry member byte first
  simpa [first] using each entry member

theorem operators_of_mem_marks : ∀ byte, ∀ mark ∈ (start byte).marks byte,
    ∃ entry ∈ operators, (Bytes.ofString entry.1, entry.2) = mark := by
  apply forall_byte
  decide +kernel

/-- The class of a byte, as cutting tells it. -/
theorem start_iff : ∀ byte : UInt8,
    (start byte = .slash ↔ byte = slash) ∧
    (start byte = .blank ↔ byte ∈ [(32 : UInt8), 9, 13, Bytes.lineFeed]) ∧
    (start byte = .quote ↔ byte = quote) ∧
    (start byte = .digit ↔ Bytes.isDigit byte = true) ∧
    (start byte = .letter ↔ Bytes.isLetter byte = true) := by
  apply forall_byte
  decide +kernel

theorem start_eq_nothing_iff : ∀ byte : UInt8, start byte = .nothing ↔
    (∀ entry ∈ operators, (Bytes.ofString entry.1).head? ≠ some byte) ∧
      byte ∉ [(32 : UInt8), 9, 13, Bytes.lineFeed] ∧ byte ≠ quote ∧
        Bytes.isDigit byte = false ∧ Bytes.isLetter byte = false := by
  apply forall_byte
  decide +kernel

/-- The matches by what begins with their first byte. -/
inductive Form (first : UInt8) : Start → Shape → Bytes → Bytes → Prop
  | single {kind : Token.Kind} {rest : Bytes} :
      Form first (.single kind) (.token kind) [first] rest
  | alone {alone joined : Token.Kind} {rest : Bytes} :
      Form first (.paired alone joined) (.token alone) [first] rest
  | joined {alone joined : Token.Kind} {rest : Bytes} :
      Form first (.paired alone joined) (.token joined) [first, equalSign] rest
  | slash {rest : Bytes} : Form first .slash (.token .slash) [first] rest
  | lineComment {body rest : Bytes} (within : Bytes.lineFeed ∉ body) :
      Form first .slash .comment (first :: Chunk.slash :: body) rest
  | blockComment {body rest : Bytes} (open_ : ¬ closing <:+: body ++ [asterisk]) :
      Form first .slash .comment (first :: asterisk :: body ++ closing) rest
  | openComment {body : Bytes} (open_ : ¬ closing <:+: body) :
      Form first .slash .openComment (first :: asterisk :: body) []
  | blank {rest : Bytes} : Form first .blank .blank [first] rest
  | string {body rest : Bytes} (unquoted : Chunk.quote ∉ body) :
      Form first .quote (.token .string) (first :: body ++ [Chunk.quote]) rest
  | openString {body : Bytes} (unquoted : Chunk.quote ∉ body) :
      Form first .quote .openString (first :: body) []
  | whole {digits rest : Bytes} (isDigits : IsDigits digits) :
      Form first .digit (.token .number) digits rest
  | decimal {digits fraction rest : Bytes} (isDigits : IsDigits digits)
      (isFraction : IsDigits fraction) :
      Form first .digit (.token .number) (digits ++ point :: fraction) rest
  | word {text rest : Bytes} (isWord : IsWord text) :
      Form first .letter (.token (.ofWord text)) text rest
  | stray {rest : Bytes} : Form first .nothing .stray [first] rest

theorem ofWord_reserved : ∀ entry ∈ Token.Kind.reserved,
    Token.Kind.ofWord (Bytes.ofString entry.1) = entry.2 := by
  decide

theorem isWord_reserved : ∀ entry ∈ Token.Kind.reserved, IsWord (Bytes.ofString entry.1) := by
  have each : ∀ entry ∈ Token.Kind.reserved,
      (Bytes.ofString entry.1).head?.any Bytes.isLetter = true ∧
        (Bytes.ofString entry.1).tail.all Bytes.isWordByte = true := by
    decide
  intro entry member
  obtain ⟨letter, others⟩ := each entry member
  cases text : Bytes.ofString entry.1 with
  | nil =>
      rw [text] at letter
      cases letter
  | cons first rest =>
      rw [text] at letter others
      exact ⟨first, rest, rfl, letter, List.all_eq_true.mp others⟩

theorem ofWord_of_unreserved {text : Bytes}
    (unreserved : ∀ entry ∈ Token.Kind.reserved, Bytes.ofString entry.1 ≠ text) :
    Token.Kind.ofWord text = .identifier := by
  have missing : Token.Kind.reserved.find? (fun entry => Bytes.ofString entry.1 == text) = none :=
    List.find?_eq_none.mpr fun entry member => by simpa using unreserved entry member
  rw [Token.Kind.ofWord, missing]

theorem Form.ofMark {first : UInt8} {kind : Token.Kind} {text rest : Bytes} {class_ : Start}
    (mark : (text, kind) ∈ class_.marks first) : Form first class_ (.token kind) text rest := by
  cases class_ with
  | single _ =>
      cases List.mem_singleton.mp mark
      exact .single
  | paired alone joined =>
      rcases List.mem_cons.mp mark with same | inRest
      · cases same
        exact .alone
      · cases List.mem_singleton.mp inRest
        exact .joined
  | slash =>
      cases List.mem_singleton.mp mark
      exact .slash
  | blank | quote | digit | letter | nothing => cases mark

section Bytes

variable {byte : UInt8}

theorem start_eq_slash_iff : start byte = .slash ↔ byte = slash :=
  (start_iff byte).1

theorem start_eq_blank_iff :
    start byte = .blank ↔ byte ∈ [(32 : UInt8), 9, 13, Bytes.lineFeed] :=
  (start_iff byte).2.1

theorem start_eq_quote_iff : start byte = .quote ↔ byte = quote :=
  (start_iff byte).2.2.1

theorem start_eq_digit_iff : start byte = .digit ↔ Bytes.isDigit byte = true :=
  (start_iff byte).2.2.2.1

theorem start_eq_letter_iff : start byte = .letter ↔ Bytes.isLetter byte = true :=
  (start_iff byte).2.2.2.2

end Bytes

theorem IsDigits.isDigit_head {digits rest others : Bytes} {first : UInt8}
    (isDigits : IsDigits digits) (whole : digits ++ rest = first :: others) :
    Bytes.isDigit first = true := by
  obtain ⟨nonempty, all⟩ := isDigits
  cases digits with
  | nil => exact absurd rfl nonempty
  | cons byte _ =>
      obtain ⟨rfl, -⟩ := List.cons.inj whole
      exact all byte List.mem_cons_self

theorem Form.ofWord {first : UInt8} {text rest others : Bytes} (isWord : IsWord text)
    (whole : text ++ rest = first :: others) :
    Form first (start first) (.token (.ofWord text)) text rest := by
  have letter : Bytes.isLetter first = true := by
    obtain ⟨byte, more, rfl, letter, -⟩ := isWord
    obtain ⟨rfl, -⟩ := List.cons.inj whole
    exact letter
  rw [start_eq_letter_iff.mpr letter]
  exact .word isWord

theorem form_of_lexeme {kind : Token.Kind} {text rest others : Bytes} {first : UInt8}
    (lexeme : Lexeme kind text) (whole : text ++ rest = first :: others) :
    Form first (start first) (.token kind) text rest := by
  have head : text.head? = some first := by
    have nonempty := lexeme.ne_nil
    cases text with
    | nil => exact absurd rfl nonempty
    | cons byte _ => exact congrArg some (List.cons.inj whole).1
  cases lexeme with
  | @operator text kind listed =>
      exact .ofMark (mem_marks_of_operators (text, kind) listed first head)
  | whole isDigits =>
      rw [start_eq_digit_iff.mpr (IsDigits.isDigit_head isDigits whole)]
      exact .whole isDigits
  | decimal isDigits isFraction =>
      rw [List.append_assoc] at whole
      rw [start_eq_digit_iff.mpr (IsDigits.isDigit_head isDigits whole)]
      exact .decimal isDigits isFraction
  | string unquoted =>
      obtain ⟨rfl, -⟩ := List.cons.inj whole
      rw [start_eq_quote_iff.mpr rfl]
      exact .string unquoted
  | @reserved text kind listed =>
      have form := Form.ofWord (isWord_reserved _ listed) whole
      rwa [ofWord_reserved _ listed] at form
  | identifier isWord unreserved =>
      have form := Form.ofWord isWord whole
      rwa [ofWord_of_unreserved unreserved] at form

/-- Every match has a form of its first byte. -/
theorem Matches.form {shape : Shape} {text rest others : Bytes} {first : UInt8}
    (matched : Matches shape text rest) (whole : text ++ rest = first :: others) :
    Form first (start first) shape text rest := by
  cases matched with
  | token lexeme => exact form_of_lexeme lexeme whole
  | blank isBlank => 
    obtain ⟨rfl, -⟩ := List.cons.inj whole
    rw [start_eq_blank_iff.mpr isBlank]
    exact .blank
  | lineComment within =>
    obtain ⟨rfl, -⟩ := List.cons.inj whole
    rw [start_eq_slash_iff.mpr rfl]
    exact .lineComment within
  | blockComment open_ =>
    obtain ⟨rfl, -⟩ := List.cons.inj whole
    rw [start_eq_slash_iff.mpr rfl]
    exact .blockComment open_
  | openString unquoted =>
    obtain ⟨rfl, -⟩ := List.cons.inj whole
    rw [start_eq_quote_iff.mpr rfl]
    exact .openString unquoted
  | openComment open_ =>
    obtain ⟨rfl, -⟩ := List.cons.inj whole
    rw [start_eq_slash_iff.mpr rfl]
    exact .openComment open_
  | stray unmarked visible unquoted noDigit noLetter =>
    obtain ⟨rfl, -⟩ := List.cons.inj whole
    rw [(start_eq_nothing_iff _).mpr ⟨unmarked, visible, unquoted, noDigit, noLetter⟩]
    exact .stray

theorem lexeme_of_mem_marks {first : UInt8} {text : Bytes} {kind : Token.Kind}
    (mark : (text, kind) ∈ (start first).marks first) : Lexeme kind text := by
  obtain ⟨⟨name, _⟩, listed, same⟩ := operators_of_mem_marks first _ mark
  cases same
  exact .operator listed

theorem lexeme_of_isWord {text : Bytes} (isWord : IsWord text) : Lexeme (.ofWord text) text := by
  cases found : Token.Kind.reserved.find? fun entry => Bytes.ofString entry.1 == text with
  | none =>
      have missing : ∀ entry ∈ Token.Kind.reserved, Bytes.ofString entry.1 ≠ text :=
        fun entry member => by simpa using List.find?_eq_none.mp found entry member
      rw [ofWord_of_unreserved missing]
      exact .identifier isWord missing
  | some entry =>
      have listed := List.mem_of_find?_eq_some found
      obtain rfl : Bytes.ofString entry.1 = text := by simpa using List.find?_some found
      rw [ofWord_reserved entry listed]
      exact .reserved listed

/-- What has a form of its first byte matches. -/
theorem Form.matched {shape : Shape} {text rest : Bytes} {first : UInt8} {class_ : Start}
    (form : Form first class_ shape text rest) (same : start first = class_) :
    Matches shape text rest := by
  cases form with
  | single | alone | joined | slash =>
      refine .token (@lexeme_of_mem_marks first _ _ ?_)
      rw [same]
      simp [Start.marks]
  | lineComment within =>
      obtain rfl := start_eq_slash_iff.mp same
      exact .lineComment within
  | blockComment open_ =>
      obtain rfl := start_eq_slash_iff.mp same
      exact .blockComment open_
  | openComment open_ =>
      obtain rfl := start_eq_slash_iff.mp same
      exact .openComment open_
  | blank => exact .blank (start_eq_blank_iff.mp same)
  | string unquoted =>
      obtain rfl := start_eq_quote_iff.mp same
      exact .token (.string unquoted)
  | openString unquoted =>
      obtain rfl := start_eq_quote_iff.mp same
      exact .openString unquoted
  | whole isDigits => exact .token (.whole isDigits)
  | decimal isDigits isFraction => exact .token (.decimal isDigits isFraction)
  | word isWord => exact .token (lexeme_of_isWord isWord)
  | stray =>
      obtain ⟨unmarked, visible, unquoted, noDigit, noLetter⟩ := (start_eq_nothing_iff first).mp same
      exact .stray unmarked visible unquoted noDigit noLetter

/-- A cut is the longest of what has a form of its first byte. -/
structure IsBest (first : UInt8) (class_ : Start) (cut : Chunk × Bytes) : Prop where
  form : Form first class_ cut.1.shape cut.1.text cut.2
  best : ∀ {shape : Shape} {text rest : Bytes}, Form first class_ shape text rest →
    text ++ rest = cut.1.text ++ cut.2 →
      shape = cut.1.shape ∧ text = cut.1.text ∨ text.length < cut.1.text.length

section Best

variable {first : UInt8}

theorem isBest_single (kind : Token.Kind) (rest : Bytes) :
    IsBest first (.single kind) (⟨.token kind, [first]⟩, rest) := by
  refine ⟨.single, fun form _ => ?_⟩
  cases form
  exact .inl ⟨rfl, rfl⟩

theorem isBest_paired {alone joined : Token.Kind} (rest : Bytes) :
    IsBest first (.paired alone joined)
      (match rest with
      | [] => (⟨.token alone, [first]⟩, [])
      | second :: after =>
          if second = equalSign then (⟨.token joined, [first, second]⟩, after)
          else (⟨.token alone, [first]⟩, rest)) := by
  cases rest with
  | nil =>
      refine ⟨.alone, fun form whole => ?_⟩
      cases form with
      | alone => exact .inl ⟨rfl, rfl⟩
      | joined => simp at whole
  | cons second after =>
      dsimp only
      split
      case isTrue isEqual =>
        subst isEqual
        refine ⟨.joined, fun form whole => ?_⟩
        cases form with
        | alone => exact .inr (by simp)
        | joined => exact .inl ⟨rfl, rfl⟩
      case isFalse notEqual =>
        refine ⟨.alone, fun form whole => ?_⟩
        cases form with
        | alone => exact .inl ⟨rfl, rfl⟩
        | joined => simp [Ne.symm notEqual] at whole

theorem isBest_blank (rest : Bytes) : IsBest first .blank (⟨.blank, [first]⟩, rest) := by
  refine ⟨.blank, fun form _ => ?_⟩
  cases form
  exact .inl ⟨rfl, rfl⟩

theorem isBest_stray (rest : Bytes) : IsBest first .nothing (⟨.stray, [first]⟩, rest) := by
  refine ⟨.stray, fun form _ => ?_⟩
  cases form
  exact .inl ⟨rfl, rfl⟩

/-- Of two texts that begin alike, one that is not longer is the other or is shorter. -/
theorem eq_or_length_lt {text other rest otherRest : Bytes} (whole : text ++ rest = other ++ otherRest)
    (le : text.length ≤ other.length) : text = other ∨ text.length < other.length := by
  rcases Nat.lt_or_eq_of_le le with shorter | equal
  · exact .inr shorter
  · exact .inl (List.append_inj whole equal).1

/-- What passes a test is not longer than all that does. -/
theorem length_le_takeWhile {test : UInt8 → Bool} {body : Bytes} (passes : ∀ byte ∈ body, test byte = true)
    (rest : Bytes) : body.length ≤ ((body ++ rest).takeWhile test).length := by
  rw [List.takeWhile_append_of_pos passes, List.length_append]
  exact Nat.le_add_right _ _

theorem while_append {test : UInt8 → Bool} {body : Bytes} (passes : ∀ byte ∈ body, test byte = true)
    {stop : UInt8} (stops : test stop = false) (rest : Bytes) :
    (body ++ stop :: rest).takeWhile test = body ∧ (body ++ stop :: rest).dropWhile test = stop :: rest := by
  rw [List.takeWhile_append_of_pos passes, List.dropWhile_append_of_pos passes]
  simp [stops]

theorem IsWord.passes {text : Bytes} (isWord : IsWord text) :
    ∀ byte ∈ text, Bytes.isWordByte byte = true := by
  obtain ⟨byte, more, rfl, letter, others⟩ := isWord
  refine List.forall_mem_cons.mpr ⟨?_, others⟩
  rw [Bytes.isWordByte, letter, Bool.true_or]

/-- A word is cut at the first byte that cannot go on with it. -/
theorem isBest_word (letter : Bytes.isLetter first = true) (rest : Bytes) :
    IsBest first .letter (cutWord (first :: rest)) := by
  have isWord : IsWord ((first :: rest).takeWhile Bytes.isWordByte) := by
    refine ⟨first, rest.takeWhile Bytes.isWordByte, ?_, letter, fun byte member =>
      List.mem_takeWhile_imp member⟩
    exact List.takeWhile_cons_of_pos (by rw [Bytes.isWordByte, letter, Bool.true_or])
  refine ⟨.word isWord, fun {shape text otherRest} form whole => ?_⟩
  cases form with
  | word otherWord =>
      have le := length_le_takeWhile (IsWord.passes otherWord) otherRest
      rw [whole, cutWord_append] at le
      rcases eq_or_length_lt whole le with rfl | shorter
      · exact .inl ⟨rfl, rfl⟩
      · exact .inr shorter

/-- What follows the digits is the fraction of a longer numeral or no part of it. -/
theorem cutNumber_cases (text : Bytes) :
    (∃ digit more, text.dropWhile Bytes.isDigit = point :: digit :: more ∧
      Bytes.isDigit digit = true ∧
      cutNumber text = (⟨.token .number, text.takeWhile Bytes.isDigit ++
        point :: (digit :: more).takeWhile Bytes.isDigit⟩,
          (digit :: more).dropWhile Bytes.isDigit)) ∨
    (∀ digit more, text.dropWhile Bytes.isDigit = point :: digit :: more →
      Bytes.isDigit digit = false) ∧
      cutNumber text = (⟨.token .number, text.takeWhile Bytes.isDigit⟩,
        text.dropWhile Bytes.isDigit) := by
  unfold cutNumber
  dsimp only
  split
  · next mark digit more found =>
    split
    case isTrue fraction =>
      obtain ⟨rfl, digits⟩ := fraction
      exact .inl ⟨digit, more, found, digits, rfl⟩
    case isFalse none_ =>
      refine .inr ⟨fun other others same => ?_, rfl⟩
      rw [found] at same
      cases same
      exact eq_false_of_ne_true fun digits => none_ ⟨rfl, digits⟩
  · next short =>
    exact .inr ⟨fun digit more same => absurd same (short point digit more), rfl⟩

theorem isDigits_takeWhile (digit : Bytes.isDigit first = true) (rest : Bytes) :
    IsDigits ((first :: rest).takeWhile Bytes.isDigit) := by
  refine ⟨?_, fun byte member => List.mem_takeWhile_imp member⟩
  rw [List.takeWhile_cons_of_pos digit]
  exact List.cons_ne_nil _ _

/-- Digits before a point are all the digits there. -/
theorem digits_before_point {digits fraction rest text : Bytes} (isDigits : IsDigits digits)
    (whole : digits ++ point :: fraction ++ rest = text) :
    text.takeWhile Bytes.isDigit = digits ∧
      text.dropWhile Bytes.isDigit = point :: (fraction ++ rest) := by
  rw [← whole, List.append_assoc]
  exact while_append isDigits.2 (by decide) (fraction ++ rest)

/-- A numeral is cut behind its digits, or behind those after a point that digits follow. -/
theorem isBest_number (digit : Bytes.isDigit first = true) (rest : Bytes) :
    IsBest first .digit (cutNumber (first :: rest)) := by
  have isWhole := isDigits_takeWhile digit rest
  have all := cutNumber_append (first :: rest)
  rcases cutNumber_cases (first :: rest) with ⟨next, more, after, isDigit, cut⟩ | ⟨none_, cut⟩
  · rw [cut] at all ⊢
    refine ⟨.decimal isWhole (isDigits_takeWhile isDigit more),
      fun {shape text otherRest} form whole => ?_⟩
    rw [all] at whole
    cases form with
    | whole isDigits =>
        right
        have le := length_le_takeWhile isDigits.2 otherRest
        rw [whole] at le
        simp only [List.length_append, List.length_cons]
        omega
    | @decimal digits fraction _ isDigits isFraction =>
        obtain ⟨taken, dropped⟩ := digits_before_point isDigits whole
        obtain ⟨-, same⟩ := List.cons.inj (after.symm.trans dropped)
        have le := length_le_takeWhile isFraction.2 otherRest
        rw [← same] at le
        rcases eq_or_length_lt (whole.trans all.symm) (by
          simp only [List.length_append, List.length_cons, taken]
          omega) with equal | shorter
        · exact .inl ⟨rfl, equal⟩
        · exact .inr shorter
  · rw [cut] at all ⊢
    refine ⟨.whole isWhole, fun {shape text otherRest} form whole => ?_⟩
    rw [all] at whole
    cases form with
    | whole isDigits =>
        have le := length_le_takeWhile isDigits.2 otherRest
        rw [whole] at le
        rcases eq_or_length_lt (whole.trans all.symm) le with equal | shorter
        · exact .inl ⟨rfl, equal⟩
        · exact .inr shorter
    | @decimal digits fraction _ isDigits isFraction =>
        obtain ⟨-, dropped⟩ := digits_before_point isDigits whole
        obtain ⟨nonempty, digitsOnly⟩ := isFraction
        cases fraction with
        | nil => exact absurd rfl nonempty
        | cons byte others =>
            have stops := none_ byte (others ++ otherRest) dropped
            rw [digitsOnly byte List.mem_cons_self] at stops
            cases stops

/-- Where a string or an unterminated one matches, its body is all up to the next quote. -/
theorem while_of_quote {shape : Shape} {text rest otherRest : Bytes}
    (form : Form quote .quote shape text otherRest) (whole : text ++ otherRest = quote :: rest) :
    (shape = .token .string ∧ text = quote :: rest.takeWhile (· != quote) ++ [quote] ∧
      rest.dropWhile (· != quote) = quote :: otherRest) ∨
    (shape = .openString ∧ text = quote :: rest.takeWhile (· != quote) ∧
      rest.dropWhile (· != quote) = []) := by
  have passes {body : Bytes} (unquoted : quote ∉ body) : ∀ byte ∈ body, (byte != quote) = true :=
    fun byte member => by
      rw [bne_iff_ne]
      rintro rfl
      exact unquoted member
  cases form with
  | @string body _ unquoted =>
      have spelled : body ++ quote :: otherRest = rest := by simpa using whole
      have stops : (quote != quote) = false := by decide
      obtain ⟨taken, dropped⟩ := while_append (passes unquoted) stops otherRest
      rw [← spelled]
      exact .inl ⟨rfl, by rw [taken], dropped⟩
  | @openString body unquoted =>
      have spelled : body = rest := by simpa using whole
      rw [← spelled, List.takeWhile_eq_self_iff.mpr (passes unquoted),
        List.dropWhile_eq_nil_iff.mpr (passes unquoted)]
      exact .inr ⟨rfl, rfl, rfl⟩

/-- A string is cut at its first quote, and runs to the end without one. -/
theorem isBest_string (rest : Bytes) : IsBest quote .quote (cutString rest) := by
  have all := cutString_append rest
  have unquoted : quote ∉ rest.takeWhile (· != quote) := fun member => by
    simpa using List.mem_takeWhile_imp member
  unfold cutString at all ⊢
  dsimp only at all ⊢
  cases dropped : rest.dropWhile (· != quote) with
  | nil =>
      rw [dropped] at all
      refine ⟨.openString unquoted, fun {shape text otherRest} form whole => ?_⟩
      rcases while_of_quote form (whole.trans all) with ⟨-, -, closed⟩ | ⟨shape, text, -⟩
      · rw [dropped] at closed
        cases closed
      · exact .inl ⟨shape, text⟩
  | cons mark remaining =>
      have isQuote : mark = quote := by
        have stops := List.head?_dropWhile_not (· != quote) rest
        rw [dropped] at stops
        simpa using stops
      subst isQuote
      rw [dropped] at all
      refine ⟨.string unquoted, fun {shape text otherRest} form whole => ?_⟩
      rcases while_of_quote form (whole.trans all) with ⟨shape, text, -⟩ | ⟨-, -, open_⟩
      · exact .inl ⟨shape, text⟩
      · rw [dropped] at open_
        cases open_

theorem closing_prefix_iff {second : UInt8} {rest : Bytes} :
    closing <+: first :: second :: rest ↔ first = asterisk ∧ second = slash := by
  simp [closing, List.cons_prefix_cons, eq_comm]

/-- A block comment ends with the first closing marks, and runs to the end without any. -/
theorem commentBody_cases (text : Bytes) :
    (∃ inner rest, commentBody text = (inner ++ closing, some rest) ∧
      ¬ closing <:+: inner ++ [asterisk]) ∨
    commentBody text = (text, none) ∧ ¬ closing <:+: text := by
  fun_induction commentBody text with
  | case1 => exact .inr ⟨rfl, by simp [closing]⟩
  | case2 byte => exact .inr ⟨rfl, fun inside => by simpa [closing] using inside.length_le⟩
  | case3 first second rest marks =>
      obtain ⟨rfl, rfl⟩ := marks
      exact .inl ⟨[], rest, rfl, by decide⟩
  | case4 first second rest marks body remaining found inductionHypothesis =>
      have whole := commentBody_append (second :: rest)
      rw [found] at inductionHypothesis whole
      rcases inductionHypothesis with ⟨inner, after, same, open_⟩ | ⟨same, open_⟩
      · obtain ⟨rfl, rfl⟩ := Prod.mk.inj same
        refine .inl ⟨first :: inner, after, rfl, fun inside => ?_⟩
        rcases List.infix_cons_iff.mp inside with begins | later
        · have within : inner ++ [asterisk] <+: second :: rest :=
            ⟨slash :: after, by simpa [closing] using whole⟩
          have reaches := begins.trans ((List.prefix_cons_inj first).mpr within)
          exact marks (closing_prefix_iff.mp reaches)
        · exact open_ later
      · obtain ⟨rfl, rfl⟩ := Prod.mk.inj same
        refine .inr ⟨rfl, fun inside => ?_⟩
        rcases List.infix_cons_iff.mp inside with begins | later
        · exact marks (closing_prefix_iff.mp begins)
        · exact open_ later

theorem commentBody_of_closed {inner : Bytes} (open_ : ¬ closing <:+: inner ++ [asterisk])
    (rest : Bytes) : commentBody (inner ++ closing ++ rest) = (inner ++ closing, some rest) := by
  induction inner with
  | nil => simp [closing, commentBody]
  | cons byte others inductionHypothesis =>
      have later := inductionHypothesis fun inside =>
        open_ (inside.trans (List.suffix_cons byte _).isInfix)
      cases begins : others ++ [asterisk] with
      | nil => simp at begins
      | cons second more =>
          have follows : others ++ closing ++ rest = second :: (more ++ slash :: rest) := by
            rw [← List.cons_append, ← begins]
            simp [closing]
          have marks : ¬(byte = asterisk ∧ second = slash) := fun marks => by
            have inside := (closing_prefix_iff.mpr marks : closing <+: byte :: second :: more)
            rw [← begins] at inside
            exact open_ inside.isInfix
          rw [follows] at later
          rw [List.cons_append, List.cons_append, follows, commentBody, if_neg marks, later]

theorem commentBody_of_open {text : Bytes} (open_ : ¬ closing <:+: text) :
    commentBody text = (text, none) := by
  rcases commentBody_cases text with ⟨inner, rest, same, -⟩ | ⟨same, -⟩
  · have whole := commentBody_append text
    rw [same] at whole
    exact absurd ⟨inner, rest, whole⟩ open_
  · exact same

/-- What matches at a slash that is not the last byte. -/
theorem slash_forms {shape : Shape} {text after otherRest : Bytes} {second : UInt8}
    (form : Form slash .slash shape text otherRest)
    (whole : text ++ otherRest = slash :: second :: after) :
    (shape = .token .slash ∧ text = [slash]) ∨
    (second = slash ∧ shape = .comment ∧ ∃ body, text = slash :: slash :: body ∧
      Bytes.lineFeed ∉ body ∧ body ++ otherRest = after) ∨
    (second = asterisk ∧ shape = .comment ∧ ∃ body, text = slash :: asterisk :: body ∧
      commentBody after = (body, some otherRest)) ∨
    (second = asterisk ∧ shape = .openComment ∧ text = slash :: asterisk :: after ∧
      commentBody after = (after, none)) := by
  cases form with
  | slash => exact .inl ⟨rfl, rfl⟩
  | @lineComment body _ within =>
      obtain ⟨rfl, spelled⟩ : slash = second ∧ body ++ otherRest = after := by simpa using whole
      exact .inr (.inl ⟨rfl, rfl, body, rfl, within, spelled⟩)
  | @blockComment body _ open_ =>
      obtain ⟨rfl, spelled⟩ : asterisk = second ∧ body ++ (closing ++ otherRest) = after := by
        simpa using whole
      rw [← List.append_assoc] at spelled
      refine .inr (.inr (.inl ⟨rfl, rfl, body ++ closing, rfl, ?_⟩))
      rw [← spelled, commentBody_of_closed open_]
  | @openComment body open_ =>
      obtain ⟨rfl, rfl⟩ : asterisk = second ∧ body = after := by simpa using whole
      exact .inr (.inr (.inr ⟨rfl, rfl, rfl, commentBody_of_open open_⟩))

theorem asterisk_ne_slash : asterisk ≠ slash := by decide

theorem isBest_lineComment (after : Bytes) :
    IsBest slash .slash (⟨.comment, slash :: slash :: after.takeWhile (· != Bytes.lineFeed)⟩,
      after.dropWhile (· != Bytes.lineFeed)) := by
  have within : Bytes.lineFeed ∉ after.takeWhile (· != Bytes.lineFeed) := fun member => by
    simpa using List.mem_takeWhile_imp member
  refine ⟨.lineComment within, fun {shape text otherRest} form whole => ?_⟩
  have same := whole
  simp only [List.cons_append, List.takeWhile_append_dropWhile] at same
  rcases slash_forms form same with ⟨-, rfl⟩ | ⟨-, rfl, body, rfl, other, spelled⟩ |
    ⟨isStar, -⟩ | ⟨isStar, -⟩
  · exact .inr (by simp)
  · have passes : ∀ byte ∈ body, (byte != Bytes.lineFeed) = true := fun byte member => by
      rw [bne_iff_ne]
      rintro rfl
      exact other member
    have le := length_le_takeWhile passes otherRest
    rw [spelled] at le
    rcases eq_or_length_lt whole (by simpa using le) with equal | shorter
    · exact .inl ⟨rfl, equal⟩
    · exact .inr shorter
  · exact absurd isStar.symm asterisk_ne_slash
  · exact absurd isStar.symm asterisk_ne_slash

/-- A slash is cut alone unless another slash or an asterisk follows. -/
theorem isBest_slash (rest : Bytes) : IsBest slash .slash (cutSlash rest) := by
  unfold cutSlash
  cases rest with
  | nil =>
      refine ⟨.slash, fun {shape text otherRest} form whole => ?_⟩
      cases form with
      | slash => exact .inl ⟨rfl, rfl⟩
      | lineComment _ | blockComment _ | openComment _ => simp at whole
  | cons second after =>
      dsimp only
      by_cases isSlash : second = slash
      · rw [if_pos isSlash]
        exact isBest_lineComment after
      rw [if_neg isSlash]
      by_cases isStar : second = asterisk
      · rw [if_pos isStar]
        rcases commentBody_cases after with ⟨inner, remaining, found, open_⟩ | ⟨found, open_⟩
        · rw [found]
          refine ⟨.blockComment open_, fun {shape text otherRest} form whole => ?_⟩
          have spelled := commentBody_append after
          rw [found] at spelled
          have same : text ++ otherRest = slash :: asterisk :: after := by
            rw [whole, ← spelled]
            rfl
          rcases slash_forms form same with ⟨-, rfl⟩ | ⟨isSlash, -⟩ | ⟨-, rfl, body, rfl, other⟩ |
            ⟨-, -, -, other⟩
          · exact .inr (by simp)
          · exact absurd isSlash asterisk_ne_slash
          · rw [found] at other
            cases other
            exact .inl ⟨rfl, rfl⟩
          · rw [found] at other
            cases other
        · rw [found]
          refine ⟨.openComment open_, fun {shape text otherRest} form whole => ?_⟩
          dsimp only at whole
          rw [List.append_nil] at whole
          rcases slash_forms form whole with ⟨-, rfl⟩ | ⟨isSlash, -⟩ | ⟨-, -, body, -, other⟩ |
            ⟨-, rfl, rfl, -⟩
          · exact .inr (by simp)
          · exact absurd isSlash asterisk_ne_slash
          · rw [found] at other
            cases other
          · exact .inl ⟨rfl, rfl⟩
      · rw [if_neg isStar]
        refine ⟨.slash, fun {shape text otherRest} form whole => ?_⟩
        rcases slash_forms form whole with ⟨rfl, rfl⟩ | ⟨second_, -⟩ | ⟨second_, -⟩ | ⟨second_, -⟩
        · exact .inl ⟨rfl, rfl⟩
        · exact absurd second_ isSlash
        · exact absurd second_ isStar
        · exact absurd second_ isStar

end Best

theorem isBest_cut (first : UInt8) (rest : Bytes) :
    IsBest first (start first) (cut first rest) := by
  unfold start cut
  cases single? first with
  | some kind => exact isBest_single kind rest
  | none =>
      cases paired? first with
      | some pair => exact isBest_paired rest
      | none =>
          dsimp only
          split
          case isTrue isSlash =>
            subst isSlash
            exact isBest_slash rest
          split
          · exact isBest_blank rest
          split
          case isTrue isQuote =>
            subst isQuote
            exact isBest_string rest
          split
          case isTrue digit => exact isBest_number digit rest
          split
          case isTrue letter => exact isBest_word letter rest
          exact isBest_stray rest

/-- Cutting takes the longest match. -/
theorem isLongest_cut (first : UInt8) (rest : Bytes) :
    (cut first rest).1.IsLongest (cut first rest).2 := by
  obtain ⟨form, best⟩ := isBest_cut first rest
  refine ⟨form.matched rfl, fun other otherRest same matched => ?_⟩
  have whole := same.trans (cut_append first rest)
  rcases best (matched.form whole) same with ⟨shape, text⟩ | shorter
  · exact .inl (congrArg₂ Chunk.mk shape text)
  · exact .inr shorter

theorem isCut_chunks (source : Bytes) : IsCut source (chunks source) := by
  fun_induction chunks source with
  | case1 => exact .done
  | case2 first rest inductionHypothesis =>
      have cut := IsCut.next (isLongest_cut first rest) inductionHypothesis
      rwa [cut_append] at cut

end Chunk

end LoxLang
