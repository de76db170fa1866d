import LoxLang.Token.Basic

/-!
Cutting source text into chunks.  A chunk is the longest piece at its position
that is a token, a blank byte, a comment, an unterminated string or comment
that runs to the end, or one byte that starts nothing.  Chunks cover the text
without gap or overlap.
-/

namespace LoxLang

/-- What a chunk of source is. -/
inductive Chunk.Shape where
  | token (kind : Token.Kind)
  | blank
  | comment
  | openString
  | openComment
  | stray
deriving DecidableEq, Repr

structure Chunk where
  shape : Chunk.Shape
  text : Bytes
deriving DecidableEq, Repr

namespace Chunk

/-- The bytes that are a token by themselves and begin no longer one. -/
def single? (byte : UInt8) : Option Token.Kind :=
  match Char.ofUInt8 byte with
  | '(' => some .leftParen
  | ')' => some .rightParen
  | '\x7b' => some .leftBrace
  | '\x7d' => some .rightBrace
  | ',' => some .comma
  | '.' => some .dot
  | '-' => some .minus
  | '+' => some .plus
  | ';' => some .semicolon
  | '*' => some .star
  | _ => none

/-- The bytes that are a token by themselves and another before `=`. -/
def paired? (byte : UInt8) : Option (Token.Kind × Token.Kind) :=
  match Char.ofUInt8 byte with
  | '!' => some (.bang, .bangEqual)
  | '=' => some (.equal, .equalEqual)
  | '<' => some (.less, .lessEqual)
  | '>' => some (.greater, .greaterEqual)
  | _ => none

def equalSign : UInt8 := 61

def slash : UInt8 := 47

def asterisk : UInt8 := 42

def quote : UInt8 := 34

def point : UInt8 := 46

/-- Space, tab, carriage return and line feed. -/
def isBlank (byte : UInt8) : Bool :=
  byte == 32 || byte == 9 || byte == 13 || byte == Bytes.lineFeed

/-- The rest of a block comment up to its first closing mark, and what
follows.  The second part is absent when the comment is never closed. -/
def commentBody : Bytes → Bytes × Option Bytes
  | [] => ([], none)
  | [byte] => ([byte], none)
  | first :: second :: rest =>
      if first = asterisk ∧ second = slash then
        ([first, second], some rest)
      else
        let (body, remaining) := commentBody (second :: rest)
        (first :: body, remaining)

/-- A chunk that starts with a slash, given what follows the slash. -/
def cutSlash (rest : Bytes) : Chunk × Bytes :=
  match rest with
  | [] => (⟨.token .slash, [slash]⟩, [])
  | second :: after =>
      if second = slash then
        (⟨.comment, slash :: slash :: after.takeWhile (· != Bytes.lineFeed)⟩,
          after.dropWhile (· != Bytes.lineFeed))
      else if second = asterisk then
        match commentBody after with
        | (body, some remaining) => (⟨.comment, slash :: asterisk :: body⟩, remaining)
        | (body, none) => (⟨.openComment, slash :: asterisk :: body⟩, [])
      else
        (⟨.token .slash, [slash]⟩, rest)

/-- A chunk that starts with a quote, given what follows the quote. -/
def cutString (rest : Bytes) : Chunk × Bytes :=
  let body := rest.takeWhile (· != quote)
  match rest.dropWhile (· != quote) with
  | [] => (⟨.openString, quote :: body⟩, [])
  | closing :: remaining => (⟨.token .string, quote :: body ++ [closing]⟩, remaining)

/-- A numeral: digits, then a point and digits if digits follow the point. -/
def cutNumber (text : Bytes) : Chunk × Bytes :=
  let whole := text.takeWhile Bytes.isDigit
  let after := text.dropWhile Bytes.isDigit
  match after with
  | mark :: digit :: rest =>
      if mark = point ∧ Bytes.isDigit digit then
        let fraction := (digit :: rest).takeWhile Bytes.isDigit
        (⟨.token .number, whole ++ mark :: fraction⟩, (digit :: rest).dropWhile Bytes.isDigit)
      else
        (⟨.token .number, whole⟩, after)
  | _ => (⟨.token .number, whole⟩, after)

def cutWord (text : Bytes) : Chunk × Bytes :=
  let word := text.takeWhile Bytes.isWordByte
  (⟨.token (.ofWord word), word⟩, text.dropWhile Bytes.isWordByte)

/-- The first chunk of a text that starts with `first`, and the text after
it. -/
def cut (first : UInt8) (rest : Bytes) : Chunk × Bytes :=
  match single? first, paired? first with
  | some kind, _ => (⟨.token kind, [first]⟩, rest)
  | none, some (alone, joined) =>
      match rest with
      | [] => (⟨.token alone, [first]⟩, [])
      | second :: after =>
          if second = equalSign then
            (⟨.token joined, [first, second]⟩, after)
          else
            (⟨.token alone, [first]⟩, rest)
  | none, none =>
      if first = slash then cutSlash rest
      else if isBlank first then (⟨.blank, [first]⟩, rest)
      else if first = quote then cutString rest
      else if Bytes.isDigit first then cutNumber (first :: rest)
      else if Bytes.isLetter first then cutWord (first :: rest)
      else (⟨.stray, [first]⟩, rest)

theorem commentBody_append (text : Bytes) :
    (commentBody text).1 ++ (commentBody text).2.getD [] = text := by
  fun_induction commentBody text with
  | case1 => rfl
  | case2 => rfl
  | case3 first second rest closed => simp
  | case4 first second rest open_ body remaining found inductionHypothesis =>
      simpa [found] using inductionHypothesis

theorem cutSlash_append (rest : Bytes) :
    (cutSlash rest).1.text ++ (cutSlash rest).2 = slash :: rest := by
  unfold cutSlash
  split
  · rfl
  · next second after =>
      split
      · next same => simp [same]
      · split
        · next star =>
            have whole := commentBody_append after
            split
            · next body remaining found => simp_all
            · next body found => simp_all
        · simp

theorem cutString_append (rest : Bytes) :
    (cutString rest).1.text ++ (cutString rest).2 = quote :: rest := by
  have whole := List.takeWhile_append_dropWhile (p := (· != quote)) (l := rest)
  unfold cutString
  split
  · next none_ => simp_all
  · next closing remaining found => simp_all

theorem cutNumber_append (text : Bytes) :
    (cutNumber text).1.text ++ (cutNumber text).2 = text := by
  have whole := List.takeWhile_append_dropWhile (p := Bytes.isDigit) (l := text)
  unfold cutNumber
  simp only
  split
  · next mark digit rest found =>
      split
      · rw [List.append_assoc, List.cons_append, List.takeWhile_append_dropWhile, ← found]
        exact whole
      · exact whole
  · exact whole

theorem cutWord_append (text : Bytes) :
    (cutWord text).1.text ++ (cutWord text).2 = text :=
  List.takeWhile_append_dropWhile

/-- Cutting loses nothing. -/
theorem cut_append (first : UInt8) (rest : Bytes) :
    (cut first rest).1.text ++ (cut first rest).2 = first :: rest := by
  unfold cut
  split
  · rfl
  · split
    · rfl
    · split <;> rfl
  · split
    · next same => rw [cutSlash_append, same]
    · split
      · rfl
      · split
        · next same => rw [cutString_append, same]
        · split
          · exact cutNumber_append _
          · split
            · exact cutWord_append _
            · rfl

theorem cutSlash_ne_nil (rest : Bytes) : (cutSlash rest).1.text ≠ [] := by
  unfold cutSlash
  split
  · simp
  · split
    · simp
    · split
      · split
        · simp
        · simp
      · simp

theorem cutString_ne_nil (rest : Bytes) : (cutString rest).1.text ≠ [] := by
  unfold cutString
  dsimp only
  split
  · simp
  · simp

theorem cutNumber_ne_nil {first : UInt8} (digit : Bytes.isDigit first = true) (rest : Bytes) :
    (cutNumber (first :: rest)).1.text ≠ [] := by
  unfold cutNumber
  dsimp only
  split
  · split
    · simp
    · simp [digit]
  · simp [digit]

theorem cutWord_ne_nil {first : UInt8} (letter : Bytes.isLetter first = true) (rest : Bytes) :
    (cutWord (first :: rest)).1.text ≠ [] := by
  simp [cutWord, Bytes.isWordByte, letter]

/-- A chunk is not empty. -/
theorem cut_ne_nil (first : UInt8) (rest : Bytes) : (cut first rest).1.text ≠ [] := by
  unfold cut
  split
  · simp
  · split
    · simp
    · split
      · simp
      · simp
  · split
    · exact cutSlash_ne_nil rest
    · split
      · simp
      · split
        · exact cutString_ne_nil rest
        · split
          · next digit => exact cutNumber_ne_nil digit rest
          · split
            · next letter => exact cutWord_ne_nil letter rest
            · simp

/-- A chunk starts with the byte it was cut at. -/
theorem cut_head (first : UInt8) (rest : Bytes) :
    (cut first rest).1.text.head? = some first := by
  have whole := cut_append first rest
  cases text : (cut first rest).1.text with
  | nil => exact absurd text (cut_ne_nil first rest)
  | cons head tail =>
      rw [text, List.cons_append, List.cons.injEq] at whole
      simp [whole.1]

theorem cut_length_lt (first : UInt8) (rest : Bytes) :
    (cut first rest).2.length < (first :: rest).length := by
  have whole := congrArg List.length (cut_append first rest)
  have head := cut_head first rest
  cases text : (cut first rest).1.text with
  | nil => simp [text] at head
  | cons _ _ =>
      simp only [text, List.length_append, List.length_cons] at whole ⊢
      omega

end Chunk

/-- Cut a text into chunks from left to right. -/
def chunks : Bytes → List Chunk
  | [] => []
  | first :: rest => (Chunk.cut first rest).1 :: chunks (Chunk.cut first rest).2
termination_by text => text.length
decreasing_by exact Chunk.cut_length_lt first rest

end LoxLang
