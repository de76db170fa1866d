import LoxLang.Toml.Scalar

/-!
Reading a settings file: one assignment or table header per line, with
comments.  Values may nest, so the readers of values take a bound, which the
length of the text provides.
-/

namespace LoxLang.Toml

/-- A dotted key, part by part. -/
abbrev Key := List Bytes

/-- A value as written. -/
inductive Written where
  | text (value : Bytes)
  | boolean (value : Bool)
  /-- A number, date or time. -/
  | scalar
  | array (elements : List Written)
  | inline (entries : List (Key × Written))

inductive Item where
  | assignment (key : Key) (value : Written)
  | table (key : Key)
  | tableArray (key : Key)

def encodeChars (text : List Char) : Bytes :=
  text.flatMap fun c => Utf8.encode c.toNat

def isGap (c : Char) : Bool :=
  c == ' ' || c == '\t'

def isLineEnd (c : Char) : Bool :=
  c == '\n' || c == '\r'

def skipGap (text : List Char) : List Char :=
  text.dropWhile isGap

/-- Pass over a comment, if one is in front. -/
def skipComment : List Char → List Char
  | '#' :: rest => rest.dropWhile (!isLineEnd ·)
  | text => text

/-- Pass over blanks, line ends and comments. -/
def skipLines : Nat → List Char → List Char
  | 0, text => text
  | bound + 1, text =>
      match text.dropWhile fun c => isGap c || isLineEnd c with
      | '#' :: rest => skipLines bound (rest.dropWhile (!isLineEnd ·))
      | rest => rest

/-- A code point given by hexadecimal digits; surrogates are none. -/
def codePoint? (width : Nat) (text : List Char) : Option (Char × List Char) :=
  let taken := text.take width
  let code := digitsValue 16 taken
  if taken.length = width && taken.all (isDigitOf 16) && code.isValidChar then
    some (Char.ofNat code, text.drop width)
  else
    none

/-- What follows a backslash in a string. -/
def escape? : List Char → Option (Char × List Char)
  | 'b' :: rest => some ('\x08', rest)
  | 't' :: rest => some ('\t', rest)
  | 'n' :: rest => some ('\n', rest)
  | 'f' :: rest => some ('\x0c', rest)
  | 'r' :: rest => some ('\r', rest)
  | '"' :: rest => some ('"', rest)
  | '\\' :: rest => some ('\\', rest)
  | 'u' :: rest => codePoint? 4 rest
  | 'U' :: rest => codePoint? 8 rest
  | _ => none

/-- A string on one line, after its opening quote. -/
def basicString? : Nat → List Char → Option (List Char × List Char)
  | 0, _ => none
  | _ + 1, [] => none
  | _ + 1, '"' :: rest => some ([], rest)
  | bound + 1, '\\' :: rest => do
      let (c, rest) ← escape? rest
      let (text, rest) ← basicString? bound rest
      return (c :: text, rest)
  | bound + 1, c :: rest =>
      if isLineEnd c then
        none
      else do
        let (text, rest) ← basicString? bound rest
        return (c :: text, rest)

/-- A string without escapes on one line, after its opening quote. -/
def literalString? (text : List Char) : Option (List Char × List Char) :=
  let body := text.takeWhile fun c => c != '\'' && !isLineEnd c
  match text.drop body.length with
  | '\'' :: rest => some (body, rest)
  | _ => none

/-- The quotes at the end of a text over several lines: three of them close it,
and up to `own` more before those belong to it. -/
def closing? (quote : Char) (own : Nat) (text : List Char) : Option (List Char × List Char) :=
  let count := (text.takeWhile (· == quote)).length
  if 3 ≤ count && count ≤ 3 + own then
    some (List.replicate (count - 3) quote, text.drop count)
  else
    none

/-- Pass over the line end right after an opening of three quotes. -/
def skipFirstLineEnd : List Char → List Char
  | '\n' :: rest => rest
  | '\r' :: '\n' :: rest => rest
  | text => text

/-- A string over several lines, after its opening.  A backslash at the end of
a line takes away all white space up to the next character.  Two quotes may
stand before the closing ones, and three right after a written backslash: `own`
is the number allowed here. -/
def multilineString? : Nat → Nat → List Char → Option (List Char × List Char)
  | 0, _, _ => none
  | _ + 1, _, [] => none
  | bound + 1, _, '\\' :: rest =>
      let blank := rest.takeWhile fun c => isGap c || isLineEnd c
      if blank.contains '\n' then
        multilineString? bound 2 (rest.drop blank.length)
      else do
        let own := if rest.head? = some '\\' then 3 else 2
        let (c, rest) ← escape? rest
        let (text, rest) ← multilineString? bound own rest
        return (c :: text, rest)
  | bound + 1, own, c :: rest =>
      if c = '"' && (c :: rest).take 3 = ['"', '"', '"'] then
        closing? '"' own (c :: rest)
      else do
        let (text, rest) ← multilineString? bound 2 rest
        return (c :: text, rest)

/-- A string without escapes over several lines, after its opening. -/
def multilineLiteral? : List Char → Option (List Char × List Char)
  | [] => none
  | c :: rest =>
      if c = '\'' && (c :: rest).take 3 = ['\'', '\'', '\''] then
        closing? '\'' 2 (c :: rest)
      else do
        let (text, rest) ← multilineLiteral? rest
        return (c :: text, rest)

/-- A string of any of the four forms. -/
def string? (text : List Char) : Option (Bytes × List Char) := do
  let (found, rest) ← match text with
    | '"' :: '"' :: '"' :: rest => multilineString? text.length 2 (skipFirstLineEnd rest)
    | '"' :: rest => basicString? text.length rest
    | '\'' :: '\'' :: '\'' :: rest => multilineLiteral? (skipFirstLineEnd rest)
    | '\'' :: rest => literalString? rest
    | _ => none
  return (encodeChars found, rest)

/-- The characters of a key without quotes. -/
def isKeyChar (c : Char) : Bool :=
  ('a' ≤ c && c ≤ 'z') || ('A' ≤ c && c ≤ 'Z') || isDecimalDigit c || c == '_' || c == '-'

/-- A key between quotes keeps to one line. -/
def quotedKey? (found : Option (List Char × List Char)) : Option (Bytes × List Char) :=
  found.map fun (text, rest) => (encodeChars text, rest)

def keyPart? (text : List Char) : Option (Bytes × List Char) :=
  match text with
  | '"' :: rest => quotedKey? (basicString? text.length rest)
  | '\'' :: rest => quotedKey? (literalString? rest)
  | _ =>
      let word := text.takeWhile isKeyChar
      if word.isEmpty then none else some (encodeChars word, text.drop word.length)

/-- A dotted key and the blanks after it. -/
def key? : Nat → List Char → Option (Key × List Char)
  | 0, _ => none
  | bound + 1, text => do
      let (part, rest) ← keyPart? (skipGap text)
      match skipGap rest with
      | '.' :: rest =>
          let (parts, rest) ← key? bound rest
          return (part :: parts, rest)
      | rest => return ([part], rest)

/-- The characters that numbers, dates and times are made of. -/
def isScalarChar (c : Char) : Bool :=
  isKeyChar c || c == '+' || c == '.' || c == ':'

/-- A number, date or time.  A blank may stand between a date and a time. -/
def scalar? (text : List Char) : Option (List Char) :=
  let word := text.takeWhile isScalarChar
  let rest := text.drop word.length
  let joined := match rest with
    | ' ' :: digit :: _ =>
        if date? word == some [] && isDecimalDigit digit then
          let time := (rest.drop 1).takeWhile isScalarChar
          some (word ++ ' ' :: time, rest.drop (time.length + 1))
        else
          none
    | _ => none
  match joined with
  | some (moment, after) => if isMoment moment then some after else none
  | none =>
      if isInteger word || isFractional word || isMoment word then some rest else none

mutual

def value? : Nat → List Char → Option (Written × List Char)
  | 0, _ => none
  | bound + 1, text =>
      match text with
      | '"' :: _ | '\'' :: _ => do
          let (found, rest) ← string? text
          return (.text found, rest)
      | '[' :: rest => do
          let (elements, rest) ← elements? bound rest
          return (.array elements, rest)
      | '\x7b' :: rest =>
          match skipGap rest with
          | '\x7d' :: rest => some (.inline [], rest)
          | rest => do
              let (entries, rest) ← entries? bound rest
              return (.inline entries, rest)
      | 't' :: 'r' :: 'u' :: 'e' :: rest => some (.boolean true, rest)
      | 'f' :: 'a' :: 'l' :: 's' :: 'e' :: rest => some (.boolean false, rest)
      | _ => do
          let rest ← scalar? text
          return (.scalar, rest)

/-- The elements of an array up to its closing bracket.  A comma may follow
the last. -/
def elements? : Nat → List Char → Option (List Written × List Char)
  | 0, _ => none
  | bound + 1, text =>
      match skipLines bound text with
      | ']' :: rest => some ([], rest)
      | rest => do
          let (first, rest) ← value? bound rest
          match skipLines bound rest with
          | ',' :: rest =>
              let (others, rest) ← elements? bound rest
              return (first :: others, rest)
          | ']' :: rest => return ([first], rest)
          | _ => none

/-- The entries of a table between braces, on one line. -/
def entries? : Nat → List Char → Option (List (Key × Written) × List Char)
  | 0, _ => none
  | bound + 1, text => do
      let (key, rest) ← key? bound text
      let '=' :: rest := rest | none
      let (value, rest) ← value? bound (skipGap rest)
      match skipGap rest with
      | ',' :: rest =>
          let (others, rest) ← entries? bound rest
          return ((key, value) :: others, rest)
      | '\x7d' :: rest => return ([(key, value)], rest)
      | _ => none

end

/-- The assignment or table header in front. -/
def item? (bound : Nat) (text : List Char) : Option (Item × List Char) :=
  match text with
  | '[' :: '[' :: rest => do
      let (key, rest) ← key? bound rest
      let ']' :: ']' :: rest := rest | none
      return (.tableArray key, rest)
  | '[' :: rest => do
      let (key, rest) ← key? bound rest
      let ']' :: rest := rest | none
      return (.table key, rest)
  | _ => do
      let (key, rest) ← key? bound text
      let '=' :: rest := rest | none
      let (value, rest) ← value? bound (skipGap rest)
      return (.assignment key value, rest)

/-- Items up to the end.  After an item only a comment may stand on its
line. -/
def items? : Nat → List Char → Option (List Item)
  | 0, _ => none
  | bound + 1, text =>
      match skipLines bound text with
      | [] => some []
      | text => do
          let (item, rest) ← item? bound text
          match skipComment (skipGap rest) with
          | [] => return [item]
          | c :: rest => if isLineEnd c then (item :: ·) <$> items? bound rest else none

/-- Control characters other than tabs and line ends do not occur, and a
carriage return stands only before a line feed. -/
def isClean : List Char → Bool
  | [] => true
  | ['\r'] => false
  | c :: next :: rest =>
      (c == '\t' || c == '\n' || (c == '\r' && next == '\n') ||
        (32 ≤ c.toNat && c.toNat != 127)) && isClean (next :: rest)
  | [c] => c == '\t' || c == '\n' || (32 ≤ c.toNat && c.toNat != 127)

/-- The characters of a text that is UTF-8.  The character that replaces what
could not be decoded is refused with the rest of such text. -/
def chars? (text : Bytes) : Option (List Char) :=
  (Utf8.pieces text).mapM fun
    | .scalar code => if code = 0xFFFD then none else some (Char.ofNat code)
    | .stray _ => none

/-- A text without the mark of its encoding. -/
def dropMark : Bytes → Bytes
  | 0xEF :: 0xBB :: 0xBF :: rest => rest
  | 0xFF :: 0xFE :: rest => rest
  | 0xFE :: 0xFF :: rest => rest
  | text => text

def read? (text : Bytes) : Option (List Item) := do
  let chars ← chars? (dropMark text)
  if isClean chars then items? (2 * chars.length + 2) chars else none

end LoxLang.Toml
