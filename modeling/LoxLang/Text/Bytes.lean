/-!
Text as the interpreter sees it: a finite list of bytes.  Source, program
output and string values are byte lists, so text that is not UTF-8 passes
through unchanged.
-/

namespace LoxLang

/-- Raw text.  No encoding is assumed. -/
abbrev Bytes := List UInt8

namespace Bytes

def ofString (text : String) : Bytes :=
  text.toUTF8.data.toList

def ofNat (value : Nat) : Bytes :=
  ofString (Nat.repr value)

/-- The decimal digits of an integer, after a minus sign if it is negative. -/
def ofInt : Int → Bytes
  | .ofNat value => ofNat value
  | .negSucc value => ofString "-" ++ ofNat (value + 1)

/-- The line feed byte, which alone ends a line of source. -/
def lineFeed : UInt8 := 10

def lineFeeds (text : Bytes) : Nat :=
  text.count lineFeed

/-- The text up to the first line feed, and what follows it.  The second part
is absent when the text holds no line feed. -/
def splitLine : Bytes → Bytes × Option Bytes
  | [] => ([], none)
  | byte :: rest =>
      if byte = lineFeed then
        ([], some rest)
      else
        let (line, remaining) := splitLine rest
        (byte :: line, remaining)

/-- Remove every trailing byte that satisfies a predicate. -/
def trimEndWhile (drop : UInt8 → Bool) (text : Bytes) : Bytes :=
  (text.reverse.dropWhile drop).reverse

def isDigit (byte : UInt8) : Bool :=
  48 ≤ byte && byte ≤ 57

/-- ASCII letters and the underscore. -/
def isLetter (byte : UInt8) : Bool :=
  (97 ≤ byte && byte ≤ 122) || (65 ≤ byte && byte ≤ 90) || byte == 95

/-- The bytes an identifier may continue with. -/
def isWordByte (byte : UInt8) : Bool :=
  isLetter byte || isDigit byte

end Bytes

end LoxLang
