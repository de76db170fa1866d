import LoxLang.Text.Bytes

/-!
Paths as text.  `clean` gives the shortest equivalent path by its parts alone,
without asking what exists.
-/

namespace LoxLang.Path

def separator : UInt8 := 47

def dot : Bytes := Bytes.ofString "."

def dotDot : Bytes := Bytes.ofString ".."

def isAbsolute (path : Bytes) : Bool :=
  path.head? == some separator

/-- The parts between separators.  Two separators in a row have an empty part
between them. -/
def parts : Bytes → List Bytes
  | [] => [[]]
  | byte :: rest =>
      match parts rest with
      | [] => [[byte]]
      | first :: others => if byte = separator then [] :: first :: others
          else (byte :: first) :: others

def ofParts (parts : List Bytes) : Bytes :=
  [separator].intercalate parts

/-- Add a part to parts in reverse order.  A step up removes the part before
it; at the root it goes nowhere. -/
def addPart (absolute : Bool) (reversed : List Bytes) (part : Bytes) : List Bytes :=
  if part = [] ∨ part = dot then
    reversed
  else if part = dotDot then
    match reversed with
    | [] => if absolute then [] else [dotDot]
    | last :: outer => if last = dotDot then dotDot :: reversed else outer
  else
    part :: reversed

/-- The shortest equivalent path. -/
def clean (path : Bytes) : Bytes :=
  let absolute := isAbsolute path
  let kept := ((parts path).foldl (addPart absolute) []).reverse
  if absolute then
    separator :: ofParts kept
  else if kept.isEmpty then
    dot
  else
    ofParts kept

/-- A path inside a directory, cleaned. -/
def join (directory name : Bytes) : Bytes :=
  if directory.isEmpty then
    if name.isEmpty then [] else clean name
  else
    clean (directory ++ separator :: name)

/-- The path from the root, given the directory that relative paths start
in. -/
def absolute (directory path : Bytes) : Bytes :=
  if isAbsolute path then clean path else join directory path

end LoxLang.Path
