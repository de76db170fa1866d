import LoxLang.Command.Library

/-!
The prompt: lines are entered one by one into one session, and the lines
entered are remembered.  A line ends at a line feed, before which a carriage
return is dropped; a line that exceeds what a reader holds is cut.

The prompt and the programs entered at it read the same input, each by a reader
of its own.
-/

namespace LoxLang.Command

/-- A line as it was read. -/
structure Line where
  text : Bytes
  /-- The line did not fit, and its rest follows as a line of its own. -/
  isCut : Bool
deriving DecidableEq, Repr

def carriageReturn : UInt8 := 13

/-- The next line of an input.  A carriage return at a cut belongs to what
follows, for a line feed may be next. -/
def nextLine? (input : Input) : Option (Line × Input) :=
  let input := if input.held.contains Bytes.lineFeed then input else input.fill
  match input.held.splitLine with
  | (line, some held) =>
      let shown := if line.getLast? = some carriageReturn then line.dropLast else line
      some (⟨shown, false⟩, ⟨held, input.rest⟩)
  | (line, none) =>
      if line.isEmpty then
        none
      else if line.length < Input.blockSize then
        some (⟨line, false⟩, ⟨[], input.rest⟩)
      else if line.getLast? = some carriageReturn then
        some (⟨line.dropLast, true⟩, ⟨[carriageReturn], input.rest⟩)
      else
        some (⟨line, true⟩, ⟨[], input.rest⟩)

/-- The lines of an input, at most `bound` of them. -/
def linesWithin : Nat → Input → List Line
  | 0, _ => []
  | bound + 1, input =>
      match nextLine? input with
      | none => []
      | some (line, input) => line :: linesWithin bound input

def lines (text : Bytes) : List Line :=
  linesWithin text.length (.ofBytes text)

/-- Lines entered before, the latest last. -/
abbrev History := List Bytes

namespace History

/-- How many lines are remembered. -/
def limit : Nat := 1000

def trim (history : History) : History :=
  history.drop (history.length - limit)

/-- Remember a line, unless it repeats the one before it. -/
def remember (history : History) (line : Bytes) : History :=
  if history.getLast? = some line then history else trim (history ++ [line])

/-- A line that is too long or not UTF-8 is not remembered, nor is any after it. -/
def isReadable (line : Line) : Bool :=
  !line.isCut && Utf8.isValid line.text

/-- Read remembered lines, up to one that cannot be read. -/
def ofText (text : Bytes) : History :=
  trim (((lines text).takeWhile isReadable).map Line.text)

def render (history : History) : Bytes :=
  history.flatMap fun line => line ++ [Bytes.lineFeed]

end History

structure Prompt where
  session : Session
  history : History
  /-- What the prompt has taken of the input and not entered yet. -/
  held : Bytes
  /-- The fuel of the execution of a line. -/
  fuel : Nat

/-- What entering a line writes. -/
structure Transcript where
  out : Bytes
  errors : List Piece

namespace Prompt

/-- A code point without a shape makes a prompt text invalid. -/
def isValidText (text : Bytes) : Bool :=
  (Utf8.pieces text).all fun
    | .scalar code => !Text.isShapeless code
    | .stray _ => true

def nextLine? (prompt : Prompt) : Option (Bytes × Prompt) := do
  let session := prompt.session
  let machine := session.machine
  let (line, input) ← Command.nextLine? ⟨prompt.held, machine.input.rest⟩
  let machine := { machine with input := { machine.input with rest := input.rest } }
  return (line.text, { prompt with
    session := { session with machine := machine }
    held := input.held })

/-- Enter one line.  Blank lines are passed over; errors are forgotten after
the line. -/
def enter (prompt : Prompt) (settings : Settings) (channel : Channel) (line : Bytes) :
    Transcript × Prompt :=
  if Text.isBlank line then
    (⟨[], []⟩, prompt)
  else
    let history := prompt.history.remember line
    let (outcome, session) := prompt.session.run prompt.fuel line settings.echo
    let notices := prompt.session.notices line session
    (⟨session.output, notices.flatMap channel.write ++ channel.log
        (.lineDone (outcome == .finished true) session.hadError session.hadRuntimeError)⟩,
      { prompt with session := session.drain.clear, history := history })

/-- Enter lines until the input ends, at most `bound` of them.  The prompt text
is written before each and at the end. -/
def enterWithin (settings : Settings) (channel : Channel) : Nat → Prompt → Transcript × Prompt
  | 0, prompt => (⟨settings.prompt ++ [Bytes.lineFeed], []⟩, prompt)
  | bound + 1, prompt =>
      match prompt.nextLine? with
      | none => (⟨settings.prompt ++ [Bytes.lineFeed], []⟩, prompt)
      | some (line, prompt) =>
          let (first, prompt) := prompt.enter settings channel line
          let (others, prompt) := prompt.enterWithin settings channel bound
          (⟨settings.prompt ++ first.out ++ others.out, first.errors ++ others.errors⟩, prompt)

/-- Enter every line of the input.  Each line takes at least a byte. -/
def enterAll (prompt : Prompt) (settings : Settings) (channel : Channel) : Transcript × Prompt :=
  enterWithin settings channel
    (prompt.held.length + prompt.session.machine.input.rest.length) prompt

end Prompt

end LoxLang.Command
