import LoxLang.Proofs.Token.Join
import LoxLang.Proofs.Token.Longest

/-!
Scanning by index.  The source is read byte by byte at an index that moves along it, and
lexemes are slices of it between two indices.  A byte or slice that does not lie in the source
is no result at all, so that having a result means that nothing outside is ever touched.
The result is that of cutting the source into chunks.
-/

namespace LoxLang

namespace Indexed

namespace Scanner

open Chunk (slash asterisk quote point equalSign)

/-- Where a scanner stands, and what it has found.  `start` is the index at which the chunk
begins that is being read. -/
structure State where
  source : Bytes
  start : Nat
  current : Nat
  line : Nat
  tokens : List Token
  errors : List Diagnostic

abbrev Scanning := StateT State Option

/-- The byte at a distance from the current index. -/
def byteAhead (distance : Nat) : Scanning UInt8 := fun state =>
  state.source[state.current + distance]?.map (·, state)

/-- The bytes of the source from one index up to another. -/
def slice (first last : Nat) : Scanning Bytes := fun state =>
  if first ≤ last ∧ last ≤ state.source.length then
    some ((state.source.take last).drop first, state)
  else
    none

/-- The source is over at a distance from the current index. -/
def endsAt (distance : Nat) : Scanning Bool := fun state =>
  some (state.source.length ≤ state.current + distance, state)

def isAtEnd : Scanning Bool :=
  endsAt 0

def step : Scanning Unit :=
  modify fun state => { state with current := state.current + 1 }

def advance : Scanning UInt8 := do
  let byte ← byteAhead 0
  step
  return byte

/-- The byte ahead, or zero at the end. -/
def peek : Scanning UInt8 := do
  if ← isAtEnd then
    return 0
  else
    byteAhead 0

/-- The byte after the one ahead, or zero if there is none. -/
def peekNext : Scanning UInt8 := do
  if ← endsAt 1 then
    return 0
  else
    byteAhead 1

/-- Take the byte ahead if it is the given one. -/
def accept (byte : UInt8) : Scanning Bool := do
  if ← isAtEnd then
    return false
  else if (← byteAhead 0) = byte then
    step
    return true
  else
    return false

def newLine : Scanning Unit :=
  modify fun state => { state with line := state.line + 1 }

def report (cause : Diagnostic.Cause) : Scanning Unit :=
  modify fun state => { state with errors := state.errors ++ [⟨cause, state.line, .unnamed⟩] }

/-- Add a token whose lexeme is the chunk that was read. -/
def emit (kind : Token.Kind) (literal : Option Literal) : Scanning Unit := do
  let state ← get
  let lexeme ← slice state.start state.current
  modify fun state =>
    { state with tokens := state.tokens ++ [⟨kind, lexeme, literal, state.line⟩] }

/-- A loop.  One that does not end within the given number of rounds has no result. -/
def repeatWhile (goesOn : Scanning Bool) (pass : Scanning Unit) : Nat → Scanning Unit
  | 0 => failure
  | bound + 1 => do
      if ← goesOn then
        pass
        repeatWhile goesOn pass bound
      else
        return ()

/-- More rounds than a loop along the source can have. -/
def rounds : Scanning Nat := fun state =>
  some (state.source.length + 1, state)

def passWhile (test : UInt8 → Bool) : Scanning Unit := do
  repeatWhile (return test (← peek)) (do let _ ← advance) (← rounds)

def lineComment : Scanning Unit := do
  repeatWhile (return (← peek) != Bytes.lineFeed && !(← isAtEnd)) (do let _ ← advance) (← rounds)

def blockCommentFrom : Nat → Scanning Unit
  | 0 => failure
  | bound + 1 => do
      if ← isAtEnd then
        report .unterminatedComment
      else if (← peek) = asterisk ∧ (← peekNext) = slash then
        let _ ← advance
        let _ ← advance
      else
        if (← advance) = Bytes.lineFeed then
          newLine
        blockCommentFrom bound

def blockComment : Scanning Unit := do
  blockCommentFrom (← rounds)

def string : Scanning Unit := do
  repeatWhile (return (← peek) != quote && !(← isAtEnd))
    (do
      if (← peek) = Bytes.lineFeed then
        newLine
      let _ ← advance)
    (← rounds)
  if ← isAtEnd then
    report .unterminatedString
  else
    let _ ← advance
    let state ← get
    let body ← slice (state.start + 1) (state.current - 1)
    emit .string (some (.string body))

def number : Scanning Unit := do
  passWhile Bytes.isDigit
  if (← peek) = point ∧ Bytes.isDigit (← peekNext) then
    let _ ← advance
    passWhile Bytes.isDigit
  let state ← get
  let numeral ← slice state.start state.current
  emit .number ((Number.read? numeral).map Literal.number)

def word : Scanning Unit := do
  passWhile Bytes.isWordByte
  let state ← get
  let text ← slice state.start state.current
  emit (.ofWord text) none

/-- Read one chunk. -/
def scanToken : Scanning Unit := do
  let byte ← advance
  match Chunk.single? byte, Chunk.paired? byte with
  | some kind, _ => emit kind none
  | none, some (alone, joined) =>
      if ← accept equalSign then
        emit joined none
      else
        emit alone none
  | none, none =>
      if byte = slash then
        if ← accept slash then
          lineComment
        else if ← accept asterisk then
          blockComment
        else
          emit .slash none
      else if byte = Bytes.lineFeed then
        newLine
      else if Chunk.isBlank byte then
        return ()
      else if byte = quote then
        string
      else if Bytes.isDigit byte then
        number
      else if Bytes.isLetter byte then
        word
      else
        report .unexpectedCharacter

def beginChunk : Scanning Unit :=
  modify fun state => { state with start := state.current }

def scanFrom : Nat → Scanning Unit
  | 0 => failure
  | bound + 1 => do
      if ← isAtEnd then
        return ()
      else
        beginChunk
        scanToken
        scanFrom bound

end Scanner

/-- Scan source text by index, if no index ever leaves the source. -/
def scan (source : Bytes) : Option Scan := do
  let (_, state) ← Scanner.scanFrom (source.length + 1) ⟨source, 0, 0, 1, [], []⟩
  return ⟨state.tokens ++ [.endOfSource state.line], state.errors⟩

namespace Scanner

open Chunk (slash asterisk quote point equalSign)

/-- The scanner moved to where a source divides into what is read and what is left. -/
def State.moveTo (state : State) (before rest : Bytes) : State :=
  { state with source := before ++ rest, current := before.length }

/-- The scanner some lines further down. -/
def State.moveDown (state : State) (count : Nat) : State :=
  { state with line := state.line + count }

def State.addToken (state : State) (token : Token) : State :=
  { state with tokens := state.tokens ++ [token] }

def State.addError (state : State) (error : Diagnostic) : State :=
  { state with errors := state.errors ++ [error] }

/-- The scanner with what a chunk comes to, on the line where the chunk ends. -/
def State.addChunk (state : State) (chunk : Chunk) : State :=
  let last := state.line + chunk.text.lineFeeds
  { state with
    line := last
    tokens := state.tokens ++ (chunk.token? last).toList
    errors := state.errors ++ (chunk.diagnostic? last).toList }

/-- The scanner behind a chunk that was cut off at some place. -/
def State.pass (state : State) (before : Bytes) (cut : Chunk × Bytes) : State :=
  (state.addChunk cut.1).moveTo (before ++ cut.1.text) cut.2

theorem moveDown_moveDown (state : State) (first second : Nat) :
    (state.moveDown first).moveDown second = state.moveDown (first + second) := by
  simp [State.moveDown, Nat.add_assoc]

theorem lineFeeds_append (first second : Bytes) :
    Bytes.lineFeeds (first ++ second) = first.lineFeeds + second.lineFeeds :=
  List.count_append

theorem lineFeeds_of_ne {byte : UInt8} (other : byte ≠ Bytes.lineFeed) :
    Bytes.lineFeeds [byte] = 0 :=
  List.count_eq_zero.mpr fun member => other (List.mem_singleton.mp member).symm

theorem lineFeeds_of_quiet {test : UInt8 → Bool} {text : Bytes} (quiet : test Bytes.lineFeed = false)
    (passes : ∀ byte ∈ text, test byte = true) : Bytes.lineFeeds text = 0 := by
  refine List.count_eq_zero.mpr fun member => ?_
  have passed := passes _ member
  rw [quiet] at passed
  cases passed

theorem filterMap_cons_toList {α β : Type} (choose : α → Option β) (first : α) (rest : List α) :
    (first :: rest).filterMap choose = (choose first).toList ++ rest.filterMap choose := by
  rw [List.filterMap_cons]
  cases choose first <;> rfl

theorem literal?_of_plain {kind : Token.Kind} (text : Bytes)
    (plain : kind ≠ .string ∧ kind ≠ .number) : Chunk.literal? kind text = none := by
  unfold Chunk.literal?
  split
  · exact absurd rfl plain.1
  · exact absurd rfl plain.2
  · rfl

theorem literal?_of_ofWord (word : Bytes) : Chunk.literal? (.ofWord word) word = none := by
  have words : ∀ entry ∈ Token.Kind.reserved, entry.2 ≠ .string ∧ entry.2 ≠ .number := by decide
  refine literal?_of_plain word ?_
  unfold Token.Kind.ofWord
  split
  · next entry found => exact words entry (List.mem_of_find?_eq_some found)
  · decide

theorem plain_of_single? {byte : UInt8} {kind : Token.Kind} (single : Chunk.single? byte = some kind) :
    (kind ≠ .string ∧ kind ≠ .number) ∧ byte ≠ Bytes.lineFeed := by
  refine ⟨?_, ?_⟩
  · unfold Chunk.single? at single
    split at single <;> cases single <;> decide
  · rintro rfl
    cases single

theorem plain_of_paired? {byte : UInt8} {alone joined : Token.Kind}
    (paired : Chunk.paired? byte = some (alone, joined)) :
    (alone ≠ .string ∧ alone ≠ .number) ∧ (joined ≠ .string ∧ joined ≠ .number) ∧
      byte ≠ Bytes.lineFeed := by
  refine ⟨?_, ?_, ?_⟩
  · unfold Chunk.paired? at paired
    split at paired <;> cases paired <;> decide
  · unfold Chunk.paired? at paired
    split at paired <;> cases paired <;> decide
  · rintro rfl
    cases paired

section Steps

variable (state : State) (before rest : Bytes) (byte : UInt8)

theorem bind_of_some {α β : Type} {action : Scanning α} {value : α} {start after : State}
    (next : α → Scanning β) (result : action start = some (value, after)) :
    (action >>= next) start = next value after := by
  simp only [Bind.bind, StateT.bind, result, Option.bind]

theorem get_bind {β : Type} (next : State → Scanning β) :
    (get >>= next) state = next state state := rfl

theorem byteAhead_moveTo (distance : Nat) : byteAhead distance (state.moveTo before rest) =
    rest[distance]?.map (·, state.moveTo before rest) := by
  simp [byteAhead, State.moveTo, List.getElem?_append_right]

theorem endsAt_moveTo (distance : Nat) : endsAt distance (state.moveTo before rest) =
    some (decide (rest.length ≤ distance), state.moveTo before rest) := by
  simp [endsAt, State.moveTo]

theorem step_moveTo : step (state.moveTo before (byte :: rest)) =
    some ((), state.moveTo (before ++ [byte]) rest) := by
  simp [step, State.moveTo, modify, modifyGet, MonadStateOf.modifyGet, StateT.modifyGet]

theorem isAtEnd_moveTo :
    isAtEnd (state.moveTo before rest) = some (rest.isEmpty, state.moveTo before rest) := by
  rw [isAtEnd, endsAt_moveTo]
  cases rest <;> rfl

theorem advance_moveTo : advance (state.moveTo before (byte :: rest)) =
    some (byte, state.moveTo (before ++ [byte]) rest) := by
  rw [advance, bind_of_some _ (byteAhead_moveTo state before (byte :: rest) 0),
    bind_of_some _ (step_moveTo state before rest byte)]
  rfl

theorem peek_moveTo :
    peek (state.moveTo before rest) = some (rest.headD 0, state.moveTo before rest) := by
  rw [peek, bind_of_some _ (isAtEnd_moveTo state before rest)]
  cases rest with
  | nil => rfl
  | cons byte rest => exact byteAhead_moveTo state before (byte :: rest) 0

theorem peekNext_moveTo : peekNext (state.moveTo before rest) =
    some (rest.tail.headD 0, state.moveTo before rest) := by
  rw [peekNext, bind_of_some _ (endsAt_moveTo state before rest 1)]
  rcases rest with _ | ⟨first, _ | ⟨second, rest⟩⟩
  · rfl
  · rfl
  · exact byteAhead_moveTo state before (first :: second :: rest) 1

theorem accept_of_eq : accept byte (state.moveTo before (byte :: rest)) =
    some (true, state.moveTo (before ++ [byte]) rest) := by
  rw [accept, bind_of_some _ (isAtEnd_moveTo ..)]
  simp only [List.isEmpty_cons, Bool.false_eq_true, if_false]
  rw [bind_of_some _ (byteAhead_moveTo state before (byte :: rest) 0), if_pos rfl,
    bind_of_some _ (step_moveTo state before rest byte)]
  rfl

theorem accept_of_ne (other : rest.head? ≠ some byte) :
    accept byte (state.moveTo before rest) = some (false, state.moveTo before rest) := by
  rw [accept, bind_of_some _ (isAtEnd_moveTo ..)]
  cases rest with
  | nil => rfl
  | cons first rest =>
      have differs : first ≠ byte := fun same => other (congrArg some same)
      simp only [List.isEmpty_cons, Bool.false_eq_true, if_false]
      rw [bind_of_some _ (byteAhead_moveTo state before (first :: rest) 0), if_neg differs]
      rfl

/-- A slice between two indices that lie in order before the current one. -/
theorem slice_moveTo (first middle last : Bytes) :
    slice first.length (first ++ middle).length (state.moveTo (first ++ middle ++ last) rest) =
      some (middle, state.moveTo (first ++ middle ++ last) rest) := by
  have inside : first.length ≤ (first ++ middle).length ∧
      (first ++ middle).length ≤ (first ++ middle ++ last ++ rest).length := by
    simp only [List.length_append]
    omega
  have taken : ((first ++ middle ++ last ++ rest).take (first ++ middle).length).drop
      first.length = middle := by
    rw [List.append_assoc (first ++ middle), List.take_left, List.drop_left]
  exact (if_pos inside).trans (by simp only [State.moveTo, taken])

/-- The token of a chunk that begins at `start` and ends at the current index. -/
theorem emit_moveTo (kind : Token.Kind) (literal : Option Literal) (text : Bytes)
    (start : state.start = before.length) :
    emit kind literal (state.moveTo (before ++ text) rest) =
      some ((), (state.addToken ⟨kind, text, literal, state.line⟩).moveTo (before ++ text) rest) := by
  have sliced := slice_moveTo state rest before text []
  rw [List.append_nil, ← start] at sliced
  rw [emit, get_bind]
  exact bind_of_some _ sliced

/-- A loop over the bytes that pass a test, which counts the lines that end in them. -/
theorem repeatWhile_moveTo {goesOn : Scanning Bool} {pass : Scanning Unit} {test : UInt8 → Bool}
    (goes : ∀ (state : State) (before rest : Bytes), goesOn (state.moveTo before rest) =
      some (rest.head?.any test, state.moveTo before rest))
    (passes : ∀ (state : State) (before : Bytes) (byte : UInt8) (rest : Bytes), test byte = true →
      pass (state.moveTo before (byte :: rest)) =
        some ((), (state.moveDown (Bytes.lineFeeds [byte])).moveTo (before ++ [byte]) rest))
    {bound : Nat} (enough : rest.length < bound) :
    repeatWhile goesOn pass bound (state.moveTo before rest) =
      some ((), (state.moveDown (Bytes.lineFeeds (rest.takeWhile test))).moveTo
        (before ++ rest.takeWhile test) (rest.dropWhile test)) := by
  induction rest generalizing state before bound with
  | nil =>
      cases bound with
      | zero => exact absurd enough (Nat.not_lt_zero _)
      | succ bound =>
          rw [repeatWhile, bind_of_some _ (goes state before []), List.takeWhile_nil,
            List.append_nil]
          rfl
  | cons byte rest inductionHypothesis =>
      cases bound with
      | zero => exact absurd enough (Nat.not_lt_zero _)
      | succ bound =>
          rw [repeatWhile, bind_of_some _ (goes state before (byte :: rest))]
          cases passed : test byte with
          | false =>
              simp only [List.head?_cons, Option.any_some, passed, Bool.false_eq_true, if_false,
                List.takeWhile_cons, List.dropWhile_cons, List.append_nil]
              rfl
          | true =>
              have fewer : rest.length < bound := Nat.lt_of_succ_lt_succ enough
              simp only [List.head?_cons, Option.any_some, passed, if_true]
              rw [bind_of_some _ (passes state before byte rest passed),
                inductionHypothesis _ _ fewer, moveDown_moveDown, ← lineFeeds_append,
                List.takeWhile_cons_of_pos passed, List.dropWhile_cons_of_pos passed,
                List.append_assoc]
              rfl

theorem rounds_moveTo : rounds (state.moveTo before rest) =
    some ((before ++ rest).length + 1, state.moveTo before rest) := rfl

theorem lt_rounds : rest.length < (before ++ rest).length + 1 := by
  rw [List.length_append]
  omega

theorem advance_quietly (other : byte ≠ Bytes.lineFeed) :
    (do let _ ← advance) (state.moveTo before (byte :: rest)) =
      some ((), (state.moveDown (Bytes.lineFeeds [byte])).moveTo (before ++ [byte]) rest) := by
  rw [bind_of_some _ (advance_moveTo state before rest byte), lineFeeds_of_ne other]
  rfl

/-- A loop over bytes none of which ends a line. -/
theorem repeatQuietly_moveTo {goesOn : Scanning Bool} {test : UInt8 → Bool}
    (quiet : test Bytes.lineFeed = false)
    (goes : ∀ (state : State) (before rest : Bytes), goesOn (state.moveTo before rest) =
      some (rest.head?.any test, state.moveTo before rest)) :
    repeatWhile goesOn (do let _ ← advance) ((before ++ rest).length + 1)
        (state.moveTo before rest) =
      some ((), state.moveTo (before ++ rest.takeWhile test) (rest.dropWhile test)) := by
  have other {byte : UInt8} (passed : test byte = true) : byte ≠ Bytes.lineFeed := by
    rintro rfl
    rw [quiet] at passed
    cases passed
  have sameLine : Bytes.lineFeeds (rest.takeWhile test) = 0 :=
    lineFeeds_of_quiet quiet fun _ => List.mem_takeWhile_imp
  rw [repeatWhile_moveTo state before rest goes
      (fun state before byte rest passed => advance_quietly state before rest byte (other passed))
      (lt_rounds before rest), sameLine]
  rfl

theorem passWhile_moveTo {test : UInt8 → Bool} (ends : test 0 = false)
    (quiet : test Bytes.lineFeed = false) :
    passWhile test (state.moveTo before rest) =
      some ((), state.moveTo (before ++ rest.takeWhile test) (rest.dropWhile test)) := by
  rw [passWhile, bind_of_some _ (rounds_moveTo state before rest)]
  refine repeatQuietly_moveTo state before rest quiet fun state before rest => ?_
  rw [bind_of_some _ (peek_moveTo state before rest)]
  cases rest with
  | nil => exact congrArg (fun goesOn => some (goesOn, _)) ends
  | cons byte rest => rfl

/-- What stands ahead is there and is not the byte at which a loop ends. -/
theorem unless_moveTo (stop : UInt8) :
    (do return (← peek) != stop && !(← isAtEnd) : Scanning Bool) (state.moveTo before rest) =
      some (rest.head?.any (· != stop), state.moveTo before rest) := by
  rw [bind_of_some _ (peek_moveTo state before rest),
    bind_of_some _ (isAtEnd_moveTo state before rest)]
  cases rest with
  | nil => exact congrArg (fun goesOn => some (goesOn, _)) (Bool.and_false _)
  | cons byte rest => exact congrArg (fun goesOn => some (goesOn, _)) (Bool.and_true _)

theorem lineComment_moveTo : lineComment (state.moveTo before rest) =
    some ((), state.moveTo (before ++ rest.takeWhile (· != Bytes.lineFeed))
      (rest.dropWhile (· != Bytes.lineFeed))) := by
  rw [lineComment, bind_of_some _ (rounds_moveTo state before rest)]
  exact repeatQuietly_moveTo state before rest (by decide) (unless_moveTo · · · Bytes.lineFeed)

/-- The scanner behind a block comment. -/
def State.afterComment (state : State) (before : Bytes) : Bytes × Option Bytes → State
  | (body, some remaining) =>
      (state.moveDown (Bytes.lineFeeds body)).moveTo (before ++ body) remaining
  | (body, none) =>
      ((state.moveDown (Bytes.lineFeeds body)).addError
        ⟨.unterminatedComment, state.line + Bytes.lineFeeds body, .unnamed⟩).moveTo (before ++ body) []

theorem afterComment_cons (parts : Bytes × Option Bytes) :
    (state.moveDown (Bytes.lineFeeds [byte])).afterComment (before ++ [byte]) parts =
      state.afterComment before (byte :: parts.1, parts.2) := by
  have lines := lineFeeds_append [byte] parts.1
  obtain ⟨body, remaining⟩ := parts
  dsimp only at lines
  cases remaining with
  | none =>
      simp only [State.afterComment, moveDown_moveDown, ← lines, List.append_assoc]
      simp only [State.moveDown, Nat.add_assoc, ← lines]
      rfl
  | some remaining =>
      simp only [State.afterComment, moveDown_moveDown, ← lines, List.append_assoc]
      rfl

theorem commentBody_cons (goesOn : ¬(byte = asterisk ∧ rest.headD 0 = slash)) :
    Chunk.commentBody (byte :: rest) =
      (byte :: (Chunk.commentBody rest).1, (Chunk.commentBody rest).2) := by
  cases rest with
  | nil => rfl
  | cons second rest => exact if_neg goesOn

theorem blockCommentFrom_moveTo {bound : Nat} (enough : rest.length < bound) :
    blockCommentFrom bound (state.moveTo before rest) =
      some ((), state.afterComment before (Chunk.commentBody rest)) := by
  induction bound generalizing state before rest with
  | zero => exact absurd enough (Nat.not_lt_zero _)
  | succ bound inductionHypothesis =>
      rw [blockCommentFrom, bind_of_some _ (isAtEnd_moveTo state before rest)]
      cases rest with
      | nil =>
          rw [Chunk.commentBody, State.afterComment, List.append_nil]
          rfl
      | cons byte rest =>
          have fewer : rest.length < bound := Nat.lt_of_succ_lt_succ enough
          simp only [List.isEmpty_cons, Bool.false_eq_true, if_false]
          rw [bind_of_some _ (peek_moveTo state before (byte :: rest)),
            bind_of_some _ (peekNext_moveTo state before (byte :: rest)), List.headD_cons, List.tail_cons]
          split
          · next closes =>
              obtain ⟨rfl, isSlash⟩ := closes
              cases rest with
              | nil => exact absurd isSlash (by decide)
              | cons second rest =>
                  obtain rfl : second = slash := isSlash
                  rw [bind_of_some _ (advance_moveTo state before (slash :: rest) asterisk),
                    bind_of_some _ (advance_moveTo state (before ++ [asterisk]) rest slash),
                    List.append_assoc]
                  rfl
          · next goesOn =>
              rw [bind_of_some _ (advance_moveTo state before rest byte), commentBody_cons _ _ goesOn,
                ← afterComment_cons, ← inductionHypothesis _ _ rest fewer]
              split
              · next isLineFeed =>
                  subst isLineFeed
                  rfl
              · next other =>
                  rw [lineFeeds_of_ne other]
                  rfl

theorem blockComment_moveTo : blockComment (state.moveTo before rest) =
    some ((), state.afterComment before (Chunk.commentBody rest)) := by
  rw [blockComment, bind_of_some _ (rounds_moveTo state before rest),
    blockCommentFrom_moveTo state before rest (lt_rounds before rest)]

/-- A string is read over any number of lines. -/
theorem stringBody_moveTo :
    repeatWhile (do return (← peek) != quote && !(← isAtEnd))
        (do
          if (← peek) = Bytes.lineFeed then
            newLine
          let _ ← advance)
        ((before ++ rest).length + 1) (state.moveTo before rest) =
      some ((), (state.moveDown (Bytes.lineFeeds (rest.takeWhile (· != quote)))).moveTo
        (before ++ rest.takeWhile (· != quote)) (rest.dropWhile (· != quote))) := by
  refine repeatWhile_moveTo state before rest (unless_moveTo · · · quote)
    (fun state before byte rest _ => ?_) (lt_rounds before rest)
  rw [bind_of_some _ (peek_moveTo state before (byte :: rest)), List.headD_cons]
  split
  · next isLineFeed =>
      subst isLineFeed
      have moved : newLine (state.moveTo before (Bytes.lineFeed :: rest)) =
        some ((), (state.moveDown 1).moveTo before (Bytes.lineFeed :: rest)) := rfl
      exact (bind_of_some _ moved).trans
        (bind_of_some _ (advance_moveTo (state.moveDown 1) before rest Bytes.lineFeed))
  · next other =>
      rw [lineFeeds_of_ne other]
      exact bind_of_some _ (advance_moveTo state before rest byte)

/-- A token that ends on the line on which it begins. -/
theorem pass_token {kind : Token.Kind} {text : Bytes} (sameLine : Bytes.lineFeeds text = 0) :
    state.pass before (⟨.token kind, text⟩, rest) =
      (state.addToken ⟨kind, text, Chunk.literal? kind text, state.line⟩).moveTo
        (before ++ text) rest := by
  simp only [State.pass, State.addChunk, sameLine, Nat.add_zero, Chunk.token?, Chunk.diagnostic?,
    Option.toList, List.append_nil]
  rfl

theorem string_moveTo (start : state.start = before.length) :
    string (state.moveTo (before ++ [quote]) rest) =
      some ((), state.pass before (Chunk.cutString rest)) := by
  rw [string, bind_of_some _ (rounds_moveTo state (before ++ [quote]) rest),
    bind_of_some _ (stringBody_moveTo state (before ++ [quote]) rest),
    bind_of_some _ (isAtEnd_moveTo ..), Chunk.cutString]
  have stops := List.head?_dropWhile_not (· != quote) rest
  revert stops
  generalize rest.takeWhile (· != quote) = body
  have opening : Bytes.lineFeeds (quote :: body) = Bytes.lineFeeds body := by
    rw [Bytes.lineFeeds, List.count_cons_of_ne (by decide)]
    rfl
  cases rest.dropWhile (· != quote) with
  | nil =>
      intro _
      simp only [State.pass, State.addChunk, opening, Chunk.token?, Chunk.diagnostic?,
        Option.toList, List.append_nil, List.append_assoc]
      rfl
  | cons closing remaining =>
      intro stops
      obtain rfl : closing = quote := by simpa using stops
      have lines : Bytes.lineFeeds (quote :: body ++ [quote]) = Bytes.lineFeeds body := by
        rw [lineFeeds_append, opening, lineFeeds_of_ne (by decide), Nat.add_zero]
      have literal : Chunk.literal? .string (quote :: body ++ [quote]) = some (.string body) := by
        simp [Chunk.literal?]
      have sliced := slice_moveTo (state.moveDown (Bytes.lineFeeds body)) remaining
        (before ++ [quote]) body [quote]
      have first : (before ++ [quote]).length = state.start + 1 := by
        rw [start, List.length_append, List.length_singleton]
      have last : (before ++ [quote] ++ body).length =
          (before ++ [quote] ++ body ++ [quote]).length - 1 := by
        simp only [List.length_append, List.length_singleton, Nat.add_sub_cancel]
      have whole : before ++ [quote] ++ body ++ [quote] =
          before ++ (quote :: body ++ [quote]) := by simp
      rw [first, last] at sliced
      simp only [List.isEmpty_cons, Bool.false_eq_true, if_false]
      rw [bind_of_some _ (advance_moveTo ..), get_bind]
      refine (bind_of_some _ sliced).trans ?_
      rw [whole, emit_moveTo (state.moveDown (Bytes.lineFeeds body)) before remaining .string
        _ _ start]
      simp only [State.pass, State.addChunk, lines, Chunk.token?, Chunk.diagnostic?, literal,
        Option.toList, List.append_nil]
      rfl

/-- A token whose lexeme is read from its first byte on. -/
theorem slice_emit_moveTo {kind : Bytes → Token.Kind} {text : Bytes}
    {literal : Bytes → Option Literal} (start : state.start = before.length)
    (same : literal text = Chunk.literal? (kind text) text) (sameLine : Bytes.lineFeeds text = 0) :
    (do
      let state ← get
      let lexeme ← slice state.start state.current
      emit (kind lexeme) (literal lexeme)) (state.moveTo (before ++ text) rest) =
      some ((), state.pass before (⟨.token (kind text), text⟩, rest)) := by
  have sliced := slice_moveTo state rest before text []
  rw [List.append_nil, ← start] at sliced
  rw [get_bind]
  refine (bind_of_some _ sliced).trans ?_
  rw [emit_moveTo state before rest (kind text) (literal text) text start,
    pass_token state before rest sameLine, same]

theorem passDigits_moveTo : passWhile Bytes.isDigit (state.moveTo before rest) =
    some ((), state.moveTo (before ++ rest.takeWhile Bytes.isDigit)
      (rest.dropWhile Bytes.isDigit)) :=
  passWhile_moveTo state before rest (by decide) (by decide)

theorem number_moveTo (start : state.start = before.length)
    (digit : Bytes.isDigit byte = true) :
    number (state.moveTo (before ++ [byte]) rest) =
      some ((), state.pass before (Chunk.cutNumber (byte :: rest))) := by
  have taken : before ++ [byte] ++ rest.takeWhile Bytes.isDigit =
      before ++ (byte :: rest).takeWhile Bytes.isDigit := by
    rw [List.takeWhile_cons_of_pos digit, List.append_assoc]
    rfl
  have dropped : (byte :: rest).dropWhile Bytes.isDigit = rest.dropWhile Bytes.isDigit :=
    List.dropWhile_cons_of_pos digit
  have quiet (text : Bytes) : Bytes.lineFeeds (text.takeWhile Bytes.isDigit) = 0 :=
    lineFeeds_of_quiet (by decide) fun _ => List.mem_takeWhile_imp
  rw [number, bind_of_some _ (passDigits_moveTo ..), taken, bind_of_some _ (peek_moveTo ..)]
  rcases Chunk.cutNumber_cases (byte :: rest) with ⟨next, more, after, isDigit, cut⟩ | ⟨none_, cut⟩
  · have fractionTaken : before ++ (byte :: rest).takeWhile Bytes.isDigit ++ [point] ++
        (next :: more).takeWhile Bytes.isDigit = before ++ ((byte :: rest).takeWhile Bytes.isDigit ++
          point :: (next :: more).takeWhile Bytes.isDigit) := by
      simp only [List.append_assoc, List.singleton_append]
    have sameLine : Bytes.lineFeeds ((byte :: rest).takeWhile Bytes.isDigit ++
        point :: (next :: more).takeWhile Bytes.isDigit) = 0 := by
      rw [lineFeeds_append, quiet, Nat.zero_add, Bytes.lineFeeds,
        List.count_cons_of_ne (by decide)]
      exact quiet (next :: more)
    rw [← dropped, after, cut, bind_of_some _ (peekNext_moveTo ..), if_pos ⟨rfl, isDigit⟩,
      bind_of_some _ (advance_moveTo ..), bind_of_some _ (passDigits_moveTo ..), fractionTaken]
    exact slice_emit_moveTo state before _ start rfl sameLine
  · have noFraction : ¬((rest.dropWhile Bytes.isDigit).headD 0 = point ∧
        Bytes.isDigit ((rest.dropWhile Bytes.isDigit).tail.headD 0) = true) := by
      rw [← dropped]
      cases ahead : (byte :: rest).dropWhile Bytes.isDigit with
      | nil => decide
      | cons mark remaining =>
          rintro ⟨rfl, isDigit⟩
          cases remaining with
          | nil => exact absurd isDigit (by decide)
          | cons next more =>
              rw [List.tail_cons, List.headD_cons, none_ next more ahead] at isDigit
              cases isDigit
    rw [bind_of_some _ (peekNext_moveTo ..), if_neg noFraction, cut, dropped]
    exact slice_emit_moveTo state before _ start rfl (quiet (byte :: rest))

theorem word_moveTo (start : state.start = before.length)
    (letter : Bytes.isLetter byte = true) :
    word (state.moveTo (before ++ [byte]) rest) =
      some ((), state.pass before (Chunk.cutWord (byte :: rest))) := by
  have isWordByte : Bytes.isWordByte byte = true := by rw [Bytes.isWordByte, letter, Bool.true_or]
  have taken : before ++ [byte] ++ rest.takeWhile Bytes.isWordByte =
      before ++ (byte :: rest).takeWhile Bytes.isWordByte := by
    rw [List.takeWhile_cons_of_pos isWordByte, List.append_assoc]
    rfl
  have sameLine : Bytes.lineFeeds ((byte :: rest).takeWhile Bytes.isWordByte) = 0 :=
    lineFeeds_of_quiet (by decide) fun _ => List.mem_takeWhile_imp
  have noLiteral := (literal?_of_ofWord ((byte :: rest).takeWhile Bytes.isWordByte)).symm
  rw [word, bind_of_some _ (passWhile_moveTo state _ rest (by decide) (by decide)), taken,
    Chunk.cutWord, List.dropWhile_cons_of_pos isWordByte]
  exact slice_emit_moveTo state before _ start noLiteral sameLine

/-- What is passed over on one line leaves no trace. -/
theorem pass_silent {shape : Chunk.Shape} {text : Bytes} (silent : shape = .blank ∨ shape = .comment)
    (sameLine : Bytes.lineFeeds text = 0) :
    state.pass before (⟨shape, text⟩, rest) = state.moveTo (before ++ text) rest := by
  rcases silent with rfl | rfl
  · simp only [State.pass, State.addChunk, sameLine, Nat.add_zero, Chunk.token?,
      Chunk.diagnostic?, Option.toList, List.append_nil]
  · simp only [State.pass, State.addChunk, sameLine, Nat.add_zero, Chunk.token?,
      Chunk.diagnostic?, Option.toList, List.append_nil]

theorem newLine_moveTo : newLine (state.moveTo (before ++ [Bytes.lineFeed]) rest) =
    some ((), state.pass before (⟨.blank, [Bytes.lineFeed]⟩, rest)) := by
  simp only [State.pass, State.addChunk, Chunk.token?, Chunk.diagnostic?, Option.toList,
    List.append_nil]
  rfl

theorem pass_comment (start : Bytes) (sameLine : Bytes.lineFeeds start = 0) :
    state.pass before (match Chunk.commentBody rest with
      | (body, some remaining) => (⟨.comment, start ++ body⟩, remaining)
      | (body, none) => (⟨.openComment, start ++ body⟩, [])) =
      state.afterComment (before ++ start) (Chunk.commentBody rest) := by
  obtain ⟨body, remaining⟩ := Chunk.commentBody rest
  have lines : Bytes.lineFeeds (start ++ body) = Bytes.lineFeeds body := by
    rw [lineFeeds_append, sameLine, Nat.zero_add]
  cases remaining with
  | none =>
      simp only [State.pass, State.addChunk, State.afterComment, lines, Chunk.token?,
        Chunk.diagnostic?, Option.toList, List.append_nil, List.append_assoc]
      rfl
  | some remaining =>
      simp only [State.pass, State.addChunk, State.afterComment, lines, Chunk.token?,
        Chunk.diagnostic?, Option.toList, List.append_nil, List.append_assoc]
      rfl

theorem emit_alone {kind : Token.Kind} (start : state.start = before.length)
    (plain : kind ≠ .string ∧ kind ≠ .number) (other : byte ≠ Bytes.lineFeed) :
    emit kind none (state.moveTo (before ++ [byte]) rest) =
      some ((), state.pass before (⟨.token kind, [byte]⟩, rest)) := by
  rw [emit_moveTo state before rest kind none [byte] start,
    pass_token state before rest (lineFeeds_of_ne other), literal?_of_plain _ plain]

theorem slash_moveTo (start : state.start = before.length) :
    (do
      if ← accept slash then
        lineComment
      else if ← accept asterisk then
        blockComment
      else
        emit .slash none) (state.moveTo (before ++ [slash]) rest) =
      some ((), state.pass before (Chunk.cutSlash rest)) := by
  by_cases isSlash : rest.head? = some slash
  · obtain ⟨after, rfl⟩ := List.head?_eq_some_iff.mp isSlash
    have quiet : Bytes.lineFeeds (after.takeWhile (· != Bytes.lineFeed)) = 0 :=
      @lineFeeds_of_quiet (· != Bytes.lineFeed) _ (by decide) fun _ => List.mem_takeWhile_imp
    have sameLine : Bytes.lineFeeds (slash :: slash :: after.takeWhile (· != Bytes.lineFeed)) = 0 :=
      (lineFeeds_append [slash, slash] _).trans ((Nat.zero_add _).trans quiet)
    rw [bind_of_some _ (accept_of_eq ..)]
    refine (lineComment_moveTo ..).trans ?_
    rw [Chunk.cutSlash, if_pos rfl, pass_silent state before _ (.inr rfl) sameLine]
    simp only [List.append_assoc]
    rfl
  · rw [bind_of_some _ (accept_of_ne _ _ _ _ isSlash)]
    by_cases isAsterisk : rest.head? = some asterisk
    · obtain ⟨after, rfl⟩ := List.head?_eq_some_iff.mp isAsterisk
      have cut := pass_comment state before after [slash, asterisk] (by decide)
      have other : asterisk ≠ slash := by decide
      simp only [Bool.false_eq_true, if_false]
      rw [bind_of_some _ (accept_of_eq ..), Chunk.cutSlash, if_neg other, if_pos rfl]
      refine (blockComment_moveTo ..).trans ?_
      rw [List.append_assoc]
      exact congrArg (fun after => some ((), after)) cut.symm
    · have cut : Chunk.cutSlash rest = (⟨.token .slash, [slash]⟩, rest) := by
        cases rest with
        | nil => rfl
        | cons second after =>
            have notSlash : second ≠ slash := fun same => isSlash (congrArg some same)
            have notAsterisk : second ≠ asterisk := fun same => isAsterisk (congrArg some same)
            rw [Chunk.cutSlash, if_neg notSlash, if_neg notAsterisk]
      simp only [Bool.false_eq_true, if_false]
      rw [bind_of_some _ (accept_of_ne _ _ _ _ isAsterisk), cut]
      exact emit_alone state before rest slash start (by decide) (by decide)

theorem paired_moveTo {alone joined : Token.Kind} (start : state.start = before.length)
    (plainAlone : alone ≠ .string ∧ alone ≠ .number)
    (plainJoined : joined ≠ .string ∧ joined ≠ .number) (other : byte ≠ Bytes.lineFeed) :
    (do
      if ← accept equalSign then
        emit joined none
      else
        emit alone none) (state.moveTo (before ++ [byte]) rest) =
      some ((), state.pass before (match rest with
        | [] => (⟨.token alone, [byte]⟩, [])
        | second :: after =>
            if second = equalSign then
              (⟨.token joined, [byte, second]⟩, after)
            else
              (⟨.token alone, [byte]⟩, rest))) := by
  by_cases isEqual : rest.head? = some equalSign
  · obtain ⟨after, rfl⟩ := List.head?_eq_some_iff.mp isEqual
    have sameLine : Bytes.lineFeeds [byte, equalSign] = 0 := by
      rw [Bytes.lineFeeds, List.count_cons_of_ne other]
      rfl
    rw [bind_of_some _ (accept_of_eq ..), if_pos rfl, List.append_assoc]
    refine (emit_moveTo state before after joined none [byte, equalSign] start).trans ?_
    rw [← literal?_of_plain [byte, equalSign] plainJoined,
      ← pass_token state before after sameLine]
    rfl
  · rw [bind_of_some _ (accept_of_ne _ _ _ _ isEqual)]
    refine (emit_alone state before rest byte start plainAlone other).trans ?_
    cases rest with
    | nil => rfl
    | cons second after =>
        have notEqual : second ≠ equalSign := fun same => isEqual (congrArg some same)
        dsimp only
        rw [if_neg notEqual]

theorem scanToken_moveTo (start : state.start = before.length) :
    scanToken (state.moveTo before (byte :: rest)) =
      some ((), state.pass before (Chunk.cut byte rest)) := by
  rw [scanToken, bind_of_some _ (advance_moveTo state before rest byte), Chunk.cut]
  cases single : Chunk.single? byte with
  | some kind =>
      obtain ⟨plain, other⟩ := plain_of_single? single
      exact emit_alone state before rest byte start plain other
  | none =>
      cases paired : Chunk.paired? byte with
      | some kinds =>
          obtain ⟨alone, joined⟩ := kinds
          obtain ⟨plainAlone, plainJoined, other⟩ := plain_of_paired? paired
          exact paired_moveTo state before rest byte start plainAlone plainJoined other
      | none =>
          dsimp only
          split
          · next isSlash =>
              subst isSlash
              exact slash_moveTo state before rest start
          · split
            · next isLineFeed =>
                subst isLineFeed
                have blank : Chunk.isBlank Bytes.lineFeed = true := rfl
                rw [if_pos blank]
                exact newLine_moveTo state before rest
            · next other =>
                split
                · rw [pass_silent state before rest (.inl rfl) (lineFeeds_of_ne other)]
                  rfl
                · split
                  · next isQuote =>
                      subst isQuote
                      exact string_moveTo state before rest start
                  · split
                    · next digit => exact number_moveTo state before rest byte start digit
                    · split
                      · next letter => exact word_moveTo state before rest byte start letter
                      · simp only [State.pass, State.addChunk, lineFeeds_of_ne other,
                          Chunk.token?, Option.toList, List.append_nil]
                        rfl

/-- From a chunk boundary on, reading gives what the chunks ahead come to. -/
theorem scanFrom_moveTo {bound : Nat} (enough : rest.length < bound) :
    ∃ last, scanFrom bound (state.moveTo before rest) = some ((), last) ∧
      last.line = state.line + Bytes.lineFeeds rest ∧
      last.tokens = state.tokens ++ (Chunk.withLines state.line (chunks rest)).filterMap
        (fun (line, chunk) => chunk.token? line) ∧
      last.errors = state.errors ++ (Chunk.withLines state.line (chunks rest)).filterMap
        (fun (line, chunk) => chunk.diagnostic? line) := by
  induction bound generalizing state before rest with
  | zero => exact absurd enough (Nat.not_lt_zero _)
  | succ bound inductionHypothesis =>
      rw [scanFrom, bind_of_some _ (isAtEnd_moveTo state before rest)]
      cases rest with
      | nil =>
          exact ⟨state.moveTo before [], rfl, rfl, by simp [chunks, Chunk.withLines, State.moveTo],
            by simp [chunks, Chunk.withLines, State.moveTo]⟩
      | cons byte rest =>
          have whole := Chunk.cut_append byte rest
          have shorter : (Chunk.cut byte rest).2.length < bound :=
            Nat.lt_of_lt_of_le (Chunk.cut_length_lt byte rest) (Nat.le_of_lt_succ enough)
          have lines := lineFeeds_append (Chunk.cut byte rest).1.text (Chunk.cut byte rest).2
          rw [whole] at lines
          have begun : beginChunk (state.moveTo before (byte :: rest)) =
            some ((), { state with start := before.length }.moveTo before (byte :: rest)) := rfl
          have cut := scanToken_moveTo { state with start := before.length } before rest byte rfl
          obtain ⟨last, scanned, line, tokens, errors⟩ := inductionHypothesis
            ({ state with start := before.length }.addChunk (Chunk.cut byte rest).1)
            (before ++ (Chunk.cut byte rest).1.text) (Chunk.cut byte rest).2 shorter
          simp only [List.isEmpty_cons, Bool.false_eq_true, if_false]
          rw [bind_of_some _ begun, bind_of_some _ cut]
          refine ⟨last, scanned, ?_, ?_, ?_⟩
          · rw [line, lines, ← Nat.add_assoc]
            rfl
          · rw [tokens, chunks, Chunk.withLines, filterMap_cons_toList, ← List.append_assoc]
            rfl
          · rw [errors, chunks, Chunk.withLines, filterMap_cons_toList, ← List.append_assoc]
            rfl

end Steps

end Scanner

open Scanner

/-- Scanning by index never leaves the source, and is scanning by chunks. -/
theorem scan_eq (source : Bytes) : Indexed.scan source = some (LoxLang.scan source) := by
  obtain ⟨last, scanned, line, tokens, errors⟩ :=
    scanFrom_moveTo ⟨source, 0, 0, 1, [], []⟩ [] source (Nat.lt_succ_self _)
  have begins : (⟨source, 0, 0, 1, [], []⟩ : State) =
    (⟨source, 0, 0, 1, [], []⟩ : State).moveTo [] source := rfl
  rw [Indexed.scan, begins, scanned]
  simp only [Option.bind_eq_bind, Option.bind_some, line, tokens, errors, List.nil_append]
  rfl

end Indexed

end LoxLang
