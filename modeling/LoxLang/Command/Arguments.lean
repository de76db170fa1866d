import LoxLang.Text.Quoted

/-!
The words of a command line, and a reader of them.  A subcommand is the first operand if
it has the name of one; flags may stand before or after operands, up to a double dash.
-/

namespace LoxLang.Command

/-- The commands of the program.  The root runs a script or opens the prompt. -/
inductive Subcommand where
  | root | ast | tokenize | version
deriving DecidableEq, Repr

/-- The values of the flags; an empty one is not given. -/
structure Flags where
  config : Bytes
  logLevel : Bytes
  color : Bytes
deriving DecidableEq, Repr

/-- What a reader of command lines makes of the words of one. -/
inductive Reading where
  /-- The reader answers by itself, as for help. -/
  | answered (text : Bytes)
  | refused (message : Bytes)
  | command (subcommand : Subcommand) (operands : List Bytes) (flags : Flags)
deriving DecidableEq, Repr

/-- Why the words of a command line are refused. -/
inductive ArgumentError where
  | badSyntax (word : Bytes)
  | unknownFlag (name : Bytes)
  | unknownShorthand (letter : UInt8) (word : Bytes)
  | needsValue (name : Bytes)
  | notSwitch (value : Bytes) (flag : String)
deriving DecidableEq, Repr

namespace ArgumentError

/-- A letter is shown by the first byte of its UTF-8 form. -/
def shownLetter (letter : UInt8) : Nat :=
  ((Utf8.encode letter.toNat).headD letter).toNat

def message : ArgumentError → Bytes
  | .badSyntax word => Bytes.ofString "bad flag syntax: " ++ word
  | .unknownFlag name => Bytes.ofString "unknown flag: --" ++ name
  | .unknownShorthand letter word =>
      Bytes.ofString "unknown shorthand flag: " ++ Text.quotedScalar (shownLetter letter) ++
        Bytes.ofString " in -" ++ word
  | .needsValue name => Bytes.ofString "flag needs an argument: --" ++ name
  | .notSwitch value flag =>
      Bytes.ofString "invalid argument " ++ Text.quoted value ++ Bytes.ofString " for " ++
        Text.quoted (Bytes.ofString flag) ++
        Bytes.ofString " flag: strconv.ParseBool: parsing " ++ Text.quoted value ++
        Bytes.ofString ": invalid syntax"

end ArgumentError

def dash : UInt8 := 45

def equalSign : UInt8 := 61

def doubleDash : Bytes := [dash, dash]

def startsWithDash (word : Bytes) : Bool :=
  word.head? == some dash

/-- While the subcommand is looked for, a flag without an equal sign is taken
to have the next word as its value. -/
def takesNext (word : Bytes) : Bool :=
  (doubleDash.isPrefixOf word || (startsWithDash word && word.length == 2)) &&
    !word.contains equalSign

/-- The operands in front of which no flag stands whose value they could be. -/
def operands : List Bytes → List Bytes
  | [] => []
  | word :: rest =>
      if word = doubleDash then
        []
      else if takesNext word then
        match rest with
        | [] | [_] => []
        | _ :: rest => operands rest
      else if word.isEmpty || startsWithDash word then
        operands rest
      else
        word :: operands rest

/-- The words without the first operand of a name. -/
def without (name : Bytes) : List Bytes → List Bytes
  | [] => []
  | word :: rest =>
      if word = doubleDash then
        word :: rest
      else if takesNext word then
        match rest with
        | [] => [word]
        | value :: rest => word :: value :: without name rest
      else if word = name then
        rest
      else
        word :: without name rest

/-- The names of commands.  Those without a command of the program are added by the
reader and show its help. -/
def commandNames : List (String × Option Subcommand) :=
  [("ast", some .ast), ("tokenize", some .tokenize), ("version", some .version), ("help", none),
    ("completion", none)]

/-- The command that words name, and the words left for it. -/
def findSubcommand (words : List Bytes) : Option Subcommand × List Bytes :=
  match operands words with
  | [] => (some .root, words)
  | first :: _ =>
      match commandNames.find? fun entry => Bytes.ofString entry.1 == first with
      | some entry => (entry.2, without first words)
      | none => (some .root, words)

/-- What flags and operands say. -/
structure Given where
  config : Bytes := []
  logLevel : Bytes := []
  color : Bytes := []
  help : Bool := false
  version : Bool := false
  arguments : List Bytes := []

/-- The flags of a command.  All take a value but the switches for help and
version; the latter is the root's. -/
inductive Flag where
  | config | logLevel | color | help | version
deriving DecidableEq, Repr

namespace Flag

def isSwitch : Flag → Bool
  | .help | .version => true
  | _ => false

def ofName? (command : Option Subcommand) (name : Bytes) : Option Flag :=
  if name = Bytes.ofString "config" then some .config
  else if name = Bytes.ofString "log-level" then some .logLevel
  else if name = Bytes.ofString "color" then some .color
  else if name = Bytes.ofString "help" then some .help
  else if name = Bytes.ofString "version" && command = some .root then some .version
  else none

def ofLetter? (command : Option Subcommand) (letter : UInt8) : Option Flag :=
  if letter = 104 then some .help
  else if letter = 118 && command = some .root then some .version
  else none

/-- The values of a switch. -/
def switch? (value : Bytes) : Option Bool :=
  let isOne (texts : List String) : Bool := texts.any fun text => Bytes.ofString text == value
  if isOne ["1", "t", "T", "true", "TRUE", "True"] then some true
  else if isOne ["0", "f", "F", "false", "FALSE", "False"] then some false
  else none

def set (flag : Flag) (value : Bytes) (given : Given) : Except ArgumentError Given :=
  match flag with
  | .config => .ok { given with config := value }
  | .logLevel => .ok { given with logLevel := value }
  | .color => .ok { given with color := value }
  | .help =>
      match switch? value with
      | some state => .ok { given with help := state }
      | none => .error (.notSwitch value "-h, --help")
  | .version =>
      match switch? value with
      | some state => .ok { given with version := state }
      | none => .error (.notSwitch value "-v, --version")

end Flag

/-- The value of a switch that stands alone. -/
def switchedOn : Bytes := Bytes.ofString "true"

/-- Letters that begin so are meant for a test runner and passed over. -/
def testRunnerMark : Bytes := Bytes.ofString "test."

/-- Read the letters of a word after its single dash. -/
def readLetters (command : Option Subcommand) (given : Given) :
    Bytes → Except ArgumentError Given
  | [] => .ok given
  | letter :: rest =>
      match testRunnerMark.isPrefixOf (letter :: rest), Flag.ofLetter? command letter with
      | true, _ => .ok given
      | false, none => .error (.unknownShorthand letter (letter :: rest))
      | false, some flag =>
          match rest with
          | mark :: byte :: value =>
              if mark = equalSign then
                flag.set (byte :: value) given
              else do
                readLetters command (← flag.set switchedOn given) rest
          | _ => do readLetters command (← flag.set switchedOn given) rest

def splitEqual (word : Bytes) : Bytes × Option Bytes :=
  let name := word.takeWhile (· != equalSign)
  match word.drop name.length with
  | [] => (name, none)
  | _ :: value => (name, some value)

def readWords (command : Option Subcommand) (given : Given) :
    List Bytes → Except ArgumentError Given
  | [] => .ok given
  | word :: rest =>
      match word with
      | 45 :: 45 :: long =>
          if long.isEmpty then
            .ok { given with arguments := given.arguments ++ rest }
          else if long.head? == some dash || long.head? == some equalSign then
            .error (.badSyntax word)
          else
            match splitEqual long with
            | (name, value?) =>
                match Flag.ofName? command name, value?, rest with
                | none, _, _ => .error (.unknownFlag name)
                | some flag, some value, rest => do
                    readWords command (← flag.set value given) rest
                | some flag, none, rest =>
                    if flag.isSwitch then do
                      readWords command (← flag.set switchedOn given) rest
                    else
                      match rest with
                      | [] => .error (.needsValue name)
                      | value :: rest => do readWords command (← flag.set value given) rest
      | 45 :: first :: letters => do
          readWords command (← readLetters command given (first :: letters)) rest
      | _ => readWords command { given with arguments := given.arguments ++ [word] } rest

def version : Bytes := Bytes.ofString "0.3.1"

def usage : Bytes :=
  Bytes.ofString "lox runs a script when given a path and starts an interactive\nprompt otherwise.\n"

/-- What a command is asked for with what flags and operands say.  Help goes before the
version. -/
def reading (command : Option Subcommand) (given : Given) : Reading :=
  if given.help then
    .answered usage
  else
    match command with
    | none => .answered usage
    | some command =>
        if given.version then
          .answered (Bytes.ofString "lox version " ++ version ++ [Bytes.lineFeed])
        else
          .command command given.arguments ⟨given.config, given.logLevel, given.color⟩

def readCommandLine (words : List Bytes) : Reading :=
  let (command, words) := findSubcommand words
  match readWords command {} words with
  | .ok given => reading command given
  | .error error => .refused error.message

/-- Why a command that takes so many operands is not given these. -/
def refuseUnless (count : Nat) (operands : List Bytes) : Option Bytes :=
  if operands.length = count then none
  else some (Bytes.ofString "accepts " ++ Bytes.ofNat count ++ Bytes.ofString " arg(s), received " ++
    Bytes.ofNat operands.length)

/-- Why the command for the version is not given operands. -/
def refuseAny : List Bytes → Option Bytes
  | [] => none
  | name :: _ =>
      some (Bytes.ofString "unknown command " ++ Text.quoted name ++
        Bytes.ofString " for \"lox version\"")

end LoxLang.Command
