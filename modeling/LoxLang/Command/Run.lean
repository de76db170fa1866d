import LoxLang.Command.Prompt
import LoxLang.Program.Printer

/-!
Commands as functions of what surrounds them.  The exit code tells the stage
of a failure: 65 for a static error, 70 for a runtime error, 64 for a command
line with too many scripts, and 1 for what keeps a command from starting.
-/

namespace LoxLang.Command

/-- What a command can see, and what it is linked with. -/
structure World where
  /-- The directory that relative paths start in. -/
  directory : Bytes
  home : Option Bytes
  find : Bytes → Entry
  stdin : Bytes
  clock : Nat → Float
  /-- The error channel is a terminal. -/
  terminal : Bool
  /-- The fuel of every execution. -/
  fuel : Nat := Session.ampleFuel
  library : Library := .bundled

/-- What a command leaves behind. -/
structure Reply where
  code : Nat
  out : Bytes
  /-- What goes to the error channel, in order. -/
  errors : List Piece
  /-- The lines to remember, and the file that keeps them. -/
  history : Option (Bytes × Bytes)

namespace Reply

def success (out : Bytes) : Reply :=
  ⟨0, out, [], none⟩

/-- A message that a command ends with. -/
def failure (code : Nat) (message : Bytes) : Reply :=
  ⟨code, [], [.text (message ++ [Bytes.lineFeed])], none⟩

/-- What a command leaves that reads an operand it was not given. -/
def crash : Reply :=
  ⟨2, [], [], none⟩

def after (pieces : List Piece) (reply : Reply) : Reply :=
  { reply with errors := pieces ++ reply.errors }

/-- What is printed on the error channel, beside the log. -/
def err (reply : Reply) : Bytes :=
  reply.errors.flatMap Piece.printed

end Reply

def staticFailure : Nat := 65

def runtimeFailure : Nat := 70

/-- The content of a script, or the message why it cannot be read. -/
def readScript (world : World) (path : Bytes) : Except Bytes Bytes :=
  let absolute := Path.absolute world.directory path
  let refuse (verb : String) (entry : Entry) : Except Bytes Bytes :=
    .error (Bytes.ofString "cannot read " ++ path ++ Bytes.ofString (": " ++ verb ++ " ") ++
      absolute ++ Bytes.ofString ": " ++ Bytes.ofString entry.reason)
  match world.find absolute with
  | .file content => .ok content
  | .directory => refuse "read" .directory
  | entry => refuse "open" entry

/-- Run a script from a file. -/
def runScript (world : World) (channel : Channel) (path source : Bytes) : Reply :=
  let session := Session.initial world.stdin world.clock
  let (_, ended) := session.run world.fuel source false
  let code :=
    if ended.hadError then staticFailure
    else if ended.hadRuntimeError then runtimeFailure
    else 0
  let file := Path.absolute world.directory path
  ⟨code, ended.output,
    channel.log (.running file) ++ (session.notices source ended).flatMap channel.write, none⟩

def printTree (world : World) (channel : Channel) (source : Bytes) : Reply :=
  let session := Session.initial world.stdin world.clock
  let (tokens, scanned) := session.scan source
  let (statements, parsed) := scanned.parse tokens
  let (rejected, printed) := parsed.printErrors
  let errors := (printed.since session).flatMap channel.write
  if rejected then ⟨staticFailure, [], errors, none⟩
  else ⟨0, renderProgram statements, errors, none⟩

def padRight (width : Nat) (text : Bytes) : Bytes :=
  text ++ List.replicate (width - text.length) 32

def padLeft (width : Nat) (text : Bytes) : Bytes :=
  List.replicate (width - text.length) 32 ++ text

def tokenLine (index : Nat) (token : Token) : Bytes :=
  padLeft 4 (Bytes.ofNat index) ++ Bytes.ofString "  line " ++
    padRight 4 (Bytes.ofNat token.line) ++ Bytes.ofString " " ++ token.display ++
    [Bytes.lineFeed]

def printTokens (world : World) (channel : Channel) (source : Bytes) : Reply :=
  let session := Session.initial world.stdin world.clock
  let (tokens, scanned) := session.scan source
  let (rejected, printed) := scanned.printErrors
  let errors := (printed.since session).flatMap channel.write
  if rejected then ⟨staticFailure, [], errors, none⟩
  else ⟨0, tokens.zipIdx.flatMap fun (token, index) => tokenLine index token, errors, none⟩

/-- The prompt at its start, with the lines remembered. -/
def openPrompt (world : World) (settings : Settings) : Prompt :=
  let history := match world.find (settings.historyPath world.home) with
    | .file content => History.ofText content
    | _ => []
  ⟨Session.initial world.stdin world.clock, history, [], world.fuel⟩

/-- The remembered lines can be opened, but not all of them can be read. -/
def hidesHistory (world : World) (settings : Settings) : Bool :=
  let path := settings.historyPath world.home
  !path.isEmpty &&
    match world.find path with
    | .file content => !(lines content).all History.isReadable
    | .directory => true
    | _ => false

/-- What goes to the error channel before the first line. -/
def openingErrors (world : World) (settings : Settings) (channel : Channel) : List Piece :=
  if hidesHistory world settings then channel.log .historyUnread else []

/-- The lines to remember after a prompt. -/
def closePrompt (world : World) (settings : Settings) (history : History) :
    Option (Bytes × Bytes) :=
  let path := settings.historyPath world.home
  if path.isEmpty then none else some (path, history.render)

/-- Enter every line of standard input at the prompt. -/
def runPrompt (world : World) (settings : Settings) (channel : Channel) : Reply :=
  let prompt := openPrompt world settings
  let opening := openingErrors world settings channel
  if Prompt.isValidText settings.prompt then
    let (transcript, prompt) := prompt.enterAll settings channel
    ⟨0, transcript.out, opening ++ transcript.errors, closePrompt world settings prompt.history⟩
  else
    let refused := Reply.failure 1 (Bytes.ofString "cannot read line: invalid prompt")
    { refused.after opening with history := closePrompt world settings prompt.history }

/-- What the settings of a command come to. -/
structure Setup where
  settings : Settings
  level : LogLevel
  /-- Where the file was looked for. -/
  config : Bytes

def Setup.channel (setup : Setup) (world : World) : Channel where
  paint := world.library.red (setup.settings.usesColor world.terminal)
  logs := setup.level.showsDebug

/-- The settings of a command line: the file that its flags name, or the one in the home
directory, under its other flags. -/
def loadSettings (world : World) (flags : Flags) : Except SettingsError Setup := do
  let explicit := !flags.config.isEmpty
  let path := if explicit then flags.config else Settings.defaultPath world.home
  let loaded := Settings.loadWith world.library.decode path explicit world.find
  match loaded.problem with
  | some problem => .error problem
  | none =>
      let settings ← loaded.settings.withFlags flags.logLevel flags.color
      let level ← (world.library.level settings.logLevel).mapError SettingsError.logLevel
      return ⟨settings, level, path⟩

def onScript (world : World) (path : Bytes) (use : Bytes → Reply) : Reply :=
  match readScript world path with
  | .ok source => use source
  | .error message => .failure 1 message

/-- Why a command is not given its operands, and the code that it ends with. -/
def Subcommand.refusal? (library : Library) :
    Subcommand → List Bytes → Option (Nat × Bytes)
  | .root, operands =>
      if 1 < operands.length then some (64, Bytes.ofString "Usage: lox [script]") else none
  | .ast, operands | .tokenize, operands =>
      (library.refuseUnless 1 operands).map fun message => (1, message)
  | .version, operands => (library.refuseAny operands).map fun message => (1, message)

/-- What a command does.  The version is written plain, as where the output is no terminal. -/
def perform (world : World) (setup : Setup) (command : Subcommand) (operands : List Bytes) :
    Reply :=
  let channel := setup.channel world
  match command, operands with
  | .root, [path] => onScript world path (runScript world channel path)
  | .root, _ => runPrompt world setup.settings channel
  | .ast, path :: _ => onScript world path (printTree world channel)
  | .tokenize, path :: _ => onScript world path (printTokens world channel)
  | .ast, [] | .tokenize, [] => .crash
  | .version, _ => .success (Bytes.ofString "lox " ++ version ++ [Bytes.lineFeed])

/-- Take the words of a command line. -/
def run (world : World) (words : List Bytes) : Reply :=
  match world.library.read words with
  | .answered text => .success text
  | .refused message => .failure 1 message
  | .command command operands flags =>
      match command.refusal? world.library operands with
      | some (code, message) => .failure code message
      | none =>
          match loadSettings world flags with
          | .error error => .failure 1 error.message
          | .ok setup =>
              (perform world setup command operands).after
                ((setup.channel world).log (.settingsLoaded setup.config setup.settings.color))

end LoxLang.Command
