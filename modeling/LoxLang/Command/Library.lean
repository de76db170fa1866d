import LoxLang.Command.Arguments
import LoxLang.Session.Basic
import LoxLang.Settings.Decode

/-!
What a command is linked with: a reader of command lines, a decoder of settings files, the
levels of a log and a painter.  A command is defined for all of them; `Library.bundled` has
those of this library.
-/

namespace LoxLang.Command

/-- The functions that a command calls and does not define. -/
structure Library where
  /-- The command that the words of a command line ask for, its operands and its flags. -/
  read : List Bytes → Reading
  /-- The names of the commands that the reader has beside those of the program. -/
  added : List Bytes
  /-- Why a command that takes so many operands refuses some. -/
  refuseUnless : Nat → List Bytes → Option Bytes
  /-- Why a command that takes no operands refuses some. -/
  refuseAny : List Bytes → Option Bytes
  /-- Settings with those of a file laid over them. -/
  decode : Settings → Bytes → Option Settings
  /-- The level of a name, or why there is none. -/
  level : Bytes → Except Bytes LogLevel
  /-- A text in red, unless painting is off. -/
  red : Bool → Bytes → Bytes

/-- The functions of this library, enough of them to run the program. -/
def Library.bundled : Library where
  read := readCommandLine
  added := [Bytes.ofString "help", Bytes.ofString "completion", Bytes.ofString "__complete",
    Bytes.ofString "__completeNoDesc"]
  refuseUnless := Command.refuseUnless
  refuseAny := Command.refuseAny
  decode := Settings.overlay?
  level := Settings.level
  red := fun enabled text => if enabled then Report.red text else text

/-- An entry of the log: of a session, or of the command around it.  Why a history cannot be
read or written is left out. -/
inductive LogLine where
  | session (entry : LogEntry)
  | settingsLoaded (config color : Bytes)
  | running (file : Bytes)
  | lineDone (succeeded rejected failed : Bool)
  | historyUnread
  | historyUnwritten
deriving DecidableEq

namespace LogLine

def message : LogLine → Bytes
  | .session entry => entry.message
  | .settingsLoaded _ _ => Bytes.ofString "settings loaded"
  | .running _ => Bytes.ofString "running script"
  | .lineDone _ _ _ => Bytes.ofString "line done"
  | .historyUnread => Bytes.ofString "cannot read history"
  | .historyUnwritten => Bytes.ofString "cannot write history"

def details : LogLine → List (String × LogEntry.Detail)
  | .session entry => entry.details
  | .settingsLoaded config color => [("config", .text config), ("color", .text color)]
  | .running file => [("file", .text file)]
  | .lineDone succeeded rejected failed =>
      [("ok", .flag succeeded), ("staticError", .flag rejected), ("runtimeError", .flag failed)]
  | .historyUnread | .historyUnwritten => []

end LogLine

/-- A piece of what goes to the error channel: a text, or an entry of the log, whose written
form is the matter of the log. -/
inductive Piece where
  | text (content : Bytes)
  | entry (line : LogLine)
deriving DecidableEq

namespace Piece

/-- What is printed, beside the log. -/
def printed : Piece → Bytes
  | .text content => content
  | .entry _ => []

def isEntry : Piece → Bool
  | .text _ => false
  | .entry _ => true

end Piece

/-- How a command writes to the error channel. -/
structure Channel where
  paint : Bytes → Bytes
  /-- The log shows entries for debugging, as all of a command's are. -/
  logs : Bool

namespace Channel

def log (channel : Channel) (line : LogLine) : List Piece :=
  if channel.logs then [.entry line] else []

/-- What a notice of a session leads to. -/
def write (channel : Channel) : Notice → List Piece
  | .printed report => [.text (report.write channel.paint)]
  | .noted entry => channel.log (.session entry)

end Channel

end LoxLang.Command
