import LoxLang.Settings.Basic
import LoxLang.Toml.Document

/-!
Settings from the text of a file, and the names of the levels of the log.
-/

namespace LoxLang.Settings

/-- A code point without regard to case, as far as ASCII letters go. -/
def foldCase (code : Nat) : Nat :=
  if 65 ≤ code && code ≤ 90 then code + 32
  else if code = 0x17F then 115
  else if code = 0x212A then 107
  else code

/-- Two texts are equal without regard to case. -/
def sameFolded (left right : Bytes) : Bool :=
  let folded (text : Bytes) := (Utf8.pieces text).map fun
    | .scalar code => Utf8.Piece.scalar (foldCase code)
    | piece => piece
  folded left == folded right

def names : List String :=
  ["log_level", "color", "prompt", "history_file", "echo"]

/-- Give a setting its value from a file.  Other names are ignored; a value of
the wrong type is an error. -/
def set? (settings : Settings) (key : Bytes) (value : Toml.Node) : Option Settings :=
  match names.find? fun name => sameFolded (Bytes.ofString name) key with
  | none => some settings
  | some name =>
      match name, value with
      | "log_level", .text text => some { settings with logLevel := text }
      | "color", .text text => some { settings with color := text }
      | "prompt", .text text => some { settings with prompt := text }
      | "history_file", .text text => some { settings with historyFile := text }
      | "echo", .boolean value => some { settings with echo := value }
      | _, _ => none

/-- Lay the content of a settings file over settings. -/
def overlay? (settings : Settings) (content : Bytes) : Option Settings := do
  (← Toml.parse? content).foldlM (fun settings (key, value) => settings.set? key value) settings

/-- Lay the settings file at a path over the defaults, decoded as `overlay?` does. -/
def load (path : Bytes) (explicit : Bool) (find : Bytes → Entry) : Loaded :=
  loadWith overlay? path explicit find

def logLevels : List (String × LogLevel) :=
  [("panic", .panic), ("fatal", .fatal), ("error", .error), ("warn", .warning),
    ("warning", .warning), ("info", .info), ("debug", .debug), ("trace", .trace)]

/-- A code point in lower case, as far as ASCII letters go. -/
def lowerCase (code : Nat) : Nat :=
  if 65 ≤ code && code ≤ 90 then code + 32
  else if code = 0x130 then 105
  else if code = 0x212A then 107
  else code

/-- The level of a name, in any case, or why the name is refused. -/
def level (name : Bytes) : Except Bytes LogLevel :=
  let lowered := (Utf8.pieces name).map fun
    | .scalar code => Utf8.Piece.scalar (lowerCase code)
    | piece => piece
  match logLevels.find? fun entry => Utf8.pieces (Bytes.ofString entry.1) == lowered with
  | some entry => .ok entry.2
  | none => .error (Bytes.ofString "not a valid logrus Level: " ++ Text.quoted name)

end LoxLang.Settings
