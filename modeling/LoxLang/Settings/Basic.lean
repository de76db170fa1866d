import LoxLang.FileTree
import LoxLang.Text.Quoted

/-!
The settings of the command line: their defaults, the file that overrides them,
and where files are looked for.  What decodes the file and what names the levels of the
log are arguments of the functions that use them.
-/

namespace LoxLang

structure Settings where
  logLevel : Bytes
  color : Bytes
  prompt : Bytes
  historyFile : Bytes
  echo : Bool
deriving DecidableEq, Repr

/-- Why settings cannot be used. -/
inductive SettingsError where
  | unreadable (path : Bytes) (entry : Entry)
  | malformed (path : Bytes)
  /-- `path` is that of the file the mode stands in, if it stands in one. -/
  | colorMode (path : Option Bytes) (mode : Bytes)
  /-- `cause` is what the log says of the name of a level. -/
  | logLevel (cause : Bytes)
deriving DecidableEq, Repr

/-- The levels of the log, from the gravest on. -/
inductive LogLevel where
  | panic | fatal | error | warning | info | debug | trace
deriving DecidableEq, Repr

/-- A level shows entries as grave as it is, or graver. -/
def LogLevel.showsDebug : LogLevel → Bool
  | .debug | .trace => true
  | .panic | .fatal | .error | .warning | .info => false

/-- The reason why nothing can be read at a path. -/
def Entry.reason : Entry → String
  | .file _ => ""
  | .directory => "is a directory"
  | .missing => "no such file or directory"
  | .notDirectory => "not a directory"
  | .forbidden => "permission denied"
  | .tooLong => "file name too long"
  | .invalid => "invalid argument"

def SettingsError.message : SettingsError → Bytes
  | .unreadable path entry =>
      Bytes.ofString "cannot read config " ++ path ++ Bytes.ofString ": stat " ++ path ++
        Bytes.ofString ": " ++ Bytes.ofString entry.reason
  | .malformed path => path ++ Bytes.ofString ": failed to parse TOML"
  | .colorMode path mode =>
      (match path with
        | some path => path ++ Bytes.ofString ": "
        | none => []) ++
      Bytes.ofString "invalid color mode " ++ Text.quoted mode ++
        Bytes.ofString " (auto|on|off)"
  | .logLevel cause => Bytes.ofString "invalid log level: " ++ cause

namespace Settings

def defaults : Settings where
  logLevel := Bytes.ofString "warning"
  color := Bytes.ofString "auto"
  prompt := Bytes.ofString "> "
  historyFile := Bytes.ofString ".lox_history"
  echo := true

/-- The settings file in the home directory. -/
def fileName : Bytes := Bytes.ofString ".loxrc.toml"

/-- Where the settings file is, unless told otherwise; empty without a home
directory. -/
def defaultPath (home : Option Bytes) : Bytes :=
  match home with
  | some home => Path.join home fileName
  | none => []

/-- Where entered lines are kept.  A relative path starts in the home
directory. -/
def historyPath (settings : Settings) (home : Option Bytes) : Bytes :=
  match home with
  | some home =>
      if settings.historyFile.isEmpty || Path.isAbsolute settings.historyFile then
        settings.historyFile
      else
        Path.join home settings.historyFile
  | none => settings.historyFile

def hasValidColor (settings : Settings) : Bool :=
  [Bytes.ofString "auto", Bytes.ofString "on", Bytes.ofString "off"].contains settings.color

/-- Settings as far as they were read, and what is wrong with them. -/
structure Loaded where
  settings : Settings
  problem : Option SettingsError

/-- Lay the settings file at a path over the defaults.  A file that was not
asked for may be missing. -/
def loadWith (decode : Settings → Bytes → Option Settings) (path : Bytes) (explicit : Bool)
    (find : Bytes → Entry) : Loaded :=
  if path.isEmpty then
    ⟨defaults, none⟩
  else
    match find path with
    | .missing => ⟨defaults, if explicit then some (.unreadable path .missing) else none⟩
    | .directory | .forbidden => ⟨defaults, some (.malformed path)⟩
    | .file content =>
        match decode defaults content with
        | none => ⟨defaults, some (.malformed path)⟩
        | some settings =>
            ⟨settings, if settings.hasValidColor then none
              else some (.colorMode (some path) settings.color)⟩
    | entry => ⟨defaults, some (.unreadable path entry)⟩

/-- Lay command line flags over settings.  An empty flag is one not given. -/
def withFlags (settings : Settings) (logLevel color : Bytes) : Except SettingsError Settings :=
  let settings := if logLevel.isEmpty then settings else { settings with logLevel := logLevel }
  let painted := if color.isEmpty then settings else { settings with color := color }
  if !color.isEmpty && !painted.hasValidColor then .error (.colorMode none color)
  else .ok painted

/-- Errors are painted on demand, or by default on a terminal. -/
def usesColor (settings : Settings) (terminal : Bool) : Bool :=
  settings.color == Bytes.ofString "on" ||
    (settings.color == Bytes.ofString "auto" && terminal)

end Settings

end LoxLang
