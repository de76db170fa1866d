import LoxLang.Command.Run

/-!
The program: gather what a command line may look at, run the command, and
write what it leaves behind.  Only the interactive prompt works line by line.
-/

namespace LoxLang.Command

def toByteArray (text : Bytes) : ByteArray :=
  ⟨text.toArray⟩

def toPath (text : Bytes) : String :=
  (String.fromUTF8? (toByteArray text)).getD ""

/-- What a path leads to.  A directory can be opened and fails only when it is
read, so its error names no file. -/
def readEntry (path : Bytes) : IO Entry := do
  if let some entry := Entry.ofPath? path then
    return entry
  try
    let content ← IO.FS.readBinFile (toPath path)
    return .file content.data.toList
  catch
    | .noFileOrDirectory .. => return .missing
    | .inappropriateType none .. => return .directory
    | .inappropriateType (some _) .. => return .notDirectory
    | .invalidArgument .. => return .tooLong
    | _ => return .forbidden

/-- Everything that a stream still holds. -/
partial def readAll (stream : IO.FS.Stream) (held : Array UInt8) : IO Bytes := do
  let block ← stream.read 65536
  if block.isEmpty then return held.toList else readAll stream (held ++ block.data)

/-- One line with its end mark; nothing at the end of the stream. -/
partial def readLine (stream : IO.FS.Stream) (held : Array UInt8) : IO Bytes := do
  let block ← stream.read 1
  match block.data[0]? with
  | none => return held.toList
  | some byte =>
      if byte = Bytes.lineFeed then return (held.push byte).toList
      else readLine stream (held.push byte)

def write (stream : IO.FS.Stream) (text : Bytes) : IO Unit := do
  stream.write (toByteArray text)
  stream.flush

/-- A value in the log; texts are quoted. -/
def shown : LogEntry.Detail → Bytes
  | .number value => Bytes.ofNat value
  | .flag value => Bytes.ofString (toString value)
  | .text value => Text.quoted value

/-- An entry of the log as a line, without its time. -/
def entryLine (line : LogLine) : Bytes :=
  Bytes.ofString "level=debug msg=" ++ Text.quoted line.message ++
    line.details.flatMap (fun (name, detail) =>
      Bytes.ofString (" " ++ name ++ "=") ++ shown detail) ++ [Bytes.lineFeed]

def writeErrors (pieces : List Piece) : IO Unit := do
  for piece in pieces do
    match piece with
    | .text text => write (← IO.getStderr) text
    | .entry line => write (← IO.getStderr) (entryLine line)

/-- The paths that a command reads before its settings are known. -/
def firstPaths (world : World) (operands : List Bytes) (flags : Flags) : List Bytes :=
  let config := if flags.config.isEmpty then Settings.defaultPath world.home else flags.config
  config :: operands.map (Path.absolute world.directory)

/-- A world in which more paths are known. -/
def World.learn (world : World) (paths : List Bytes) : IO World := do
  let entries : Bindings Entry ← paths.mapM fun path => return (path, ← readEntry path)
  return { world with find := fun path =>
    match entries.get? path with
    | some entry => entry
    | none => world.find path }

/-- Standard input is read at once for a script that mentions the function
that reads it, and for a prompt unless someone types there. -/
def readsInput (world : World) (command : Subcommand) (operands : List Bytes) : IO Bool :=
  match command, operands with
  | .root, [path] =>
      match readScript world path with
      | .ok source => return (LoxLang.scan source).tokens.any fun token =>
          token.lexeme == Bytes.ofString "input"
      | .error _ => return false
  | .root, [] => return !(← (← IO.getStdin).isTty)
  | _, _ => return false

/-- Enter lines as they are typed, until the input ends. -/
partial def converse (settings : Settings) (channel : Channel) (prompt : Prompt) : IO History := do
  let out ← IO.getStdout
  write out settings.prompt
  match ← readLine (← IO.getStdin) #[] with
  | [] =>
      write out [Bytes.lineFeed]
      return prompt.history
  | text =>
      let mut prompt := prompt
      for line in lines text do
        let (transcript, next) := prompt.enter settings channel line.text
        write out transcript.out
        writeErrors transcript.errors
        prompt := next
      converse settings channel prompt

def keepHistory (channel : Channel) (history : Option (Bytes × Bytes)) : IO Unit := do
  match history with
  | none => return
  | some (path, content) =>
      if (Entry.ofPath? path).isSome then
        writeErrors (channel.log .historyUnwritten)
      else
        try
          IO.FS.writeBinFile (toPath path) (toByteArray content)
        catch _ =>
          writeErrors (channel.log .historyUnwritten)

/-- Write what a command leaves on the two channels. -/
def finish (reply : Reply) : IO UInt32 := do
  write (← IO.getStdout) reply.out
  writeErrors reply.errors
  return reply.code.toUInt32

/-- Run the command line in the world around the program. -/
def start (words : List Bytes) : IO UInt32 := do
  let begun ← IO.monoNanosNow
  let home := (← IO.getEnv "HOME").filter (!·.isEmpty)
  let world : World := {
    directory := Bytes.ofString (toString (← IO.currentDir))
    home := home.map Bytes.ofString
    find := fun _ => .missing
    stdin := []
    clock := fun readings => Float.ofNat (begun + readings) / 1000000000
    terminal := ← (← IO.getStderr).isTty }
  match world.library.read words with
  | .answered _ | .refused _ => finish (run world words)
  | .command command operands flags =>
      let world ← world.learn (firstPaths world operands flags)
      let typed := !(← readsInput world command operands)
      let world ←
        if typed then
          pure world
        else
          pure { world with stdin := ← readAll (← IO.getStdin) #[] }
      match command, operands, loadSettings world flags with
      | .root, [], .ok setup =>
          let settings := setup.settings
          let channel := setup.channel world
          let world ← world.learn [settings.historyPath world.home]
          if typed && Prompt.isValidText settings.prompt then
            writeErrors (channel.log (.settingsLoaded setup.config settings.color) ++
              openingErrors world settings channel)
            let history ← converse settings channel (openPrompt world settings)
            keepHistory channel (closePrompt world settings history)
            return 0
          else
            let reply := run world words
            let code ← finish reply
            keepHistory channel reply.history
            return code
      | _, _, _ => finish (run world words)

end LoxLang.Command

def main (arguments : List String) : IO UInt32 :=
  LoxLang.Command.start (arguments.map LoxLang.Bytes.ofString)
