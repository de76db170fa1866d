import Mathlib.Data.List.TakeWhile
import LoxLang.Command.Library

/-!
Command lines that name a script, with settings around it.  Wherever the settings stand and
in whichever form, a reader takes the words for the command on the script with the last value
of each setting, if it reads as documented.  The bundled reader does.
-/

namespace LoxLang.Command

namespace Flag

def name : Flag → Bytes
  | .config => Bytes.ofString "config"
  | .logLevel => Bytes.ofString "log-level"
  | .color => Bytes.ofString "color"
  | .help => Bytes.ofString "help"
  | .version => Bytes.ofString "version"

theorem name_ne_nil (flag : Flag) : flag.name ≠ [] := by
  cases flag <;> decide

theorem exists_head?_name (flag : Flag) :
    ∃ byte, flag.name.head? = some byte ∧ byte ≠ dash ∧ byte ≠ equalSign := by
  cases flag <;> exact ⟨_, rfl, by decide, by decide⟩

theorem ne_equalSign_of_mem_name (flag : Flag) : ∀ byte ∈ flag.name, byte ≠ equalSign := by
  have differs : flag.name.all (· != equalSign) = true := by cases flag <;> decide
  simpa using differs

theorem ofName?_name (flag : Flag) (takesValue : flag.isSwitch = false)
    (command : Option Subcommand) :
    ofName? command flag.name = some flag := by
  cases flag with
  | config | logLevel | color => rfl
  | help | version => cases takesValue

end Flag

/-- A flag that takes a value, with its value, as one word or as two. -/
structure Setting where
  flag : Flag
  value : Bytes
  joined : Bool
  takesValue : flag.isSwitch = false

namespace Setting

def words (setting : Setting) : List Bytes :=
  if setting.joined then [doubleDash ++ (setting.flag.name ++ equalSign :: setting.value)]
  else [doubleDash ++ setting.flag.name, setting.value]

/-- What flags say once a setting is read. -/
def apply (given : Given) (setting : Setting) : Given :=
  match setting.flag with
  | .config => { given with config := setting.value }
  | .logLevel => { given with logLevel := setting.value }
  | .color => { given with color := setting.value }
  | .help | .version => given

theorem set_eq (setting : Setting) (given : Given) :
    setting.flag.set setting.value given = .ok (apply given setting) := by
  obtain ⟨flag, value, joined, takesValue⟩ := setting
  cases flag with
  | config | logLevel | color => rfl
  | help | version => cases takesValue

end Setting

section Operands

variable {word : Bytes} {rest : List Bytes}

theorem operands_skip_two (other : word ≠ doubleDash) (takes : takesNext word = true)
    (value : Bytes) : operands (word :: value :: rest) = operands rest := by
  rw [operands.eq_def]
  simp only [other, takes, if_true, if_false]
  cases rest <;> rfl

theorem operands_skip (other : word ≠ doubleDash) (stays : takesNext word = false)
    (passed : (word.isEmpty || startsWithDash word) = true) :
    operands (word :: rest) = operands rest := by
  rw [operands.eq_def]
  simp only [other, stays, passed, if_true, if_false, Bool.false_eq_true]

theorem operands_keep (other : word ≠ doubleDash) (stays : takesNext word = false)
    (plain : (word.isEmpty || startsWithDash word) = false) :
    operands (word :: rest) = word :: operands rest := by
  rw [operands.eq_def]
  simp only [other, stays, plain, if_false, Bool.false_eq_true]

end Operands

namespace Setting

variable (setting : Setting)

theorem joinedWord_facts :
    let word := doubleDash ++ (setting.flag.name ++ equalSign :: setting.value)
    word ≠ doubleDash ∧ takesNext word = false ∧ startsWithDash word = true := by
  simp [takesNext, startsWithDash, doubleDash]

theorem openWord_facts :
    let word := doubleDash ++ setting.flag.name
    word ≠ doubleDash ∧ takesNext word = true ∧ startsWithDash word = true := by
  have inner : equalSign ∉ setting.flag.name := fun member =>
    setting.flag.ne_equalSign_of_mem_name _ member rfl
  have different : equalSign ≠ dash := by decide
  simp [takesNext, startsWithDash, doubleDash, setting.flag.name_ne_nil, inner, different]

theorem operands_words (rest : List Bytes) :
    operands (setting.words ++ rest) = operands rest := by
  unfold words
  split
  · obtain ⟨other, stays, dashed⟩ := setting.joinedWord_facts
    exact operands_skip other stays (by rw [dashed, Bool.or_true])
  · obtain ⟨other, takes, -⟩ := setting.openWord_facts
    exact operands_skip_two other takes setting.value

theorem without_words {name : Bytes} (plain : startsWithDash name = false) (rest : List Bytes) :
    without name (setting.words ++ rest) = setting.words ++ without name rest := by
  unfold words
  split
  · obtain ⟨other, stays, dashed⟩ := setting.joinedWord_facts
    have unnamed : doubleDash ++ (setting.flag.name ++ equalSign :: setting.value) ≠ name := by
      rintro rfl
      rw [dashed] at plain
      cases plain
    rw [List.singleton_append, without.eq_def]
    simp only [other, stays, unnamed, if_false, Bool.false_eq_true, List.singleton_append]
  · obtain ⟨other, takes, -⟩ := setting.openWord_facts
    rw [List.cons_append, List.singleton_append, without.eq_def]
    simp only [other, takes, if_true, if_false, List.cons_append, List.nil_append]

theorem splitEqual_name (flag : Flag) : splitEqual flag.name = (flag.name, none) := by
  have whole : flag.name.takeWhile (· != equalSign) = flag.name :=
    List.takeWhile_eq_self_iff.mpr fun byte member => by
      simpa using flag.ne_equalSign_of_mem_name byte member
  simp [splitEqual, whole]

theorem splitEqual_joined (flag : Flag) (value : Bytes) :
    splitEqual (flag.name ++ equalSign :: value) = (flag.name, some value) := by
  have whole : (flag.name ++ equalSign :: value).takeWhile (· != equalSign) = flag.name := by
    rw [List.takeWhile_append_of_pos fun byte member => by
      simpa using flag.ne_equalSign_of_mem_name byte member]
    simp
  simp [splitEqual, whole]

theorem readWords_words (command : Option Subcommand) (given : Given) (rest : List Bytes) :
    readWords command given (setting.words ++ rest) =
      readWords command (apply given setting) rest := by
  have known := setting.flag.ofName?_name setting.takesValue command
  obtain ⟨byte, first, notDash, notEqual⟩ := setting.flag.exists_head?_name
  have other : byte ≠ 45 := notDash
  unfold words
  split
  · rw [List.singleton_append, readWords.eq_def]
    simp [doubleDash, dash, first, other, notEqual, splitEqual_joined, known, setting.set_eq]
    rfl
  · rw [List.cons_append, List.singleton_append, readWords.eq_def]
    simp [doubleDash, dash, first, other, notEqual, splitEqual_name, known,
      setting.flag.name_ne_nil, setting.takesValue, setting.set_eq]
    rfl

def wordsAll (settings : List Setting) : List Bytes :=
  settings.flatMap words

/-- What flags say after settings in order. -/
def applyAll (given : Given) (settings : List Setting) : Given :=
  settings.foldl apply given

section All

variable {settings : List Setting} {rest : List Bytes}

theorem operands_wordsAll : operands (wordsAll settings ++ rest) = operands rest := by
  induction settings with
  | nil => rfl
  | cons first others inductionHypothesis =>
      rw [wordsAll, List.flatMap_cons, List.append_assoc, first.operands_words]
      exact inductionHypothesis

theorem without_wordsAll {name : Bytes} (plain : startsWithDash name = false) :
    without name (wordsAll settings ++ rest) = wordsAll settings ++ without name rest := by
  induction settings with
  | nil => rfl
  | cons first others inductionHypothesis =>
      rw [wordsAll, List.flatMap_cons, List.append_assoc, first.without_words plain,
        List.append_assoc]
      exact congrArg (first.words ++ ·) inductionHypothesis

theorem readWords_wordsAll (command : Option Subcommand) (given : Given) :
    readWords command given (wordsAll settings ++ rest) =
      readWords command (applyAll given settings) rest := by
  induction settings generalizing given with
  | nil => rfl
  | cons first others inductionHypothesis =>
      rw [wordsAll, List.flatMap_cons, List.append_assoc, first.readWords_words]
      exact inductionHypothesis (apply given first)

end All

/-- Settings leave the operands and the switches as they are. -/
theorem applyAll_operand (settings : List Setting) (given : Given) (path : Bytes) :
    applyAll { given with arguments := [path] } settings =
      { applyAll given settings with arguments := [path] } := by
  induction settings generalizing given with
  | nil => rfl
  | cons first others inductionHypothesis =>
      have one : apply { given with arguments := [path] } first =
          { apply given first with arguments := [path] } := by
        unfold apply
        cases first.flag <;> rfl
      rw [applyAll, List.foldl_cons, one]
      exact inductionHypothesis (apply given first)

theorem applyAll_keeps (settings : List Setting) (given : Given) :
    (applyAll given settings).arguments = given.arguments ∧
      (applyAll given settings).help = given.help ∧
        (applyAll given settings).version = given.version := by
  induction settings generalizing given with
  | nil => exact ⟨rfl, rfl, rfl⟩
  | cons first others inductionHypothesis =>
      have one : (apply given first).arguments = given.arguments ∧
          (apply given first).help = given.help ∧ (apply given first).version = given.version := by
        unfold apply
        cases first.flag <;> exact ⟨rfl, rfl, rfl⟩
      obtain ⟨arguments, help, version⟩ := inductionHypothesis (apply given first)
      exact ⟨arguments.trans one.1, help.trans one.2.1, version.trans one.2.2⟩

/-- The flags of a command after settings. -/
def flags (settings : List Setting) : Flags :=
  let given := applyAll {} settings
  ⟨given.config, given.logLevel, given.color⟩

end Setting

/-- The commands on one script. -/
inductive ScriptCommand where
  | run | printTree | printTokens

namespace ScriptCommand

/-- The name of a command; running a script needs none. -/
def name : ScriptCommand → List Bytes
  | .run => []
  | .printTree => [Bytes.ofString "ast"]
  | .printTokens => [Bytes.ofString "tokenize"]

def subcommand : ScriptCommand → Subcommand
  | .run => .root
  | .printTree => .ast
  | .printTokens => .tokenize

/-- The command on a script, with settings around its words. -/
def line (before between after : List Setting) (path : Bytes) (command : ScriptCommand) :
    List Bytes :=
  Setting.wordsAll before ++ (command.name ++ (Setting.wordsAll between ++
    path :: Setting.wordsAll after))

end ScriptCommand

/-- A word that is an operand and not the name of a command of the program. -/
structure IsScriptName (path : Bytes) : Prop where
  operand : startsWithDash path = true → path = [dash]
  notOwn : path ∉ [Bytes.ofString "ast", Bytes.ofString "tokenize", Bytes.ofString "version"]

/-- What is documented of the libraries for command lines: flags stand anywhere around the
operands, the first operand names a command if one has that name, and a command that takes
one operand accepts one. -/
structure Library.IsDocumented (library : Library) : Prop where
  read_line : ∀ path, IsScriptName path → path ∉ library.added →
    ∀ (command : ScriptCommand) (before between after : List Setting),
      library.read (command.line before between after path) =
        .command command.subcommand [path] (Setting.flags (before ++ between ++ after))
  accepts_one : ∀ path, library.refuseUnless 1 [path] = none

namespace IsScriptName

variable {path : Bytes}

/-- A script name is not of the form of a flag. -/
theorem ne_flag (named : IsScriptName path) (byte : UInt8) (rest : Bytes) :
    path ≠ 45 :: byte :: rest := by
  rintro rfl
  cases named.operand rfl

theorem readWords_cons (named : IsScriptName path) (command : Option Subcommand) (given : Given)
    (rest : List Bytes) :
    readWords command given (path :: rest) =
      readWords command { given with arguments := given.arguments ++ [path] } rest := by
  rw [readWords.eq_def]
  dsimp only
  split
  · exact absurd rfl (named.ne_flag _ _)
  · exact absurd rfl (named.ne_flag _ _)
  · rfl

theorem takesNext_eq_false (named : IsScriptName path) : takesNext path = false := by
  cases path with
  | nil => rfl
  | cons byte rest =>
      by_cases dashed : byte = dash
      · rw [named.operand (by rw [dashed]; rfl)]
        decide
      · simp [takesNext, startsWithDash, doubleDash, dashed, Ne.symm dashed]

/-- The only operand that may stand in a script's place is the script. -/
theorem operands_eq (named : IsScriptName path) (after : List Setting) :
    operands (path :: Setting.wordsAll after) = [] ∨
      operands (path :: Setting.wordsAll after) = [path] := by
  have none : operands (Setting.wordsAll after) = [] := by
    have skipped : operands (Setting.wordsAll after ++ []) = operands [] :=
      Setting.operands_wordsAll
    rwa [List.append_nil] at skipped
  have other : path ≠ doubleDash := named.ne_flag _ _
  have stays := named.takesNext_eq_false
  by_cases passed : (path.isEmpty || startsWithDash path) = true
  · left
    rw [operands_skip other stays passed, none]
  · right
    rw [operands_keep other stays (eq_false_of_ne_true passed), none]

end IsScriptName

/-- The script is what is left for the flags to be read around. -/
theorem IsScriptName.readWords_line {path : Bytes} (named : IsScriptName path)
    (command : Option Subcommand) (before between after : List Setting) :
    readWords command {} (Setting.wordsAll before ++ (Setting.wordsAll between ++
        path :: Setting.wordsAll after)) =
      .ok { Setting.applyAll {} (before ++ between ++ after) with arguments := [path] } := by
  have leading := Setting.applyAll_keeps between (Setting.applyAll {} before)
  have nothing : (Setting.applyAll (Setting.applyAll {} before) between).arguments = [] :=
    leading.1.trans (Setting.applyAll_keeps before {}).1
  have trailing (given : Given) : readWords command given (Setting.wordsAll after ++ []) =
      readWords command (Setting.applyAll given after) [] :=
    Setting.readWords_wordsAll command given
  rw [List.append_nil] at trailing
  rw [Setting.readWords_wordsAll, Setting.readWords_wordsAll, named.readWords_cons, nothing,
    List.nil_append, trailing, Setting.applyAll_operand, readWords.eq_def]
  simp only [Setting.applyAll, List.foldl_append]

theorem findSubcommand_run {path : Bytes} (named : IsScriptName path)
    (foreign : path ∉ Library.bundled.added) (before between after : List Setting) :
    findSubcommand (ScriptCommand.run.line before between after path) =
      (some .root, Setting.wordsAll before ++ (Setting.wordsAll between ++
        path :: Setting.wordsAll after)) := by
  have unknown : commandNames.find? (fun entry => Bytes.ofString entry.1 == path) = none := by
    obtain ⟨-, notOwn⟩ := named
    simp only [Library.bundled, List.mem_cons, not_or] at notOwn foreign
    simp [commandNames, Ne.symm notOwn.1, Ne.symm notOwn.2.1, Ne.symm notOwn.2.2.1,
      Ne.symm foreign.1, Ne.symm foreign.2.1]
  unfold findSubcommand ScriptCommand.line ScriptCommand.name
  rw [List.nil_append, Setting.operands_wordsAll, Setting.operands_wordsAll]
  rcases named.operands_eq after with found | found
  · rw [found]
  · rw [found]
    dsimp only
    rw [unknown]

/-- A command is found behind the settings before its name. -/
theorem findSubcommand_name {text : String} {subcommand : Option Subcommand}
    (known : commandNames.find? (fun entry => Bytes.ofString entry.1 == Bytes.ofString text) =
      some (text, subcommand))
    (other : Bytes.ofString text ≠ doubleDash) (stays : takesNext (Bytes.ofString text) = false)
    (plain : ((Bytes.ofString text).isEmpty || startsWithDash (Bytes.ofString text)) = false)
    (before : List Setting) (rest : List Bytes) :
    findSubcommand (Setting.wordsAll before ++ Bytes.ofString text :: rest) =
      (subcommand, Setting.wordsAll before ++ rest) := by
  have undashed : startsWithDash (Bytes.ofString text) = false := (Bool.or_eq_false_iff.mp plain).2
  unfold findSubcommand
  rw [Setting.operands_wordsAll, operands_keep other stays plain]
  dsimp only
  rw [known, Setting.without_wordsAll undashed, without.eq_def]
  simp only [other, stays, if_false, if_true, Bool.false_eq_true]

theorem findSubcommand_line {path : Bytes} (named : IsScriptName path)
    (foreign : path ∉ Library.bundled.added) (before between after : List Setting)
    (command : ScriptCommand) :
    findSubcommand (command.line before between after path) =
      (some command.subcommand, Setting.wordsAll before ++ (Setting.wordsAll between ++
        path :: Setting.wordsAll after)) := by
  cases command with
  | run => exact findSubcommand_run named foreign before between after
  | printTree | printTokens =>
      exact findSubcommand_name (by decide) (by decide) (by decide) (by decide) before _

/-- With one operand and no switch, a command is asked for on the operand. -/
theorem reading_operand {given : Given} (help : given.help = false)
    (version : given.version = false) (path : Bytes) (command : Subcommand) :
    reading (some command) { given with arguments := [path] } =
      .command command [path] ⟨given.config, given.logLevel, given.color⟩ := by
  simp [reading, help, version]

/-- A command on a script is read as such, whatever settings stand around its words. -/
theorem readCommandLine_line {path : Bytes} (named : IsScriptName path)
    (foreign : path ∉ Library.bundled.added) (before between after : List Setting)
    (command : ScriptCommand) :
    readCommandLine (command.line before between after path) =
      .command command.subcommand [path] (Setting.flags (before ++ between ++ after)) := by
  obtain ⟨-, help, version⟩ := Setting.applyAll_keeps (before ++ between ++ after) {}
  simp only [readCommandLine, findSubcommand_line named foreign, named.readWords_line]
  exact reading_operand help version path command.subcommand

theorem Library.bundled_isDocumented : Library.bundled.IsDocumented where
  read_line _ named foreign command before between after :=
    readCommandLine_line named foreign before between after command
  accepts_one _ := rfl

end LoxLang.Command
