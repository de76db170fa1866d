import LoxLang.Command.Run
import LoxLang.Proofs.Command.Words
import LoxLang.Proofs.Session.Bookkeeping

/-!
Exit codes of the commands on a script.  Printing tokens, printing the tree and running stop
at an error of the stages they go through, each of which finds what the stages before it
found and more.  The errors are printed in the order they were found, with entries of the
log between them if it is on.
-/

namespace LoxLang.Command

/-- The errors of scanning and parsing source. -/
def syntaxErrors (source : Bytes) : List Diagnostic :=
  (scan source).errors ++ (parse (scan source).tokens 0).errors

/-- The errors of the static stages of source.  Scopes are not resolved after a syntax
error. -/
def staticErrors (source : Bytes) : List Diagnostic :=
  syntaxErrors source ++
    if syntaxErrors source = [] then (resolve (parse (scan source).tokens 0).statements {}).2
    else []

theorem syntaxErrors_eq_nil {source : Bytes} (silent : staticErrors source = []) :
    syntaxErrors source = [] :=
  (List.append_eq_nil_iff.mp silent).1

/-- The execution of a script without static errors. -/
def execution (world : World) (source : Bytes) : EStateM.Result Stop Machine Unit :=
  let statements := (parse (scan source).tokens 0).statements
  Eval.interpret ⟨(resolve statements {}).1, .recorded⟩ world.fuel false statements
    (.initial (.ofBytes world.stdin) world.clock)

/-- Static errors as they are printed. -/
def shownErrors (paint : Bytes → Bytes) (errors : List Diagnostic) : Bytes :=
  (errors.map Report.rejected).flatMap (Report.write paint)

namespace Channel

variable (channel : Channel)

theorem printed_log (line : LogLine) : (channel.log line).flatMap Piece.printed = [] := by
  unfold log
  split <;> rfl

theorem printed_write_noted (entries : List LogEntry) :
    ((entries.map Notice.noted).flatMap channel.write).flatMap Piece.printed = [] := by
  simp only [List.flatMap_map, List.flatMap_assoc, write, printed_log, List.flatMap_eq_nil_iff,
    implies_true]

theorem printed_write_printed (reports : List Report) :
    ((reports.map Notice.printed).flatMap channel.write).flatMap Piece.printed =
      reports.flatMap (Report.write channel.paint) := by
  simp only [List.flatMap_map, List.flatMap_assoc, write, List.flatMap_singleton, Piece.printed]

/-- Within a stage, the reports are what is printed. -/
theorem printed_since (session earlier : Session) :
    ((session.since earlier).flatMap channel.write).flatMap Piece.printed =
      (session.reports.drop earlier.reports.length).flatMap (Report.write channel.paint) := by
  rw [Session.since, List.flatMap_append, List.flatMap_append, printed_write_noted,
    printed_write_printed, List.nil_append]

end Channel

/-- What a run prints is what it reports, if each of its stages goes on from the one before. -/
theorem printed_notices (channel : Channel) {session ended : Session} {source : Bytes}
    (silent : session.reports = [])
    (screened : (session.read source).reports <+: (session.screened source).reports)
    (executed : (session.screened source).reports <+: ended.reports) :
    ((session.notices source ended).flatMap channel.write).flatMap Piece.printed =
      ended.reports.flatMap (Report.write channel.paint) := by
  have read : (session.read source).reports ++
      (session.screened source).reports.drop (session.read source).reports.length =
        (session.screened source).reports := List.prefix_iff_eq_append.mp screened
  have ends : (session.screened source).reports ++
      ended.reports.drop (session.screened source).reports.length = ended.reports :=
    List.prefix_iff_eq_append.mp executed
  simp only [Session.notices, List.flatMap_append, channel.printed_since, silent,
    List.length_nil, List.drop_zero]
  rw [← List.append_assoc, ← List.flatMap_append, read, ← List.flatMap_append, ends]

section Session

variable (input : Bytes) (clock : Nat → Float) (source : Bytes)

theorem reports_read_initial :
    ((Session.initial input clock).read source).reports = (syntaxErrors source).map .rejected :=
  rfl

theorem hadError_read_initial :
    ((Session.initial input clock).read source).hadError = false ↔ syntaxErrors source = [] := by
  constructor
  · intro silent
    obtain ⟨-, scanned, parsed⟩ := Session.silent_of_read silent
    exact List.append_eq_nil_iff.mpr ⟨scanned, parsed⟩
  · intro silent
    obtain ⟨scanned, parsed⟩ := List.append_eq_nil_iff.mp silent
    have earlier : (Session.initial input clock).hadError = false := rfl
    exact Session.hadError_reject_eq_false.mpr
      ⟨Session.hadError_reject_eq_false.mpr ⟨earlier, scanned⟩, parsed⟩

theorem screened_initial :
    ((Session.initial input clock).screened source).reports =
        (staticErrors source).map .rejected ∧
      (((Session.initial input clock).screened source).hadError = false ↔
        staticErrors source = []) := by
  have read := hadError_read_initial input clock source
  have reports := reports_read_initial input clock source
  unfold Session.screened staticErrors
  by_cases raised : ((Session.initial input clock).read source).hadError = true
  · have found : syntaxErrors source ≠ [] := fun silent => by
      rw [read.mpr silent] at raised
      cases raised
    rw [if_pos raised, if_neg found, List.append_nil]
    exact ⟨reports, read⟩
  · have silentRead := eq_false_of_ne_true raised
    have silent := read.mp silentRead
    rw [if_neg raised, if_pos silent, silent, List.nil_append]
    refine ⟨?_, fun silentChecked => (Session.silent_of_checked silentChecked).2,
      fun resolved => ?_⟩
    · have checked : ((Session.initial input clock).checked source).reports =
          ((Session.initial input clock).read source).reports ++
            (resolve (parse (scan source).tokens 0).statements {}).2.map .rejected := rfl
      rw [checked, reports, silent]
      rfl
    · exact Session.hadError_reject_eq_false.mpr ⟨silentRead, resolved⟩

end Session

section Replies

variable (world : World) (channel : Channel) (source : Bytes)

/-- What a command replies that ends with the static stages which find some errors. -/
structure Reply.TellsErrors (reply : Reply) (paint : Bytes → Bytes) (errors : List Diagnostic) :
    Prop where
  code : reply.code = if errors = [] then 0 else 65
  out : reply.code = 65 → reply.out = []
  err : reply.err = shownErrors paint errors

theorem Reply.TellsErrors.ofRejected {paint : Bytes → Bytes} {rejected : Bool}
    {errors : List Diagnostic} {pieces : List Piece} (flag : rejected = false ↔ errors = [])
    (printed : pieces.flatMap Piece.printed = shownErrors paint errors) (out : Bytes) :
    (if rejected then ⟨staticFailure, [], pieces, none⟩
      else ⟨0, out, pieces, none⟩ : Reply).TellsErrors paint errors := by
  cases rejected with
  | false => exact ⟨(if_pos (flag.mp rfl)).symm, fun stopped => by simp at stopped, printed⟩
  | true =>
      have found : errors ≠ [] := fun silent => by cases flag.mpr silent
      exact ⟨(if_neg found).symm, fun _ => rfl, printed⟩

theorem tellsErrors_printTokens :
    (printTokens world channel source).TellsErrors channel.paint (scan source).errors := by
  have earlier : (Session.initial world.stdin world.clock).hadError = false := rfl
  have flag : ((Session.initial world.stdin world.clock).reject (scan source).errors).hadError =
      false ↔ (scan source).errors = [] := by
    rw [Session.hadError_reject_eq_false]
    exact and_iff_right earlier
  exact .ofRejected flag (channel.printed_since _ _) _

theorem tellsErrors_printTree :
    (printTree world channel source).TellsErrors channel.paint (syntaxErrors source) :=
  .ofRejected (hadError_read_initial world.stdin world.clock source)
    (channel.printed_since _ _) _

theorem Reply.TellsErrors.code_eq_iff {reply : Reply} {paint : Bytes → Bytes}
    {errors : List Diagnostic} (tells : reply.TellsErrors paint errors) :
    reply.code = 65 ↔ errors ≠ [] := by
  rw [tells.code]
  split <;> simp [*]

/-- The runtime errors that an execution reports. -/
def runtimeErrors : EStateM.Result Stop Machine Unit → List RuntimeError
  | .error (.fault error) _ => [error]
  | _ => []

/-- What a command replies that executes source without static errors. -/
structure Reply.TellsExecution (reply : Reply) (paint : Bytes → Bytes)
    (errors : List Diagnostic) (result : EStateM.Result Stop Machine Unit) : Prop where
  rejected : reply.code = 65 ↔ errors ≠ []
  failed : reply.code = 70 ↔ errors = [] ∧ ∃ error machine, result = .error (.fault error) machine
  completed : reply.code = 0 ↔ errors = [] ∧ ∃ machine, result = .ok () machine
  only : reply.code = 65 ∨ reply.code = 70 ∨ reply.code = 0
  out : reply.code = 65 → reply.out = []
  err : reply.err = shownErrors paint errors ++
    if errors = [] then
      (runtimeErrors result).flatMap fun error => Report.write paint (.failed error)
    else []

theorem run_of_staticErrors (found : staticErrors source ≠ []) (fuel : Nat) :
    (Session.initial world.stdin world.clock).run fuel source false =
        (.finished false, (Session.initial world.stdin world.clock).screened source) ∧
      ((Session.initial world.stdin world.clock).screened source).hadError = true := by
  have raised : ((Session.initial world.stdin world.clock).screened source).hadError = true := by
    rw [← Bool.not_eq_false]
    exact fun silent => found ((screened_initial _ _ source).2.mp silent)
  rw [Session.run_eq_screened, if_pos raised]
  exact ⟨rfl, raised⟩

/-- Source without static errors is executed from a machine of its own. -/
theorem run_of_silent (silent : staticErrors source = []) :
    ∃ session : Session, session.hadError = false ∧ session.hadRuntimeError = false ∧
      session.reports = [] ∧
        (Session.initial world.stdin world.clock).run world.fuel source false =
          session.conclude (execution world source) := by
  obtain ⟨reports, flag⟩ := screened_initial world.stdin world.clock source
  have lowered := flag.mpr silent
  have read := (hadError_read_initial world.stdin world.clock source).mpr
    (syntaxErrors_eq_nil silent)
  have checked : (Session.initial world.stdin world.clock).screened source =
      (Session.initial world.stdin world.clock).checked source := by
    unfold Session.screened
    rw [if_neg (by rw [read]; exact Bool.false_ne_true)]
  rw [silent] at reports
  rw [checked] at reports lowered
  refine ⟨((Session.initial world.stdin world.clock).checked source).note
    (.interpreting (parse (scan source).tokens 0).statements.length false),
    lowered, rfl, reports, ?_⟩
  rw [Session.run_eq_screened, checked, if_neg (by rw [lowered]; exact Bool.false_ne_true),
    Session.interpret_eq]
  rfl

/-- Running a script replies with what the session holds when it ended. -/
structure Reply.TellsSession (reply : Reply) (paint : Bytes → Bytes) (session : Session) :
    Prop where
  code : reply.code =
    if session.hadError then 65 else if session.hadRuntimeError then 70 else 0
  out : reply.out = session.output
  err : reply.err = session.reports.flatMap (Report.write paint)

theorem tellsSession_runScript (path : Bytes) {outcome : Outcome} {session : Session}
    (ran : (Session.initial world.stdin world.clock).run world.fuel source false =
      (outcome, session))
    (goesOn : (staticErrors source).map .rejected <+: session.reports) :
    (runScript world channel path source).TellsSession channel.paint session := by
  obtain ⟨reports, -⟩ := screened_initial world.stdin world.clock source
  have screened : ((Session.initial world.stdin world.clock).read source).reports <+:
      ((Session.initial world.stdin world.clock).screened source).reports := by
    rw [reports, reports_read_initial]
    exact (List.prefix_append _ _).map Report.rejected
  rw [← reports] at goesOn
  unfold runScript
  dsimp only
  rw [ran]
  refine ⟨rfl, rfl, ?_⟩
  rw [Reply.err, List.flatMap_append, channel.printed_log, List.nil_append]
  exact printed_notices channel rfl screened goesOn

theorem tellsExecution_runScript (path : Bytes)
    (terminates :
      ((Session.initial world.stdin world.clock).run world.fuel source false).1 ≠ .outOfFuel) :
    (runScript world channel path source).TellsExecution channel.paint (staticErrors source)
      (execution world source) := by
  by_cases silent : staticErrors source = []
  · obtain ⟨session, lowered, unfailed, reports, ran⟩ := run_of_silent world source silent
    have reported := run_isReported (.initial world.stdin world.clock) world.fuel source false
    rw [ran] at terminates reported
    obtain ⟨code, out, err⟩ := tellsSession_runScript world channel source path ran
      (by rw [silent]; exact List.nil_prefix)
    rw [silent]
    cases result : execution world source with
    | ok _ machine =>
      rw [result] at code out err
      constructor <;> simp [code, out, err, lowered, unfailed, reports, shownErrors, runtimeErrors]
    | error stop machine =>
      rw [result] at terminates reported code out err
      cases stop with
      | fault error =>
        constructor <;> simp [code, out, err, Session.fail, lowered, reports, shownErrors,
          runtimeErrors]
      | desync cause => exact absurd reported id
      | outOfFuel => exact absurd rfl terminates
  · obtain ⟨ran, raised⟩ := run_of_staticErrors world source silent world.fuel
    obtain ⟨reports, -⟩ := screened_initial world.stdin world.clock source
    have output : ((Session.initial world.stdin world.clock).screened source).output = [] := by
      rw [Session.output, Session.machine_screened]
      rfl
    obtain ⟨code, out, err⟩ := tellsSession_runScript world channel source path ran
      (by simp only [reports, List.prefix_refl])
    constructor <;> simp [code, out, err, raised, silent, reports, shownErrors, output]

end Replies

section Log

/-- Nothing goes to the error channel but what is printed. -/
def Reply.IsPlain (reply : Reply) : Prop :=
  ∀ piece ∈ reply.errors, piece.isEntry = false

variable (world : World) {channel : Channel} (off : channel.logs = false)

include off

theorem Channel.log_eq_nil (line : LogLine) : channel.log line = [] := by
  simp [log, off]

theorem Channel.isEntry_of_mem_write (notices : List Notice) :
    ∀ piece ∈ notices.flatMap channel.write, piece.isEntry = false := by
  intro piece member
  obtain ⟨notice, -, written⟩ := List.mem_flatMap.mp member
  cases notice with
  | printed report =>
      rw [List.mem_singleton.mp written]
      rfl
  | noted entry =>
      rw [write, Channel.log_eq_nil off] at written
      cases written

theorem isPlain_runScript (path source : Bytes) : (runScript world channel path source).IsPlain := by
  unfold runScript
  dsimp only
  rw [Channel.log_eq_nil off, List.nil_append]
  exact Channel.isEntry_of_mem_write off _

theorem isPlain_printTree (source : Bytes) : (printTree world channel source).IsPlain := by
  unfold printTree
  dsimp only
  split <;> exact Channel.isEntry_of_mem_write off _

theorem isPlain_printTokens (source : Bytes) : (printTokens world channel source).IsPlain := by
  unfold printTokens
  dsimp only
  split <;> exact Channel.isEntry_of_mem_write off _

end Log

section Line

variable {world : World} {path source : Bytes}

theorem onScript_eq (readable : readScript world path = .ok source) (use : Bytes → Reply) :
    onScript world path use = use source := by
  rw [onScript, readable]

/-- What a command on a script does after its settings are loaded. -/
def ScriptCommand.reply (world : World) (channel : Channel) (path source : Bytes) :
    ScriptCommand → Reply
  | .run => runScript world channel path source
  | .printTree => Command.printTree world channel source
  | .printTokens => Command.printTokens world channel source

/-- What a command makes of a script that can be read under valid settings. -/
theorem run_line (documented : world.library.IsDocumented) (named : IsScriptName path)
    (foreign : path ∉ world.library.added) (readable : readScript world path = .ok source)
    (before between after : List Setting) {setup : Setup}
    (valid : loadSettings world (Setting.flags (before ++ between ++ after)) = .ok setup)
    (command : ScriptCommand) :
    run world (command.line before between after path) =
      (command.reply world (setup.channel world) path source).after
        ((setup.channel world).log (.settingsLoaded setup.config setup.settings.color)) := by
  have accepted : command.subcommand.refusal? world.library [path] = none := by
    cases command with
    | run => rfl
    | printTree | printTokens =>
        simp [ScriptCommand.subcommand, Subcommand.refusal?, documented.accepts_one path]
  have performed : perform world setup command.subcommand [path] =
      command.reply world (setup.channel world) path source := by
    cases command <;> exact onScript_eq readable _
  unfold run
  rw [documented.read_line path named foreign]
  dsimp only
  rw [accepted, valid]
  dsimp only
  rw [performed]

end Line

section After

variable {reply : Reply} {pieces : List Piece} (silent : pieces.flatMap Piece.printed = [])

include silent

theorem Reply.err_after : (reply.after pieces).err = reply.err := by
  rw [Reply.err, Reply.after, List.flatMap_append, silent, List.nil_append]
  rfl

theorem Reply.TellsErrors.after {paint : Bytes → Bytes} {errors : List Diagnostic}
    (tells : reply.TellsErrors paint errors) : (reply.after pieces).TellsErrors paint errors :=
  ⟨tells.code, tells.out, (Reply.err_after silent).trans tells.err⟩

theorem Reply.TellsExecution.after {paint : Bytes → Bytes} {errors : List Diagnostic}
    {result : EStateM.Result Stop Machine Unit} (tells : reply.TellsExecution paint errors result) :
    (reply.after pieces).TellsExecution paint errors result :=
  ⟨tells.rejected, tells.failed, tells.completed, tells.only, tells.out,
    (Reply.err_after silent).trans tells.err⟩

end After

theorem shownErrors_isPrefix (paint : Bytes → Bytes) {errors more : List Diagnostic}
    (first : errors <+: more) : shownErrors paint errors <+: shownErrors paint more := by
  obtain ⟨rest, rfl⟩ := first
  rw [shownErrors, shownErrors, List.map_append, List.flatMap_append]
  exact List.prefix_append _ _

/-- The exit code of a command on a script tells the stage of failure, whatever the libraries
are that read its words and settings.  Printing tokens, printing the tree and running exit
with 65, and without output, exactly if an error is found by scanning, by parsing or by
resolving scopes as far as they go.  Running exits with 70 exactly if there is none and the
execution stops on a runtime error, and with 0 if it completes.  What stops a command stops
the next, which prints the same errors first; with the log below its level for debugging,
nothing else goes to the error channel. -/
theorem exit_code_tells_stage {world : World} (documented : world.library.IsDocumented)
    {path source : Bytes} (named : IsScriptName path) (foreign : path ∉ world.library.added)
    (readable : readScript world path = .ok source) (before between after : List Setting)
    {setup : Setup}
    (valid : loadSettings world (Setting.flags (before ++ between ++ after)) = .ok setup)
    (terminates :
      ((Session.initial world.stdin world.clock).run world.fuel source false).1 ≠ .outOfFuel) :
    let reply (command : ScriptCommand) := run world (command.line before between after path)
    let paint := (setup.channel world).paint
    (reply .run).TellsExecution paint (staticErrors source) (execution world source) ∧
    (reply .printTree).TellsErrors paint (syntaxErrors source) ∧
    (reply .printTokens).TellsErrors paint (scan source).errors ∧
    ((reply .printTokens).code = 65 → (reply .printTree).code = 65) ∧
    ((reply .printTree).code = 65 → (reply .run).code = 65) ∧
    (scan source).errors <+: syntaxErrors source ∧
    syntaxErrors source <+: staticErrors source ∧
    (reply .printTokens).err <+: (reply .printTree).err ∧
    (reply .printTree).err <+: (reply .run).err ∧
    (setup.level.showsDebug = false → ∀ command, (reply command).IsPlain) := by
  intro reply paint
  have replies (command : ScriptCommand) :=
    run_line documented named foreign readable before between after valid command
  have unprinted := (setup.channel world).printed_log
    (.settingsLoaded setup.config setup.settings.color)
  have ran : (reply .run).TellsExecution paint (staticErrors source)
      (execution world source) := by
    unfold reply
    rw [replies]
    exact (tellsExecution_runScript world _ source path terminates).after unprinted
  have tree : (reply .printTree).TellsErrors paint (syntaxErrors source) := by
    unfold reply
    rw [replies]
    exact (tellsErrors_printTree world _ source).after unprinted
  have tokens : (reply .printTokens).TellsErrors paint (scan source).errors := by
    unfold reply
    rw [replies]
    exact (tellsErrors_printTokens world _ source).after unprinted
  have scanned : (scan source).errors <+: syntaxErrors source := List.prefix_append _ _
  have parsed : syntaxErrors source <+: staticErrors source := List.prefix_append _ _
  refine ⟨ran, tree, tokens, fun stopped => ?_, fun stopped => ?_, scanned, parsed, ?_, ?_,
    fun off command => ?_⟩
  · exact tree.code_eq_iff.mpr fun silent =>
      tokens.code_eq_iff.mp stopped (List.prefix_nil.mp (silent ▸ scanned))
  · exact ran.rejected.mpr fun silent =>
      tree.code_eq_iff.mp stopped (syntaxErrors_eq_nil silent)
  · rw [tokens.err, tree.err]
    exact shownErrors_isPrefix paint scanned
  · rw [tree.err, ran.err]
    exact (shownErrors_isPrefix paint parsed).trans (List.prefix_append _ _)
  · unfold reply
    rw [replies, Channel.log_eq_nil off]
    cases command with
    | run => exact isPlain_runScript world off path source
    | printTree => exact isPlain_printTree world off source
    | printTokens => exact isPlain_printTokens world off source

/-- A script that calls nil, with a setting on either side of it. -/
theorem exit_code_tells_stage_call :
    let source := Bytes.ofString "print nil;nil();"
    let path := Bytes.ofString "s"
    let world : World :=
      ⟨[47], none, fun found => if found = [47, 115] then .file source else .missing, [],
        fun _ => 0, true, 60, .bundled⟩
    let before : List Setting := [⟨.color, Bytes.ofString "off", true, rfl⟩]
    let after : List Setting := [⟨.logLevel, Bytes.ofString "ast", false, rfl⟩,
      ⟨.logLevel, Bytes.ofString "debug", false, rfl⟩]
    let setup : Setup := ⟨{ Settings.defaults with
      color := Bytes.ofString "off", logLevel := Bytes.ofString "debug" }, .debug, []⟩
    world.library.IsDocumented ∧ IsScriptName path ∧ path ∉ world.library.added ∧
    readScript world path = .ok source ∧
    loadSettings world (Setting.flags (before ++ [] ++ after)) = .ok setup ∧
    ((Session.initial world.stdin world.clock).run world.fuel source false).1 =
      .finished false ∧
    (run world (ScriptCommand.run.line before [] after path)).code = 70 ∧
    (run world (ScriptCommand.printTree.line before [] after path)).code = 0 := by
  intro source path world before after setup
  have documented : world.library.IsDocumented := Library.bundled_isDocumented
  have named : IsScriptName path := ⟨by decide, by decide⟩
  have foreign : path ∉ world.library.added := by decide
  have readable : readScript world path = .ok source := by rfl
  have valid : loadSettings world (Setting.flags (before ++ [] ++ after)) = .ok setup := by
    unfold world before after setup
    cbv
  have failed :
      ((Session.initial world.stdin world.clock).run world.fuel source false).1 =
        .finished false := by decide +kernel
  have silent : staticErrors source = [] := by decide +kernel
  have faulty : runtimeErrors (execution world source) ≠ [] := by decide +kernel
  have terminates :
      ((Session.initial world.stdin world.clock).run world.fuel source false).1 ≠ .outOfFuel := by
    rw [failed]
    decide
  obtain ⟨ran, tree, -⟩ := exit_code_tells_stage documented named foreign readable before []
    after valid terminates
  refine ⟨documented, named, foreign, readable, valid, failed,
    ran.failed.mpr ⟨silent, ?_⟩, ?_⟩
  · cases result : execution world source with
    | ok _ _ => exact absurd (by rw [result]; rfl) faulty
    | error stop machine =>
      cases stop with
      | fault error => exact ⟨error, machine, rfl⟩
      | desync _ | outOfFuel => exact absurd (by rw [result]; rfl) faulty
  · rw [tree.code, if_pos (syntaxErrors_eq_nil silent)]

end LoxLang.Command
