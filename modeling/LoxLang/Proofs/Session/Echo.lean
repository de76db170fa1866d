import LoxLang.Proofs.Eval.Completions
import LoxLang.Proofs.Eval.Printing
import LoxLang.Proofs.Program.Marks
import LoxLang.Proofs.Session.Bench

/-!
Interactive use.  It shows the values of the marked expression statements of the top level,
each on a line of its own after what the statement printed, and changes nothing else.
-/

namespace LoxLang

/-- What a statement of the top level printed, and its value where it is to be shown. -/
structure Segment where
  lines : Array Bytes
  echo : Option Bytes

namespace Segment

/-- The lines of a statement with the line that shows its value. -/
def shown (segment : Segment) : Array Bytes :=
  segment.lines ++ segment.echo.toArray

/-- What is printed where no values are shown. -/
def plain (segments : List Segment) : Array Bytes :=
  segments.foldr (fun segment later => segment.lines ++ later) #[]

/-- What is printed where values are shown. -/
def interactive (segments : List Segment) : Array Bytes :=
  segments.foldr (fun segment later => segment.shown ++ later) #[]

end Segment

/-- The written form of the value of a marked expression statement. -/
def Stmt.echo (access : Access) (fuel : Nat) (machine : Machine) : Stmt → Option Bytes
  | .expression value true =>
      match Eval.evaluate access fuel value machine with
      | .ok result after => some (after.heap.display result)
      | .error _ _ => none
  | _ => none

/-- What the statements of the top level print one after the other.  The last of them may
stop, and shows nothing then. -/
def Stmt.segments (access : Access) (fuel : Nat) : List Stmt → Machine → List Segment
  | [], _ => []
  | statement :: rest, machine =>
      match Eval.execute access fuel statement (machine.withPrinted #[]) with
      | .ok _ after =>
          ⟨after.printed, statement.echo access fuel machine⟩ :: segments access fuel rest after
      | .error _ after => [⟨after.printed, none⟩]

namespace Eval

variable {access : Access} {fuel bound : Nat} {machine between : Machine}

/-- The statement shows its value. -/
def IsShown (interactive : Bool) (statement : Stmt) : Prop :=
  interactive = true ∧ statement.echo? = some true

theorem executeTopLevel_of_not_shown {interactive : Bool} {statement : Stmt}
    (plain : ¬ IsShown interactive statement) :
    executeTopLevel access fuel interactive statement =
      (execute access fuel statement >>= fun _ => pure ()) := by
  cases statement with
  | expression value echo =>
      have notBoth : ¬ (interactive && echo) = true := by
        simpa [IsShown, Stmt.echo?] using plain
      simp only [executeTopLevel, if_neg notBoth]
  | _ => rfl

theorem exists_of_shown {interactive : Bool} {statement : Stmt}
    (shown : IsShown interactive statement) :
    interactive = true ∧ ∃ value, statement = .expression value true := by
  obtain ⟨isInteractive, marked⟩ := shown
  cases statement with
  | expression value echo =>
      cases marked
      exact ⟨isInteractive, value, rfl⟩
  | _ => cases marked

theorem not_shown_plain {statement : Stmt} : ¬ IsShown false statement :=
  fun shown => Bool.false_ne_true shown.1

theorem echo_of_not_shown {statement : Stmt} (plain : ¬ IsShown true statement) :
    statement.echo access fuel machine = none := by
  cases statement with
  | expression value echo =>
      cases echo with
      | true => exact absurd ⟨rfl, rfl⟩ plain
      | false => rfl
  | _ => rfl

section Bind

variable {α β : Type} {action : Eval α} {next : α → Eval β}

theorem bind_of_ok {value : α} (ends : action machine = .ok value between) :
    (action >>= next) machine = next value between := by
  simp only [Bind.bind, EStateM.bind, ends]

theorem bind_of_error {stop : Stop} (ends : action machine = .error stop between) :
    (action >>= next) machine = .error stop between := by
  simp only [Bind.bind, EStateM.bind, ends]

theorem ended_bind_of_ok {value : α} (ends : action machine = .ok value between)
    (later : Ended (next value between)) : Ended ((action >>= next) machine) := by
  rw [bind_of_ok ends]
  exact later

theorem ended_of_bind (ended : Ended ((action >>= next) machine)) : Ended (action machine) :=
  fun after stops => ended after (bind_of_error stops)

end Bind

/-- An expression statement ends as its expression does. -/
theorem execute_expression (value : Expr) (echo : Bool) :
    execute access (fuel + 1) (.expression value echo) =
      (evaluate access fuel value >>= fun _ => pure .normal) := by
  unfold execute
  rfl

/-- An expression statement stops where its expression does. -/
theorem execute_expression_eq_error_iff {value : Expr} {echo : Bool} {stop : Stop} :
    execute access (fuel + 1) (.expression value echo) machine = .error stop between ↔
      evaluate access fuel value machine = .error stop between := by
  rw [execute_expression]
  cases found : evaluate access fuel value machine with
  | ok result after =>
      rw [bind_of_ok found]
      exact ⟨nofun, nofun⟩
  | error cause after =>
      rw [bind_of_error found]
      constructor <;> rintro ⟨⟩ <;> rfl

/-- A statement that completes where nothing is shown completes where values are shown, and
adds its value to its lines if it is to be shown. -/
theorem executeTopLevel_of_ok (room : fuel ≤ bound) {statement : Stmt} {completion : Completion}
    (completes : execute access fuel statement (machine.withPrinted #[]) = .ok completion between)
    (printed : Array Bytes) :
    executeTopLevel access bound true statement (machine.withPrinted printed) =
      .ok () (between.withPrinted
        (printed ++ Segment.shown ⟨between.printed, statement.echo access fuel machine⟩)) := by
  by_cases shown : IsShown true statement
  · obtain ⟨-, value, rfl⟩ := exists_of_shown shown
    cases fuel with
    | zero =>
        unfold execute at completes
        cases completes
    | succ fuel =>
        rw [execute_expression] at completes
        obtain ⟨result, _, evaluated, ⟨⟩⟩ := bind_eq_ok.mp completes
        have again {larger : Nat} (room : fuel ≤ larger) (printed : Array Bytes) :
            evaluate access larger value (machine.withPrinted printed) =
              .ok result (between.withPrinted (printed ++ between.printed)) := by
          rw [((RepeatsWithin.all access room).evaluate value).eq_preceded
            (.of_ok evaluated), evaluated]
          rfl
        have echo : Stmt.echo access (fuel + 1) machine (.expression value true) =
            some (between.heap.display result) := by
          have here := again (Nat.le_succ fuel) machine.printed
          have same : machine.withPrinted machine.printed = machine := rfl
          rw [same] at here
          simp only [Stmt.echo, here]
          rfl
        rw [echo, Segment.shown, ← Array.append_assoc]
        exact (bind_of_ok (again (Nat.le_of_succ_le room) printed)).trans (printLine_eq result _)
  · have again := ((RepeatsWithin.all access room).execute statement).eq_preceded
      (.of_ok completes) printed
    rw [completes] at again
    rw [executeTopLevel_of_not_shown shown, echo_of_not_shown shown, Segment.shown,
      Option.toArray_none, Array.append_empty]
    exact bind_of_ok again

/-- A statement that stops shows nothing. -/
theorem executeTopLevel_of_error (room : fuel ≤ bound) {statement : Stmt} {stop : Stop}
    (stops : execute access fuel statement (machine.withPrinted #[]) = .error stop between)
    (finite : stop ≠ .outOfFuel) (printed : Array Bytes) :
    executeTopLevel access bound true statement (machine.withPrinted printed) =
      .error stop (between.withPrinted (printed ++ between.printed)) := by
  by_cases shown : IsShown true statement
  · obtain ⟨-, value, rfl⟩ := exists_of_shown shown
    cases fuel with
    | zero =>
        unfold execute at stops
        cases stops
        exact absurd rfl finite
    | succ fuel =>
        have evaluated := execute_expression_eq_error_iff.mp stops
        have again := ((RepeatsWithin.all access (Nat.le_of_succ_le room)).evaluate value).eq_preceded
          (.of_error evaluated finite) printed
        rw [evaluated] at again
        exact bind_of_error again
  · have again := ((RepeatsWithin.all access room).execute statement).eq_preceded
      (.of_error stops finite) printed
    rw [stops] at again
    rw [executeTopLevel_of_not_shown shown]
    exact bind_of_error again

/-- How an execution ended, on the machine that it left. -/
def ending (outcome : Except Stop Unit) (after : Machine) : EStateM.Result Stop Machine Unit :=
  match outcome with
  | .ok () => .ok () after
  | .error stop => .error stop after

theorem ended_ending {outcome : Except Stop Unit} (finite : outcome ≠ .error .outOfFuel)
    (after : Machine) : Ended (ending outcome after) := by
  cases outcome with
  | ok => exact .of_ok rfl
  | error stop => exact .of_error rfl fun exhausted => finite (congrArg Except.error exhausted)

/-- What the statements add to what was printed, where values are not shown and where they
are, and that they end alike. -/
theorem interpret_eq_segments (room : fuel ≤ bound) (statements : List Stmt)
    (machine : Machine) {earlier : Array Bytes}
    (ended : Ended (interpret access fuel false statements (machine.withPrinted earlier))) :
    ∃ (outcome : Except Stop Unit) (after : Machine),
      outcome ≠ .error .outOfFuel ∧ ∀ printed,
        interpret access fuel false statements (machine.withPrinted printed) =
            ending outcome (after.withPrinted
              (printed ++ Segment.plain (Stmt.segments access fuel statements machine))) ∧
          interpret access bound true statements (machine.withPrinted printed) =
            ending outcome (after.withPrinted
              (printed ++ Segment.interactive (Stmt.segments access fuel statements machine))) := by
  induction statements generalizing machine earlier with
  | nil =>
      refine ⟨.ok (), machine, nofun, fun printed => ?_⟩
      simp only [Stmt.segments, Segment.plain, Segment.interactive, List.foldr_nil,
        Array.append_empty]
      exact ⟨rfl, rfl⟩
  | cons statement rest inductionHypothesis =>
      have same := (RepeatsWithin.all access (Nat.le_refl fuel)).execute statement
      have executed : Ended (execute access fuel statement (machine.withPrinted earlier)) := by
        have first := ended_of_bind ended
        rw [executeTopLevel_of_not_shown not_shown_plain] at first
        exact ended_of_bind first
      have blank : Ended (execute access fuel statement (machine.withPrinted #[])) :=
        same.ended executed #[]
      cases found : execute access fuel statement (machine.withPrinted #[]) with
      | ok completion between =>
          have plain (printed : Array Bytes) :
              executeTopLevel access fuel false statement (machine.withPrinted printed) =
                .ok () (between.withPrinted (printed ++ between.printed)) := by
            have again := same.eq_preceded blank printed
            rw [found] at again
            rw [executeTopLevel_of_not_shown not_shown_plain]
            exact bind_of_ok again
          have later : Ended (interpret access fuel false rest
              (between.withPrinted (earlier ++ between.printed))) := by
            have both := ended
            rw [interpret, bind_of_ok (plain earlier)] at both
            exact both
          obtain ⟨outcome, after, finite, ends⟩ := inductionHypothesis between later
          refine ⟨outcome, after, finite, fun printed => ?_⟩
          simp only [Stmt.segments, found, Segment.plain, Segment.interactive, List.foldr_cons,
            ← Array.append_assoc]
          constructor
          · exact (bind_of_ok (plain printed)).trans (ends _).1
          · exact (bind_of_ok (executeTopLevel_of_ok room found printed)).trans (ends _).2
      | error stop between =>
          have finite : stop ≠ .outOfFuel := by
            rintro rfl
            exact blank between found
          refine ⟨.error stop, between, fun wrong => finite (Except.error.inj wrong),
            fun printed => ?_⟩
          simp only [Stmt.segments, found, Segment.plain, Segment.interactive, Segment.shown,
            List.foldr_cons, List.foldr_nil, Option.toArray_none, Array.append_empty]
          constructor
          · have again := same.eq_preceded blank printed
            rw [found] at again
            rw [interpret, executeTopLevel_of_not_shown not_shown_plain]
            exact bind_of_error (bind_of_error again)
          · exact bind_of_error (executeTopLevel_of_error room found finite printed)

theorem executeTopLevel_repeats (room : fuel ≤ bound) (interactive : Bool) (statement : Stmt) :
    Repeats (executeTopLevel access fuel interactive statement)
      (executeTopLevel access bound interactive statement) := by
  have same := RepeatsWithin.all access room
  by_cases shown : IsShown interactive statement
  · obtain ⟨rfl, value, rfl⟩ := exists_of_shown shown
    exact (same.evaluate value).bind fun _ => .printLine _
  · rw [executeTopLevel_of_not_shown shown, executeTopLevel_of_not_shown shown]
    exact (same.execute statement).bind fun _ => .pure ()

theorem interpret_repeats (room : fuel ≤ bound) (interactive : Bool) (statements : List Stmt) :
    Repeats (interpret access fuel interactive statements)
      (interpret access bound interactive statements) := by
  induction statements with
  | nil => exact .pure ()
  | cons statement rest inductionHypothesis =>
      exact (executeTopLevel_repeats room interactive statement).bind fun _ => inductionHypothesis

/-- The value of a shown statement takes one step less than the statement, so one more step
is enough where nothing is shown. -/
theorem ended_plain_of_interactive (statements : List Stmt) {machine : Machine}
    (ended : Ended (interpret access bound true statements machine)) (printed : Array Bytes) :
    Ended (interpret access (bound + 1) false statements (machine.withPrinted printed)) := by
  have room := Nat.le_succ bound
  induction statements generalizing machine printed with
  | nil => exact .of_ok rfl
  | cons statement rest inductionHypothesis =>
      have first := ended_of_bind ended
      have executed : Ended (execute access (bound + 1) statement (machine.withPrinted #[])) := by
        by_cases shown : IsShown true statement
        · obtain ⟨-, value, rfl⟩ := exists_of_shown shown
          have evaluated := ((RepeatsWithin.all access (Nat.le_refl bound)).evaluate value).ended
            (ended_of_bind first) #[]
          exact fun after stops => evaluated after (execute_expression_eq_error_iff.mp stops)
        · rw [executeTopLevel_of_not_shown shown] at first
          exact ((RepeatsWithin.all access room).execute statement).ended (ended_of_bind first) #[]
      have again := ((RepeatsWithin.all access (Nat.le_refl (bound + 1))).execute
        statement).eq_preceded executed printed
      rw [interpret, executeTopLevel_of_not_shown not_shown_plain]
      cases found : execute access (bound + 1) statement (machine.withPrinted #[]) with
      | ok completion between =>
          have larger := (executeTopLevel_repeats room true statement).eq_of_ended first
          have shows := larger.symm.trans
            (executeTopLevel_of_ok (Nat.le_refl (bound + 1)) found machine.printed)
          rw [interpret, bind_of_ok shows] at ended
          rw [found] at again
          exact ended_bind_of_ok (bind_of_ok again) (inductionHypothesis ended _)
      | error stop between =>
          rw [found] at again
          have finite : stop ≠ .outOfFuel := fun exhausted => executed between (exhausted ▸ found)
          exact .of_error (bind_of_error (bind_of_error again)) finite

end Eval

namespace Session

variable (session : Session) (statements : List Stmt)

theorem conclude_ne_outOfFuel_iff {session : Session} {result : EStateM.Result Stop Machine Unit} :
    (session.conclude result).1 ≠ .outOfFuel ↔ Ended result := by
  match result with
  | .ok () _ => exact ⟨fun _ => .of_ok rfl, fun _ => nofun⟩
  | .error (.fault _) _ => exact ⟨fun _ => .of_error rfl nofun, fun _ => nofun⟩
  | .error (.desync _) _ => exact ⟨fun _ => .of_error rfl nofun, fun _ => nofun⟩
  | .error .outOfFuel machine =>
      exact ⟨fun finite => absurd rfl finite, fun ended => absurd rfl (ended machine)⟩

/-- What is printed and noted before an end is no matter to what a session makes of it. -/
theorem conclude_ending {outcome : Except Stop Unit} (finite : outcome ≠ .error .outOfFuel)
    (after : Machine) :
    ∃ (finished : Outcome × Session) (notes : List LogEntry), ∀ entry printed,
      (session.note entry).conclude (Eval.ending outcome (after.withPrinted printed)) =
        (finished.1, { finished.2 with
          machine := finished.2.machine.withPrinted printed
          log := session.log ++ entry :: notes }) := by
  match outcome, finite with
  | .ok (), _ => exact ⟨(.finished true, { session with machine := after }), [], fun _ _ => rfl⟩
  | .error (.fault error), _ =>
      refine ⟨(.finished false, { session with machine := after }.fail error),
        [.failed error], fun entry printed => ?_⟩
      simp only [conclude, Eval.ending, fail, note, List.append_assoc]
      rfl
  | .error (.desync cause), _ =>
      exact ⟨(.desync cause, { session with machine := after }), [], fun _ _ => rfl⟩
  | .error .outOfFuel, finite => exact absurd rfl finite

/-- Interactive use ends as other use does, with the same session but for what is printed and
the note that says how it was used.  What is printed are the same lines, and after those of
each marked expression statement that completes, a line that shows its value.  A source marks
all its expression statements but assignments. -/
theorem interpret_interactive :
    ((∃ fuel, (session.interpret fuel statements false).1 ≠ .outOfFuel) ↔
      ∃ fuel, (session.interpret fuel statements true).1 ≠ .outOfFuel) ∧
      (∀ fuel bound, (session.interpret fuel statements false).1 ≠ .outOfFuel →
        (session.interpret bound statements true).1 ≠ .outOfFuel →
          let plain := session.interpret fuel statements false
          let segments := Stmt.segments ⟨session.table, .recorded⟩ fuel statements session.machine
          plain.2.machine.printed = session.machine.printed ++ Segment.plain segments ∧
            ∃ notes,
              plain.2.log = session.log ++ .interpreting statements.length false :: notes ∧
                session.interpret bound statements true =
                  (plain.1, { plain.2 with
                    machine := plain.2.machine.withPrinted
                      (session.machine.printed ++ Segment.interactive segments)
                    log := session.log ++ .interpreting statements.length true :: notes })) ∧
      ∀ tokens, ∀ statement ∈ (session.parse tokens).1, statement.IsMarked := by
  simp only [interpret_eq, conclude_ne_outOfFuel_iff]
  have same : session.machine.withPrinted session.machine.printed = session.machine := rfl
  refine ⟨⟨?_, ?_⟩, fun fuel bound ended endedInteractive => ?_, fun tokens =>
    isMarked_of_mem_parse tokens session.nextId⟩
  · rintro ⟨fuel, ended⟩
    obtain ⟨outcome, after, finite, ends⟩ :=
      Eval.interpret_eq_segments (Nat.le_refl fuel) statements session.machine ended
    refine ⟨fuel, ?_⟩
    have shown := (ends session.machine.printed).2
    rw [same] at shown
    rw [shown]
    exact Eval.ended_ending finite _
  · rintro ⟨bound, ended⟩
    exact ⟨bound + 1, Eval.ended_plain_of_interactive statements ended session.machine.printed⟩
  · obtain ⟨outcome, after, finite, ends⟩ :=
      Eval.interpret_eq_segments (Nat.le_max_left fuel bound) statements session.machine ended
    obtain ⟨plain, shown⟩ := ends session.machine.printed
    have larger := (Eval.interpret_repeats (Nat.le_max_right fuel bound) true
      statements).eq_of_ended endedInteractive
    rw [same] at plain shown
    rw [← larger, plain, shown]
    obtain ⟨finished, notes, concludes⟩ := session.conclude_ending finite after
    rw [concludes, concludes]
    exact ⟨rfl, notes, rfl, rfl⟩

/-- A value is shown between the lines that two other statements print. -/
theorem interpret_interactive_between :
    let session := Session.initial [] fun _ => 0
    let statements : List Stmt := [.print (.literal .nil),
      .expression (.literal (.bool true)) true, .print (.literal (.bool false))]
    (session.interpret 2 statements false).1 ≠ .outOfFuel ∧
      (session.interpret 2 statements true).1 ≠ .outOfFuel ∧
      (session.interpret 2 statements true).2.machine.printed =
        #[Bytes.ofString "nil", Bytes.ofString "true", Bytes.ofString "false"] := by
  intro session statements
  have ended : (session.interpret 2 statements false).1 ≠ .outOfFuel := by decide +kernel
  have endedInteractive : (session.interpret 2 statements true).1 ≠ .outOfFuel := by
    decide +kernel
  obtain ⟨-, related, -⟩ := interpret_interactive session statements
  obtain ⟨-, notes, -, shown⟩ := related 2 2 ended endedInteractive
  have lines : Segment.interactive
      (Stmt.segments ⟨session.table, .recorded⟩ 2 statements session.machine) =
        #[Bytes.ofString "nil", Bytes.ofString "true", Bytes.ofString "false"] := by
    decide +kernel
  refine ⟨ended, endedInteractive,
    (congrArg (fun result => result.2.machine.printed) shown).trans ?_⟩
  exact Array.empty_append.trans lines

end Session

end LoxLang
