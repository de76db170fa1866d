import LoxLang.Proofs.Program.Join
import LoxLang.Proofs.Scope.Relabel
import LoxLang.Proofs.Session.Bench
import LoxLang.Proofs.Session.Search
import LoxLang.Proofs.Token.Join

/-!
Programs in pieces.  A session that runs two sources one after the other does what it
does on the joined source: each stage splits at the line feed between them, and
execution goes on from the machine that the first part left.
-/

namespace LoxLang

theorem endsOnce_scan (source : Bytes) : Grammar.EndsOnce (scan source).tokens :=
  ⟨tokensWithin source, _, rfl, rfl, kind_ne_eof_of_mem_tokensWithin⟩

namespace IsAccepted

variable {source : Bytes}

/-- What is accepted by a new session parses from every identity on. -/
theorem errors_parse (accepted : IsAccepted source) (nextId : RefId) :
    (parse (scan source).tokens nextId).errors = [] := by
  have renumbered := @parse_renumber (nextId + ·) 0 (fun _ _ => rfl) (scan source).tokens
  exact (congrArg Parser.Parsed.errors renumbered).trans accepted.parsed

/-- What is accepted by a new session is resolved beside any other code. -/
theorem errors_resolve (accepted : IsAccepted source) {table : Resolution} {nextId : RefId}
    (fresh : IsFresh table nextId) :
    (resolve (parse (scan source).tokens nextId).statements table).2 = [] := by
  have renumbered := @parse_renumber (nextId + ·) 0 (fun _ _ => rfl) (scan source).tokens
  have statements : (parse (scan source).tokens nextId).statements =
      Stmt.relabelAll (.renumber (nextId + ·)) (parse (scan source).tokens 0).statements :=
    congrArg Parser.Parsed.statements renumbered
  have unrecorded : ∀ id, table[nextId + id]? = ({} : Resolution)[id]? := fun id => by
    rw [fresh _ (Nat.le_add_right nextId id)]
    exact Std.HashMap.getElem?_empty.symm
  have resolved := @resolve_relabel (.renumber (nextId + ·)) Nat.add_left_cancel
    (parse (scan source).tokens 0).statements {} table unrecorded
  rw [statements, resolved.2, accepted.resolved]
  rfl

end IsAccepted

/-- Empty lines before a source only move its tree. -/
theorem parse_moveDown {source : Bytes} (accepted : IsAccepted source) (distance : Nat)
    (nextId : RefId) :
    (parse (scan (source.moveDown distance)).tokens nextId).errors = [] ∧
      (parse (scan (source.moveDown distance)).tokens nextId).statements =
        Stmt.relabelAll (.moveDown distance) (parse (scan source).tokens nextId).statements := by
  rw [(scan_moveDown source distance).1]
  exact @parse_append [] (scan source).tokens (.endOfSource 1) nextId distance
    ⟨[], _, rfl, rfl, fun _ member => nomatch member⟩ (endsOnce_scan source) rfl
    (accepted.errors_parse nextId)

/-- What is accepted is accepted after empty lines. -/
theorem IsAccepted.moveDown {source : Bytes} (accepted : IsAccepted source) (distance : Nat) :
    IsAccepted (source.moveDown distance) := by
  obtain ⟨parsed, trees⟩ := parse_moveDown accepted distance 0
  refine ⟨?_, parsed, ?_⟩
  · rw [(scan_moveDown source distance).2, accepted.scanned]
    rfl
  · rw [trees, (@resolve_relabel (.moveDown distance) id _ {} {} fun _ => rfl).2,
      accepted.resolved]
    rfl

namespace Session

variable {session : Session} {source : Bytes}

/-- Source without a static error is executed. -/
theorem run_of_silent (silent : session.hadError = false)
    (scanned : (LoxLang.scan source).errors = [])
    (parsed : (session.parsed source).errors = [])
    (resolved : (LoxLang.resolve (session.parsed source).statements session.table).2 = [])
    (fuel : Nat) (interactive : Bool) :
    session.run fuel source interactive =
      (session.checked source).interpret fuel (session.parsed source).statements interactive ∧
      (session.checked source).hadError = false := by
  have silentRead : (session.read source).hadError = false :=
    hadError_reject_eq_false.mpr ⟨hadError_reject_eq_false.mpr ⟨silent, scanned⟩, parsed⟩
  have silentChecked : (session.checked source).hadError = false :=
    hadError_reject_eq_false.mpr ⟨silentRead, resolved⟩
  refine ⟨?_, silentChecked⟩
  simp only [run_eq, silentRead, silentChecked, if_false, Bool.false_eq_true]

theorem IsNumbered.run_of_accepted (numbered : session.IsNumbered)
    (silent : session.hadError = false) (accepted : IsAccepted source) (fuel : Nat)
    (interactive : Bool) :
    session.run fuel source interactive =
      (session.checked source).interpret fuel (session.parsed source).statements interactive ∧
      (session.checked source).hadError = false :=
  run_of_silent silent accepted.scanned (accepted.errors_parse session.nextId)
    (accepted.errors_resolve numbered.fresh) fuel interactive

theorem runtimeError_conclude
    (unset : session.hadRuntimeError = false → session.runtimeError = none)
    (result : EStateM.Result Stop Machine Unit) :
    (session.conclude result).2.hadRuntimeError = false →
      (session.conclude result).2.runtimeError = none := by
  unfold conclude
  split
  case h_2 => exact fun unfailed => Bool.noConfusion unfailed
  all_goals exact unset

/-- Without a runtime error flag there is no runtime error. -/
theorem Reachable.runtimeError_eq_none (reachable : session.Reachable) :
    session.hadRuntimeError = false → session.runtimeError = none := by
  induction reachable with
  | initial input clock => exact fun _ => rfl
  | run _ fuel source interactive inductionHypothesis =>
      rw [run_eq]
      split
      · rw [hadRuntimeError_read, runtimeError_read]
        exact inductionHypothesis
      · split
        · rw [hadRuntimeError_checked, runtimeError_checked]
          exact inductionHypothesis
        · rw [interpret_eq]
          apply runtimeError_conclude
          simp only [Session.note, hadRuntimeError_checked, runtimeError_checked]
          exact inductionHypothesis
  | clear _ _ => exact fun _ => rfl

/-- What a reachable session holds was given out by it. -/
theorem Reachable.isNumbered (reachable : session.Reachable) : session.IsNumbered := by
  induction reachable with
  | initial input clock => exact .initial input clock
  | run _ fuel source interactive inductionHypothesis =>
      exact inductionHypothesis.run fuel source interactive
  | clear _ inductionHypothesis => exact inductionHypothesis.clear

end Session

/-- The tokens in the code of all functions. -/
def Heap.tokens (heap : Heap) : List Token :=
  heap.closures.toList.flatMap fun closure => closure.declaration.tokens

theorem Heap.mem_tokens {heap : Heap} {id : ClosureId} {token : Token}
    (bound : id < heap.closures.size)
    (member : token ∈ (heap.closure id).declaration.tokens) : token ∈ heap.tokens := by
  have held : heap.closure id ∈ heap.closures.toList := by
    unfold Heap.closure
    rw [Array.getD_eq_getD_getElem?, Array.getElem?_eq_getElem bound]
    exact Array.getElem_mem_toList bound
  exact List.mem_flatMap.mpr ⟨_, held, member⟩

/-- A token of earlier code stays where it is, and one of later code stands further
down. -/
def Token.IsMoved (earlier later : List Token) (distance : Nat) (token image : Token) : Prop :=
  token ∈ earlier ∧ image = token ∨
    token ∈ later ∧ image = (Relabelling.moveDown distance).token token

theorem Token.IsMoved.lexeme {earlier later : List Token} {distance : Nat} {token image : Token}
    (moved : token.IsMoved earlier later distance image) : image.lexeme = token.lexeme := by
  rcases moved with ⟨-, rfl⟩ | ⟨-, rfl⟩ <;> rfl

theorem Token.IsMoved.eq_of_zero {earlier later : List Token} {token image : Token}
    (moved : token.IsMoved earlier later 0 image) : image = token := by
  rcases moved with ⟨-, rfl⟩ | ⟨-, rfl⟩ <;> rfl

/-- The same fault at tokens that are related. -/
def RuntimeError.Alike (tokens : Token → Token → Prop) (error other : RuntimeError) : Prop :=
  other.fault = error.fault ∧ tokens error.token other.token

theorem RuntimeError.eq_of_alike {tokens : Token → Token → Prop}
    (unmoved : ∀ token image, tokens token image → image = token)
    {error other : Option RuntimeError}
    (alike : Option.Rel (Alike tokens) error other) : other = error := by
  cases alike with
  | none => rfl
  | @some found image same =>
      obtain ⟨fault, token⟩ := same
      cases found
      cases image
      cases fault
      cases unmoved _ _ token
      rfl

/-- Sessions make the same of executions that end alike. -/
theorem Session.conclude_alike {like : Likeness} {session other : Session}
    {result otherResult : EStateM.Result Stop Machine Unit}
    (lexemes : ∀ token image, like.tokens token image → image.lexeme = token.lexeme)
    (ends : Machine.EndsAlike like result otherResult)
    (unset : session.runtimeError = none) (otherUnset : other.runtimeError = none) :
    (other.conclude otherResult).1 = (session.conclude result).1 ∧
      (session.conclude result).2.machine.Alike like (other.conclude otherResult).2.machine ∧
        Option.Rel (RuntimeError.Alike like.tokens) (session.conclude result).2.runtimeError
          (other.conclude otherResult).2.runtimeError := by
  have nothing : Option.Rel (RuntimeError.Alike like.tokens) session.runtimeError
      other.runtimeError := by
    rw [unset, otherUnset]
    exact .none
  cases ends with
  | ok alike => exact ⟨rfl, alike, nothing⟩
  | error stops alike =>
      cases stops with
      | fault tokens => exact ⟨rfl, alike.global, .some ⟨rfl, tokens⟩⟩
      | desync => exact ⟨rfl, alike, nothing⟩
      | @missing name image distance tokens =>
          have texts : image.text = name.text := lexemes _ _ tokens
          exact ⟨congrArg (fun text => Outcome.desync (.nameMissing text distance)) texts, alike,
            nothing⟩
      | outOfFuel => exact ⟨rfl, alike, nothing⟩

theorem Session.conclude_of_finished {session : Session}
    {result : EStateM.Result Stop Machine Unit}
    (finished : (session.conclude result).1 = .finished true) :
    ∃ machine, result = .ok () machine := by
  unfold conclude at finished
  split at finished
  · exact ⟨_, rfl⟩
  all_goals cases finished

/-- A program in two parts is executed one part after the other. -/
theorem Eval.interpret_append (access : Access) (fuel : Nat) (interactive : Bool)
    (first second : List Stmt) (machine : Machine) :
    interpret access fuel interactive (first ++ second) machine =
      match interpret access fuel interactive first machine with
      | .ok () between => interpret access fuel interactive second between
      | .error stop between => .error stop between := by
  induction first generalizing machine with
  | nil => rfl
  | cons statement rest inductionHypothesis =>
      simp only [List.cons_append, interpret, Bind.bind, EStateM.bind]
      cases executeTopLevel access fuel interactive statement machine with
      | ok value between => exact inductionHypothesis between
      | error stop between => rfl

section Joined

variable {first second : Bytes}

/-- The statements of the second of two joined sources, when those of the first take
the identities from one on. -/
def partAfter (first second : Bytes) (nextId : RefId) : List Stmt :=
  (parse (scan second).tokens (parse (scan first).tokens nextId).nextId).statements

/-- The joined source parses as the two sources do. -/
theorem parse_joined (accepted : IsAccepted first) (acceptedSecond : IsAccepted second)
    (nextId : RefId) :
    (parse (scan (first ++ Bytes.lineFeed :: second)).tokens nextId).errors = [] ∧
      (parse (scan (first ++ Bytes.lineFeed :: second)).tokens nextId).statements =
        (parse (scan first).tokens nextId).statements ++
          Stmt.relabelAll (.moveDown (1 + first.lineFeeds)) (partAfter first second nextId) := by
  rw [(scan_append_lineFeed second accepted.scanned).1]
  exact @parse_append (tokensWithin first) (scan second).tokens _ nextId (1 + first.lineFeeds)
    (endsOnce_scan first) (endsOnce_scan second) (accepted.errors_parse nextId)
    (acceptedSecond.errors_parse _)

/-- The joined source is resolved as the two sources are. -/
theorem resolve_joined (accepted : IsAccepted first) (acceptedSecond : IsAccepted second)
    {nextId : RefId} {table : Resolution} (fresh : IsFresh table nextId) :
    let statements := (parse (scan first).tokens nextId).statements
    let part := partAfter first second nextId
    let joined := resolve
      (statements ++ Stmt.relabelAll (.moveDown (1 + first.lineFeeds)) part) table
    joined.2 = [] ∧
      ∀ id : RefId, joined.1[id]? = (resolve part (resolve statements table).1).1[id]? := by
  intro statements part joined
  have silent := accepted.errors_parse nextId
  have program := (isProgram_of_parse (named_scan first) silent).1
  have split : joined = resolve (Stmt.relabelAll (.moveDown (1 + first.lineFeeds)) part)
      (resolve statements table).1 :=
    resolve_append _ program.distinct (accepted.errors_resolve fresh)
  obtain ⟨records, errors⟩ := @resolve_relabel (.moveDown (1 + first.lineFeeds)) id part
    (resolve statements table).1 (resolve statements table).1 fun _ => rfl
  have silentPart : (resolve part (resolve statements table).1).2 = [] :=
    acceptedSecond.errors_resolve (isFresh_resolve fresh (named_scan first) silent)
  rw [split]
  refine ⟨?_, records⟩
  rw [errors, silentPart]
  rfl

end Joined

/-- The second part of a program ends as it does after the first part when the
machine was left by the first part, also with the records of both parts and with the
second part further down. -/
theorem Machine.Alike.interpret_parts {machine between : Machine} {bound : RefId}
    {table later whole : Resolution} {statements : List Stmt} {fuel : Nat}
    {interactive : Bool} (part : List Stmt) (distance : Nat)
    (alike : machine.Alike (.own bound) machine)
    (below : ∀ reference ∈ Stmt.referencesAll statements, reference.id < bound)
    (early : ∀ id, id < bound → whole[id]? = table[id]?)
    (late : ∀ id : RefId, whole[id]? = later[id]?)
    (completed : Eval.interpret ⟨table, .recorded⟩ fuel interactive statements machine =
      .ok () between) :
    EndsAlike
      (.plain (Token.IsMoved between.heap.tokens (Stmt.tokensAll part) distance)
        fun id image => image = id)
      (Eval.interpret ⟨later, .recorded⟩ fuel interactive part between)
      (Eval.interpret ⟨whole, .recorded⟩ fuel interactive
        (statements ++ Stmt.relabelAll (.moveDown distance) part) machine) := by
  have agrees : (Likeness.own bound).Agrees table whole :=
    Likeness.plain_agrees fun link => by rw [link.1]; exact early _ link.2
  have first := alike.interpret agrees (Stmt.alikeAll_own below) fuel interactive
  rw [completed] at first
  rw [Eval.interpret_append]
  generalize Eval.interpret ⟨whole, .recorded⟩ fuel interactive statements machine = result
    at first ⊢
  cases first with
  | @ok _ other reached =>
      apply Machine.Alike.interpret
      · exact reached.imp fun id bound => Likeness.plain_carries (fun link => link.1)
          fun token member image same => .inl ⟨Heap.mem_tokens bound member, same.symm⟩
      · exact Likeness.plain_agrees fun {id _} link => by rw [link]; exact late id
      · exact Stmt.alikeAll_relabelAll part
          (Likeness.plain_admits (fun token member => .inr ⟨member, rfl⟩) fun _ _ => rfl)

/-- A session is left by source that ran to its end on another one. -/
structure Session.Completes (session : Session) (source : Bytes) (fuel : Nat) (interactive : Bool)
    (after : Session) : Prop where
  hadError : after.hadError = false
  table : after.table = (LoxLang.resolve (session.parsed source).statements session.table).1
  nextId : after.nextId = (session.parsed source).nextId
  runtimeError : after.runtimeError = session.runtimeError
  executed : Eval.interpret
    ⟨(LoxLang.resolve (session.parsed source).statements session.table).1, .recorded⟩ fuel
      interactive (session.parsed source).statements session.machine = .ok () after.machine

namespace Session.IsNumbered

variable {session : Session} {first second : Bytes}

theorem run_of_finished (numbered : session.IsNumbered) (silent : session.hadError = false)
    (accepted : IsAccepted first) {fuel : Nat} {interactive : Bool}
    (completed : (session.run fuel first interactive).1 = .finished true) :
    Completes session first fuel interactive (session.run fuel first interactive).2 := by
  obtain ⟨ran, silentChecked⟩ := numbered.run_of_accepted silent accepted fuel interactive
  rw [interpret_eq, table_checked, machine_checked] at ran
  rw [ran] at completed ⊢
  obtain ⟨machine, reached⟩ := conclude_of_finished completed
  rw [reached]
  exact ⟨silentChecked, table_checked session first, nextId_checked session first,
    runtimeError_checked session first, reached⟩

/-- The joined source is executed as the statements of both sources. -/
theorem run_joined (numbered : session.IsNumbered) (silent : session.hadError = false)
    (accepted : IsAccepted first) (acceptedSecond : IsAccepted second) (fuel : Nat)
    (interactive : Bool) :
    let statements := (session.parsed first).statements ++
      Stmt.relabelAll (.moveDown (1 + first.lineFeeds)) (partAfter first second session.nextId)
    ∃ noted : Session, noted.runtimeError = session.runtimeError ∧
      session.run fuel (first ++ Bytes.lineFeed :: second) interactive =
        noted.conclude (Eval.interpret ⟨(LoxLang.resolve statements session.table).1, .recorded⟩
          fuel interactive statements session.machine) := by
  intro statements
  have scanned : (LoxLang.scan (first ++ Bytes.lineFeed :: second)).errors = [] := by
    rw [(scan_append_lineFeed second accepted.scanned).2, acceptedSecond.scanned]
    rfl
  obtain ⟨parsed, trees⟩ := parse_joined accepted acceptedSecond session.nextId
  have same : (session.parsed (first ++ Bytes.lineFeed :: second)).statements = statements := trees
  have resolved : (LoxLang.resolve statements session.table).2 = [] :=
    (resolve_joined accepted acceptedSecond numbered.fresh).1
  rw [← same] at resolved
  obtain ⟨ran, -⟩ := run_of_silent silent scanned parsed resolved fuel interactive
  rw [interpret_eq, table_checked, machine_checked, same] at ran
  refine ⟨_, ?_, ran⟩
  simp only [Session.note, runtimeError_checked]

end Session.IsNumbered

/-- After a source that ran to its end, a later one runs as the second part of the joined
source if its trees, moved by some lines, are the trees of that part. -/
theorem Session.Completes.run_joined {session between : Session} {first second later : Bytes}
    {distance fuel : Nat} {interactive : Bool}
    (left : session.Completes first fuel interactive between)
    (numbered : session.IsNumbered) (numberedBetween : between.IsNumbered)
    (silent : session.hadError = false) (unset : session.runtimeError = none)
    (accepted : IsAccepted first) (acceptedSecond : IsAccepted second)
    (acceptedLater : IsAccepted later)
    (trees : Stmt.relabelAll (.moveDown (1 + first.lineFeeds)) (between.parsed second).statements =
      Stmt.relabelAll (.moveDown distance) (between.parsed later).statements) :
    (session.run fuel (first ++ Bytes.lineFeed :: second) interactive).1 =
        (between.run fuel later interactive).1 ∧
      (between.run fuel later interactive).2.machine.Alike
          (.plain (Token.IsMoved between.machine.heap.tokens
            (Stmt.tokensAll (between.parsed later).statements) distance)
              fun id image => image = id)
          (session.run fuel (first ++ Bytes.lineFeed :: second) interactive).2.machine ∧
        Option.Rel
          (RuntimeError.Alike (Token.IsMoved between.machine.heap.tokens
            (Stmt.tokensAll (between.parsed later).statements) distance))
          (between.run fuel later interactive).2.runtimeError
          (session.run fuel (first ++ Bytes.lineFeed :: second) interactive).2.runtimeError := by
  have part : (between.parsed second).statements = partAfter first second session.nextId := by
    unfold Session.parsed partAfter
    rw [left.nextId]
    rfl
  obtain ⟨-, joined⟩ := resolve_joined accepted acceptedSecond numbered.fresh
  obtain ⟨noted, noError, ran⟩ :=
    numbered.run_joined silent accepted acceptedSecond fuel interactive
  obtain ⟨ranLater, -⟩ :=
    numberedBetween.run_of_accepted left.hadError acceptedLater fuel interactive
  rw [← part] at ran joined
  -- The records of the first part are in place before the second one adds its own.
  have early : ∀ id, id < (session.parsed first).nextId →
      (LoxLang.resolve ((session.parsed first).statements ++
        Stmt.relabelAll (.moveDown (1 + first.lineFeeds)) (between.parsed second).statements)
          session.table).1[id]? =
        (LoxLang.resolve (session.parsed first).statements session.table).1[id]? := by
    intro id below
    refine (joined id).trans (resolve_getElem?_of_avoids _ fun reference member => ?_)
    have range := parse_range _ _ reference member
    rw [left.nextId] at range
    exact Nat.ne_of_gt (Nat.lt_of_lt_of_le below range.1)
  -- Records do not depend on lines.
  have late : ∀ id : RefId,
      (LoxLang.resolve ((session.parsed first).statements ++
        Stmt.relabelAll (.moveDown (1 + first.lineFeeds)) (between.parsed second).statements)
          session.table).1[id]? =
        (LoxLang.resolve (between.parsed later).statements between.table).1[id]? := by
    intro id
    have unmoved (lines : Nat) (statements : List Stmt) :=
      (@resolve_relabel (.moveDown lines) (fun same => same) statements between.table between.table
        fun _ => rfl).1 id
    calc
      _ = (LoxLang.resolve (between.parsed second).statements between.table).1[id]? := by
          rw [left.table]
          exact joined id
      _ = (LoxLang.resolve (Stmt.relabelAll (.moveDown (1 + first.lineFeeds))
            (between.parsed second).statements) between.table).1[id]? := (unmoved _ _).symm
      _ = (LoxLang.resolve (Stmt.relabelAll (.moveDown distance)
            (between.parsed later).statements) between.table).1[id]? := by rw [trees]
      _ = (LoxLang.resolve (between.parsed later).statements between.table).1[id]? := unmoved _ _
  rw [trees] at ran early late
  have ends := (numbered.checked first).code.interpret_parts (between.parsed later).statements
    distance (Session.IsNumbered.parsed_below session first) early late left.executed
  rw [interpret_eq, table_checked, machine_checked] at ranLater
  rw [ran, ranLater]
  apply conclude_alike (fun _ _ moved => Token.IsMoved.lexeme moved) ends
  · simp only [Session.note, runtimeError_checked, left.runtimeError, unset]
  · rw [noError, unset]

/-- A program may be fed to a session in pieces.  Let two sources be accepted, and the
first run to its end on a session whose error flags are clear.  Then running the
second one after it, and running both at once with a line feed between them, end in the
same way, print the same, leave the same input and stop at the same runtime error, if
any: in code from before the second source at the same token, and in code of the second
source at the token that stands further down by the lines of the first.  It is the very
error of a second source that is written so many lines further down. -/
theorem run_joined_eq_run_pieces {session : Session} (reachable : session.Reachable)
    (silent : session.hadError = false) (unfailed : session.hadRuntimeError = false)
    {first second : Bytes} (accepted : IsAccepted first) (acceptedSecond : IsAccepted second)
    {fuel : Nat} {interactive : Bool}
    (completed : (session.run fuel first interactive).1 = .finished true) :
    let between := (session.run fuel first interactive).2
    let pieces := between.run fuel second interactive
    let whole := session.run fuel (first ++ Bytes.lineFeed :: second) interactive
    whole.1 = pieces.1 ∧ whole.2.output = pieces.2.output ∧
      whole.2.machine.input = pieces.2.machine.input ∧
        Option.Rel
          (RuntimeError.Alike (Token.IsMoved between.machine.heap.tokens
            (Stmt.tokensAll (between.parsed second).statements) (1 + first.lineFeeds)))
          pieces.2.runtimeError whole.2.runtimeError ∧
        whole.2.runtimeError = (between.run fuel (second.moveDown (1 + first.lineFeeds))
          interactive).2.runtimeError := by
  intro between pieces whole
  have numbered := reachable.isNumbered
  have numberedBetween : between.IsNumbered := numbered.run fuel first interactive
  have left : session.Completes first fuel interactive between :=
    numbered.run_of_finished silent accepted completed
  have unset := reachable.runtimeError_eq_none unfailed
  obtain ⟨outcome, machines, errors⟩ :=
    left.run_joined numbered numberedBetween silent unset accepted acceptedSecond acceptedSecond rfl
  have trees : Stmt.relabelAll (.moveDown (1 + first.lineFeeds))
        (between.parsed second).statements =
      Stmt.relabelAll (.moveDown 0)
        (between.parsed (second.moveDown (1 + first.lineFeeds))).statements :=
    (parse_moveDown acceptedSecond _ _).2.symm.trans
      (Stmt.relabelAll_eq_self _ fun _ _ => rfl).symm
  obtain ⟨-, -, sameErrors⟩ := left.run_joined numbered numberedBetween silent unset accepted
    acceptedSecond (acceptedSecond.moveDown _) trees
  refine ⟨outcome, ?_, machines.input, errors,
    RuntimeError.eq_of_alike (fun _ _ moved => moved.eq_of_zero) sameErrors⟩
  unfold Session.output
  rw [machines.printed]

/-- A function of the first source is called from the second, which then names a
variable that nobody declared, on the second line of both. -/
theorem run_joined_eq_run_pieces_undefined :
    let session := Session.initial [] fun _ => 0
    let first := Bytes.ofString "fun f(a){print a;}"
    let second := Bytes.ofString "f(nil);print b;"
    let between := (session.run 60 first false).2
    let pieces := between.run 60 second false
    let whole := session.run 60 (first ++ Bytes.lineFeed :: second) false
    IsAccepted first ∧ IsAccepted second ∧ (session.run 60 first false).1 = .finished true ∧
      whole.1 = pieces.1 ∧ whole.2.output = pieces.2.output ∧ pieces.1 = .finished false ∧
        whole.2.runtimeError.map (·.token.line) = some 2 := by
  intro session first second between pieces whole
  have accepted : IsAccepted first := ⟨by decide +kernel, by decide +kernel, by decide +kernel⟩
  have acceptedSecond : IsAccepted second :=
    ⟨by decide +kernel, by decide +kernel, by decide +kernel⟩
  have completed : (session.run 60 first false).1 = .finished true := by decide +kernel
  have failed : pieces.1 = .finished false := by
    unfold pieces between session first second
    cbv
  have failedBelow : (between.run 60 (second.moveDown 1) false).2.runtimeError.map
      (·.token.line) = some 2 := by
    unfold between session first second
    cbv
  obtain ⟨outcome, output, -, -, error⟩ := run_joined_eq_run_pieces (.initial [] fun _ => 0) rfl rfl
    accepted acceptedSecond completed
  refine ⟨accepted, acceptedSecond, completed, outcome, output, failed, ?_⟩
  exact (congrArg (Option.map (·.token.line)) error).trans failedBelow

end LoxLang
