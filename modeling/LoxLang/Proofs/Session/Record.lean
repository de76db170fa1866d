import LoxLang.Proofs.Eval.Growth
import LoxLang.Proofs.Scope.Additions
import LoxLang.Proofs.Session.History

/-!
The record of a session only grows.  Every parse gives out identities that no parse before
it gave out, so the programs of a session are resolved independently of each other, in
whatever order and however often.  What is recorded once stays, and a function is bound
ever after as it was when its program was resolved.
-/

namespace LoxLang

namespace Eval

variable (access : Access) (fuel : Nat) (interactive : Bool)

/-- However a program ends, the heap has everything that it had before. -/
theorem growsTo_interpret (statements : List Stmt) (machine : Machine) :
    machine.heap.GrowsTo
      (lastMachine (interpret access fuel interactive statements machine)).heap := by
  induction statements generalizing machine with
  | nil => exact .refl _
  | cons first rest inductionHypothesis =>
      have grows := Activity.growsTo ⟨access, fuel, first.topLevelTask interactive, machine⟩
      obtain ⟨printed, final⟩ :=
        @executeTopLevel_final access fuel interactive machine first
      have heap := congrArg Machine.heap final
      simp only [interpret, Bind.bind, EStateM.bind]
      cases result : executeTopLevel access fuel interactive first machine with
      | ok value after =>
          rw [result] at heap
          exact (heap ▸ grows).trans (inductionHypothesis after)
      | error stop after =>
          rw [result] at heap
          exact heap ▸ grows

end Eval

namespace Session

section Fields

variable (session : Session) (fuel : Nat) (source : Bytes) (interactive : Bool)

@[simp]
theorem table_interpret (statements : List Stmt) :
    (session.interpret fuel statements interactive).2.table = session.table := by
  rw [interpret_eq]
  unfold conclude
  split <;> rfl

theorem nextId_run :
    (session.run fuel source interactive).2.nextId = (session.parsed source).nextId := by
  rw [run_eq]
  split
  · rfl
  · split
    · rfl
    · rw [nextId_interpret, nextId_checked]

/-- A run resolves its program unless a static error stands after parsing. -/
theorem table_run :
    (session.run fuel source interactive).2.table =
      if (session.read source).hadError then session.table
      else (LoxLang.resolve (session.parsed source).statements session.table).1 := by
  rw [run_eq]
  split
  · rfl
  · split
    · rfl
    · rw [table_interpret, table_checked]

theorem growsTo_interpret (statements : List Stmt) :
    session.machine.heap.GrowsTo
      (session.interpret fuel statements interactive).2.machine.heap := by
  rw [interpret_eq, heap_conclude]
  exact Eval.growsTo_interpret _ fuel interactive statements session.machine

theorem growsTo_run :
    session.machine.heap.GrowsTo (session.run fuel source interactive).2.machine.heap := by
  rw [run_eq]
  split
  · exact .refl _
  · split
    · exact .refl _
    · exact (session.checked source).growsTo_interpret fuel interactive _

end Fields

end Session

namespace Bench

/-- A bench after steps, each with a bound of its own. -/
def after (bench : Bench) (steps : List (Nat × Step)) : Bench :=
  steps.foldl (fun bench work => (bench.step work.1 work.2).2) bench

/-- What a series of steps deals with, told what a single step does. -/
def collect (view : Bench → Step → List (List Stmt)) :
    Bench → List (Nat × Step) → List (List Stmt)
  | _, [] => []
  | bench, (fuel, step) :: rest => view bench step ++ collect view (bench.step fuel step).2 rest

/-- The program that a step makes out of tokens. -/
def parsedBy (bench : Bench) : Step → List (List Stmt)
  | .run source _ => [(bench.session.parsed source).statements]
  | .parse => [(LoxLang.parse bench.tokens bench.session.nextId).statements]
  | .scan _ | .resolve | .interpret _ | .tree | .pending | .printErrors | .clear => []

/-- The program whose scopes a step resolves. -/
def resolvedBy (bench : Bench) : Step → List (List Stmt)
  | .run source _ =>
      if (bench.session.read source).hadError then []
      else [(bench.session.parsed source).statements]
  | .resolve => [bench.statements]
  | .scan _ | .parse | .interpret _ | .tree | .pending | .printErrors | .clear => []

theorem collect_append (view : Bench → Step → List (List Stmt)) (bench : Bench)
    (first second : List (Nat × Step)) :
    bench.collect view (first ++ second) =
      bench.collect view first ++ (bench.after first).collect view second := by
  induction first generalizing bench with
  | nil => rfl
  | cons work rest inductionHypothesis =>
      simp only [List.cons_append, collect, inductionHypothesis, List.append_assoc]
      rfl

/-- Whatever a step is, functions stay as they were made. -/
theorem growsTo_step (bench : Bench) (fuel : Nat) (step : Step) :
    bench.session.machine.heap.GrowsTo (bench.step fuel step).2.session.machine.heap := by
  cases step with
  | run source interactive => exact bench.session.growsTo_run fuel source interactive
  | interpret interactive => exact bench.session.growsTo_interpret fuel interactive _
  | _ => exact .refl _

theorem growsTo_after (bench : Bench) (steps : List (Nat × Step)) :
    bench.session.machine.heap.GrowsTo (bench.after steps).session.machine.heap := by
  induction steps generalizing bench with
  | nil => exact .refl _
  | cons work rest inductionHypothesis =>
      exact (bench.growsTo_step work.1 work.2).trans (inductionHypothesis _)

/-- A bench after programs were parsed and some of them resolved.  The statements at hand
are one of them, and the record is what the resolved ones have on their own. -/
structure Accounts (bench : Bench) (parsed resolved : List (List Stmt)) : Prop where
  apart : parsed.Pairwise Apart
  below : ∀ program ∈ parsed, ∀ reference ∈ Stmt.referencesAll program,
    reference.id < bench.session.nextId
  atHand : bench.statements ∈ parsed
  known : ∀ program ∈ resolved, program ∈ parsed
  union : bench.session.table.IsUnion resolved

namespace Accounts

variable {bench : Bench} {parsed resolved : List (List Stmt)}

/-- No statements count as the first program of a session. -/
theorem initial (input : Bytes) (clock : Nat → Float) :
    Accounts (.initial input clock) [[]] [] where
  apart := List.pairwise_singleton _ _
  below program member reference inProgram := by
    obtain rfl := List.mem_singleton.mp member
    exact absurd inProgram List.not_mem_nil
  atHand := List.mem_singleton_self _
  known program member := absurd member List.not_mem_nil
  union := .empty

/-- A new program has identities past those of all programs before it. -/
theorem parse (accounts : Accounts bench parsed resolved) (tokens : List Token) :
    let program := (LoxLang.parse tokens bench.session.nextId).statements
    (parsed ++ [program]).Pairwise Apart ∧
      ∀ other ∈ parsed ++ [program], ∀ reference ∈ Stmt.referencesAll other,
        reference.id < (LoxLang.parse tokens bench.session.nextId).nextId := by
  intro program
  have range := parse_range tokens bench.session.nextId
  constructor
  · rw [List.pairwise_append]
    refine ⟨accounts.apart, List.pairwise_singleton _ _, fun other member last inLast => ?_⟩
    obtain rfl := List.mem_singleton.mp inLast
    intro reference inOther new inNew
    exact Nat.ne_of_lt
      (Nat.lt_of_lt_of_le (accounts.below other member reference inOther) (range new inNew).1)
  · intro other member reference inOther
    rcases List.mem_append.mp member with earlier | last
    · exact Nat.lt_of_lt_of_le (accounts.below other earlier reference inOther)
        (Parser.nextId_le_parse tokens bench.session.nextId)
    · obtain rfl := List.mem_singleton.mp last
      exact (range reference inOther).2

/-- A program that is resolved, be it again, joins the record. -/
theorem resolve (accounts : Accounts bench parsed resolved) {all : List (List Stmt)}
    (distinct : all.Pairwise Apart) (included : parsed ⊆ all) {program : List Stmt}
    (member : program ∈ all) :
    Resolution.IsUnion (LoxLang.resolve program bench.session.table).1 (resolved ++ [program]) :=
  accounts.union.resolve fun other inResolved =>
    eq_or_apart_of_pairwise distinct (included (accounts.known other inResolved)) member

/-- For its references a resolved program has in the record what it has on its own. -/
theorem getElem?_eq (accounts : Accounts bench parsed resolved) {program : List Stmt}
    (member : program ∈ resolved) : ∀ reference ∈ Stmt.referencesAll program,
      bench.session.table[reference.id]? = (resolutionOf program)[reference.id]? :=
  fun _ => accounts.union.getElem?_eq member fun other inResolved =>
    eq_or_apart_of_pairwise accounts.apart (accounts.known other inResolved)
      (accounts.known program member)

/-- Every step keeps the accounts. -/
theorem step (accounts : Accounts bench parsed resolved) (fuel : Nat) (step : Step) :
    Accounts (bench.step fuel step).2 (parsed ++ bench.parsedBy step)
      (resolved ++ bench.resolvedBy step) := by
  cases step with
  | run source interactive =>
      obtain ⟨apart, below⟩ := accounts.parse (LoxLang.scan source).tokens
      have table := bench.session.table_run fuel source interactive
      refine ⟨apart, ?_, List.mem_append_left _ accounts.atHand, ?_, ?_⟩
      · rw [Bench.step, bench.session.nextId_run]
        exact below
      · intro program member
        rcases List.mem_append.mp member with earlier | last
        · exact List.mem_append_left _ (accounts.known program earlier)
        · dsimp only [resolvedBy] at last
          split at last
          · exact absurd last List.not_mem_nil
          · exact List.mem_append_right _ last
      · dsimp only [resolvedBy, Bench.step]
        rw [table]
        split
        · rw [List.append_nil]
          exact accounts.union
        · exact accounts.resolve apart (List.subset_append_left _ _)
            (List.mem_append_right _ (List.mem_singleton_self _))
  | parse =>
      obtain ⟨apart, below⟩ := accounts.parse bench.tokens
      refine ⟨apart, below, List.mem_append_right _ (List.mem_singleton_self _), ?_, ?_⟩
      · intro program member
        rw [resolvedBy, List.append_nil] at member
        exact List.mem_append_left _ (accounts.known program member)
      · rw [resolvedBy, List.append_nil]
        exact accounts.union
  | resolve =>
      rw [parsedBy, List.append_nil]
      refine ⟨accounts.apart, accounts.below, accounts.atHand, ?_, ?_⟩
      · intro program member
        rcases List.mem_append.mp member with earlier | last
        · exact accounts.known program earlier
        · obtain rfl := List.mem_singleton.mp last
          exact accounts.atHand
      · exact accounts.resolve accounts.apart (List.Subset.refl _) accounts.atHand
  | interpret interactive =>
      rw [parsedBy, resolvedBy, List.append_nil, List.append_nil]
      refine ⟨accounts.apart, ?_, accounts.atHand, accounts.known, ?_⟩
      · rw [Bench.step, bench.session.nextId_interpret]
        exact accounts.below
      · rw [Bench.step, bench.session.table_interpret]
        exact accounts.union
  | scan | tree | pending | printErrors | clear =>
      rw [parsedBy, resolvedBy, List.append_nil, List.append_nil]
      exact { accounts with }

theorem after (accounts : Accounts bench parsed resolved) (steps : List (Nat × Step)) :
    Accounts (bench.after steps) (parsed ++ bench.collect parsedBy steps)
      (resolved ++ bench.collect resolvedBy steps) := by
  induction steps generalizing bench parsed resolved with
  | nil =>
      rw [collect, collect, List.append_nil, List.append_nil]
      exact accounts
  | cons work rest inductionHypothesis =>
      have later := inductionHypothesis (accounts.step work.1 work.2)
      rw [List.append_assoc, List.append_assoc] at later
      exact later

end Accounts

end Bench

/-- The record of a session is append-only.  After any steps no two programs that were
parsed share an identity, and after any further steps every entry is what it was.  A program
that was resolved has in the record what it has on its own, and resolving it again leaves
the record as it is.  So a function that was declared in it keeps its declaration, its frame
and the bindings of all its references, those among the globals included. -/
theorem session_keepsRecord (input : Bytes) (clock : Nat → Float)
    (steps further : List (Nat × Step)) :
    let start := Bench.initial input clock
    let bench := start.after steps
    let later := bench.after further
    (start.collect Bench.parsedBy (steps ++ further)).Pairwise Apart ∧
    (∀ (id : RefId) (distance : Nat), bench.session.table[id]? = some distance →
      later.session.table[id]? = some distance) ∧
    ∀ program ∈ start.collect Bench.resolvedBy steps,
      (∀ reference ∈ Stmt.referencesAll program,
        later.session.table[reference.id]? = (resolutionOf program)[reference.id]?) ∧
      (later.session.resolve program).table.Equiv later.session.table ∧
      ∀ id < bench.session.machine.heap.closures.size,
        (bench.session.machine.heap.closure id).declaration.references ⊆
            Stmt.referencesAll program →
          later.session.machine.heap.closure id = bench.session.machine.heap.closure id ∧
          ∀ reference ∈ (bench.session.machine.heap.closure id).declaration.references,
            later.session.table[reference.id]? = bench.session.table[reference.id]? := by
  intro start bench later
  have accounts : bench.Accounts ([[]] ++ start.collect Bench.parsedBy steps)
      ([] ++ start.collect Bench.resolvedBy steps) :=
    (Bench.Accounts.initial input clock).after steps
  have accountsLater := accounts.after further
  have parses := accountsLater.apart
  rw [List.append_assoc, ← Bench.collect_append, List.singleton_append] at parses
  rw [List.nil_append] at accounts accountsLater
  refine ⟨parses.of_cons, fun id distance found => ?_, fun program resolved => ?_⟩
  · obtain ⟨program, member, recorded⟩ := (accounts.union id distance).mp found
    exact (accountsLater.union id distance).mpr ⟨program, List.mem_append_left _ member, recorded⟩
  · have resolvedLater := List.mem_append_left (bench.collect Bench.resolvedBy further) resolved
    have own := accounts.getElem?_eq resolved
    have ownLater := accountsLater.getElem?_eq resolvedLater
    refine ⟨ownLater, accountsLater.union.resolve_again resolvedLater, fun id made within => ?_⟩
    refine ⟨(bench.growsTo_after further).closure id made, fun reference member => ?_⟩
    rw [ownLater reference (within member), own reference (within member)]

/-- A function of an earlier line keeps the binding of its reference, while a later source
with a redeclaration is resolved twice and a further line fails in a call of the function. -/
theorem session_keepsRecord_failing :
    let start := Bench.initial [] fun _ => 0
    let source := Bytes.ofString "fun f(a){{a.b;}}"
    let steps := [(20, Step.run source false)]
    let further := [(20, Step.scan (Bytes.ofString "{var b;{b;}var b;}")), (20, .parse),
      (20, .resolve), (20, .resolve), (20, .clear), (20, .run (Bytes.ofString "f(nil);") false)]
    let bench := start.after steps
    let later := bench.after further
    let program := (start.session.parsed source).statements
    bench.session.table[0]? = some 1 ∧ later.session.hadRuntimeError = true ∧
      later.session.table[0]? = some 1 ∧
      (later.session.resolve program).table.Equiv later.session.table ∧
      later.session.machine.heap.closure 0 = bench.session.machine.heap.closure 0 := by
  intro start source steps further bench later program
  have silent : (start.session.read source).hadError = false := by decide +kernel
  have computed : (bench.session.table[0]?, bench.session.machine.heap.closures.size,
      (bench.session.machine.heap.closure 0).declaration.references) =
        (some 1, 1, Stmt.referencesAll program) := by decide +kernel
  have failed : later.session.hadRuntimeError = true := by
    unfold later further bench steps source start
    cbv
  simp only [Prod.mk.injEq] at computed
  obtain ⟨recorded, size, references⟩ := computed
  have resolved : program ∈ start.collect Bench.resolvedBy steps := by
    simp only [steps, Bench.collect, Bench.resolvedBy, silent, Bool.false_eq_true, if_false,
      List.append_nil]
    exact List.mem_singleton_self program
  obtain ⟨-, kept, programs⟩ := session_keepsRecord [] (fun _ => 0) steps further
  obtain ⟨-, again, functions⟩ := programs program resolved
  have function := functions 0 (size ▸ Nat.zero_lt_one) (references ▸ List.Subset.refl _)
  exact ⟨recorded, failed, kept 0 1 recorded, again, function.1⟩

end LoxLang
