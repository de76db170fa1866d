import LoxLang.Proofs.Program.Numbering
import LoxLang.Proofs.Program.Relabel
import LoxLang.Proofs.Program.Soundness

/-!
Parsing from another number on.  A parser treats identities as labels: started at
another identity it takes the same tokens, reports the same errors and ends the
same way, and its trees differ only in their identities.  The identities that it
gives out lie between those it started and ended at.
-/

namespace LoxLang

namespace Parser

/-- The state with its next identity renamed. -/
def State.renumber (ids : RefId → RefId) (state : State) : State :=
  { state with nextId := ids state.nextId }

/-- References have identities from the first one up to that of a state. -/
def InRange (first : RefId) (after : State) (references : List Reference) : Prop :=
  ∀ reference ∈ references, first ≤ reference.id ∧ reference.id < after.nextId

namespace InRange

variable {first : RefId} {after : State} {references others : List Reference}

theorem nil : InRange first after [] :=
  fun _ member => absurd member List.not_mem_nil

theorem single {reference : Reference} (lower : first ≤ reference.id)
    (upper : reference.id < after.nextId) : InRange first after [reference] := by
  intro other member
  obtain rfl := List.mem_singleton.mp member
  exact ⟨lower, upper⟩

theorem append (left : InRange first after references) (right : InRange first after others) :
    InRange first after (references ++ others) := by
  intro reference member
  rcases List.mem_append.mp member with inLeft | inRight
  · exact left reference inLeft
  · exact right reference inRight

theorem later {later : State} (range : InRange first after references)
    (grows : after.nextId ≤ later.nextId) : InRange first later references :=
  fun reference member =>
    ⟨(range reference member).1, Nat.lt_of_lt_of_le (range reference member).2 grows⟩

end InRange

/-- Two trees differ only in their identities, and those of the one are in range. -/
structure Tracked {α : Type} (relabel : α → α) (references : α → List Reference) (first : RefId)
    (after : State) (tree renumbered : α) : Prop where
  relabelled : renumbered = relabel tree
  range : InRange first after (references tree)

/-- How two readings end that differ only in their identities. -/
inductive EndsAlike {α : Type} (ids : RefId → RefId) (before : State)
    (post : State → α → α → Prop) :
    EStateM.Result Abort State α → EStateM.Result Abort State α → Prop where
  | ok {value other : α} {after : State} :
      before.nextId ≤ after.nextId → post after value other →
        EndsAlike ids before post (.ok value after) (.ok other (after.renumber ids))
  | error {abort : Abort} {after : State} :
      before.nextId ≤ after.nextId →
        EndsAlike ids before post (.error abort after) (.error abort (after.renumber ids))

/-- Started with identities from the first one on, two parsers read alike. -/
def Tracks {α : Type} (ids : RefId → RefId) (first : RefId) (before : State)
    (action other : Parse α) (post : State → α → α → Prop) : Prop :=
  first ≤ before.nextId →
    EndsAlike ids before post (action before) (other (before.renumber ids))

namespace Tracks

variable {α β : Type} {ids : RefId → RefId} {first : RefId} {before : State}

theorem bind {action other : Parse α} {next otherNext : α → Parse β}
    {middle : State → α → α → Prop} {post : State → β → β → Prop}
    (start : Tracks ids first before action other middle)
    (continues : ∀ between value otherValue, before.nextId ≤ between.nextId →
      middle between value otherValue →
        Tracks ids first between (next value) (otherNext otherValue) post) :
    Tracks ids first before (action >>= next) (other >>= otherNext) post := by
  intro lower
  have ends := start lower
  simp only [Bind.bind, EStateM.bind]
  generalize action before = result at ends
  generalize other (before.renumber ids) = otherResult at ends
  cases ends with
  | error grows => exact .error grows
  | ok grows holds =>
      rename_i value otherValue after
      have ending := continues after value otherValue grows holds (Nat.le_trans lower grows)
      dsimp only
      generalize next value after = final at ending
      generalize otherNext otherValue (after.renumber ids) = otherFinal at ending
      cases ending with
      | error further => exact .error (Nat.le_trans grows further)
      | ok further holds => exact .ok (Nat.le_trans grows further) holds

theorem pure {post : State → α → α → Prop} {value other : α} (holds : post before value other) :
    Tracks ids first before (pure value) (pure other) post :=
  fun _ => .ok (Nat.le_refl _) holds

theorem throw {post : State → α → α → Prop} (abort : Abort) :
    Tracks ids first before (throw abort) (throw abort) post :=
  fun _ => .error (Nat.le_refl _)

theorem peek : Tracks ids first before peek peek fun _ token other => token = other :=
  fun _ => .ok (Nat.le_refl _) rfl

theorem skip : Tracks ids first before skip skip fun _ _ _ => True :=
  fun _ => .ok (Nat.le_refl _) trivial

theorem report (token : Token) (cause : Diagnostic.Cause) :
    Tracks ids first before (report token cause) (report token cause) fun _ _ _ => True :=
  fun _ => .ok (Nat.le_refl _) trivial

theorem atEnd : Tracks ids first before atEnd atEnd fun _ isEnd other => isEnd = other := by
  apply bind peek
  rintro between token _ _ rfl
  exact pure rfl

theorem check (kind : Token.Kind) :
    Tracks ids first before (check kind) (check kind) fun _ found other => found = other := by
  apply bind peek
  rintro between token _ _ rfl
  exact pure rfl

theorem accept (kind : Token.Kind) :
    Tracks ids first before (accept kind) (accept kind) fun _ taken other => taken = other := by
  apply bind peek
  rintro between token _ _ rfl
  apply bind (check kind)
  rintro between found _ _ rfl
  cases found with
  | false => exact pure rfl
  | true =>
      apply bind skip
      rintro between _ _ _ -
      exact pure rfl

theorem acceptWith (choose : Token.Kind → Option α) :
    Tracks ids first before (acceptWith choose) (acceptWith choose) fun _ taken other =>
      taken = other ∧ ∀ chosen line, taken = some (chosen, line) →
        ∃ kind, choose kind = some chosen := by
  apply bind peek
  rintro between token _ _ rfl
  cases found : choose token.kind with
  | none => exact pure ⟨rfl, by simp⟩
  | some chosen =>
      apply bind skip
      rintro between _ _ _ -
      exact pure ⟨rfl, by rintro _ _ ⟨⟩; exact ⟨_, found⟩⟩

theorem fail {post : State → α → α → Prop} (cause : Diagnostic.Cause) :
    Tracks ids first before (fail cause) (fail cause) post := by
  apply bind peek
  rintro between token _ _ rfl
  apply bind (report token cause)
  rintro between _ _ _ -
  exact throw .syntaxError

theorem expect (kind : Token.Kind) (cause : Diagnostic.Cause) :
    Tracks ids first before (expect kind cause) (expect kind cause)
      fun _ token other => token = other := by
  apply bind (accept kind)
  rintro between taken _ _ rfl
  cases taken with
  | none => exact fail cause
  | some token => exact pure rfl

theorem expectName (cause : Diagnostic.Cause) :
    Tracks ids first before (expectName cause) (expectName cause)
      fun _ name other => name = other := by
  apply bind (expect .identifier cause)
  rintro between token _ _ rfl
  exact pure rfl

/-- Identities are given out one after the other. -/
theorem freshId (successive : ∀ id, first ≤ id → ids (id + 1) = ids id + 1) :
    Tracks ids first before freshId freshId fun after id other =>
      other = ids id ∧ first ≤ id ∧ id < after.nextId := by
  intro lower
  have next : State.renumber ids { before with nextId := before.nextId + 1 } =
      { before with nextId := ids before.nextId + 1 } := by
    simp only [State.renumber, successive _ lower]
  have ends : EndsAlike ids before (fun after id other =>
      other = ids id ∧ first ≤ id ∧ id < after.nextId)
      (.ok before.nextId { before with nextId := before.nextId + 1 })
      (.ok (ids before.nextId) (State.renumber ids { before with nextId := before.nextId + 1 })) :=
    .ok (Nat.le_succ _) ⟨rfl, lower, Nat.lt_succ_self _⟩
  rw [next] at ends
  exact ends

/-- A phrase that depends on the token ahead. -/
theorem ifCheck {action other absent otherAbsent : Parse α} {post : State → α → α → Prop}
    (kind : Token.Kind)
    (present : ∀ between, before.nextId ≤ between.nextId →
      Tracks ids first between action other post)
    (missing : ∀ between, before.nextId ≤ between.nextId →
      Tracks ids first between absent otherAbsent post) :
    Tracks ids first before
      (do if ← Parser.check kind then action else absent)
      (do if ← Parser.check kind then other else otherAbsent) post := by
  apply bind (check kind)
  rintro between found _ grows rfl
  cases found with
  | false => exact missing between grows
  | true => exact present between grows

/-- A phrase that a token announces. -/
theorem ifAccept {action other absent otherAbsent : Parse α} {post : State → α → α → Prop}
    (kind : Token.Kind)
    (present : ∀ between, before.nextId ≤ between.nextId →
      Tracks ids first between action other post)
    (missing : ∀ between, before.nextId ≤ between.nextId →
      Tracks ids first between absent otherAbsent post) :
    Tracks ids first before
      (do if (← Parser.accept kind).isSome then action else absent)
      (do if (← Parser.accept kind).isSome then other else otherAbsent) post := by
  apply bind (accept kind)
  rintro between taken _ grows rfl
  cases taken with
  | none => exact missing between grows
  | some token => exact present between grows

end Tracks

/-- Expressions, statements and functions that differ only in their identities. -/
abbrev SameExpr (ids : RefId → RefId) :=
  Tracked (Expr.relabel (.renumber ids)) Expr.references

abbrev SameExprs (ids : RefId → RefId) :=
  Tracked (Expr.relabelAll (.renumber ids)) Expr.referencesAll

abbrev SameOption (ids : RefId → RefId) :=
  Tracked (Option.map (Expr.relabel (.renumber ids))) Expr.referencesOption

abbrev SameStmt (ids : RefId → RefId) :=
  Tracked (Stmt.relabel (.renumber ids)) Stmt.references

abbrev SameStmts (ids : RefId → RefId) :=
  Tracked (Stmt.relabelAll (.renumber ids)) Stmt.referencesAll

abbrev SameFunction (ids : RefId → RefId) :=
  Tracked (Function.relabel (.renumber ids)) Function.references

abbrev SameFunctions (ids : RefId → RefId) :=
  Tracked (Function.relabelAll (.renumber ids)) Function.referencesAll

abbrev SameInitial (ids : RefId → RefId) :=
  Tracked (Option.map (Stmt.relabel (.renumber ids)))
    fun initial => initial.toList.flatMap Stmt.references

theorem Precedence.build_relabel {precedence : Precedence} {kind : Token.Kind}
    {build : Nat → Expr → Expr → Expr} (found : precedence.operator? kind = some build)
    (ids : RefId → RefId) (line : Nat) (left right : Expr) :
    (build line left right).relabel (.renumber ids) =
        build line (left.relabel (.renumber ids)) (right.relabel (.renumber ids)) ∧
      (build line left right).references = left.references ++ right.references := by
  unfold operator? at found
  split at found <;> cases found <;> exact ⟨rfl, rfl⟩

/-- The parsers of expressions treat identities as labels. -/
structure RenumbersExpressions (ids : RefId → RefId) (first : RefId) (bound : Nat) : Prop where
  expression : ∀ {before : State},
    Tracks ids first before (expression bound) (expression bound) (SameExpr ids first)
  level : ∀ {before : State} (levels : List Precedence),
    Tracks ids first before (level bound levels) (level bound levels) (SameExpr ids first)
  levelRest : ∀ {before : State} {left other : Expr} (precedence : Precedence)
    (tighter : List Precedence), SameExpr ids first before left other →
      Tracks ids first before (levelRest bound precedence tighter left)
        (levelRest bound precedence tighter other) (SameExpr ids first)
  unary : ∀ {before : State},
    Tracks ids first before (unary bound) (unary bound) (SameExpr ids first)
  callRest : ∀ {before : State} {callee other : Expr}, SameExpr ids first before callee other →
    Tracks ids first before (callRest bound callee) (callRest bound other) (SameExpr ids first)
  argumentsFrom : ∀ {before : State} (count : Nat),
    Tracks ids first before (argumentsFrom bound count) (argumentsFrom bound count)
      (SameExprs ids first)
  primary : ∀ {before : State},
    Tracks ids first before (primary bound) (primary bound) (SameExpr ids first)

namespace RenumbersExpressions

variable {ids : RefId → RefId} {first : RefId} {bound : Nat} {before : State}

theorem expression_succ (alike : RenumbersExpressions ids first bound) :
    Tracks ids first before (Parser.expression (bound + 1)) (Parser.expression (bound + 1))
      (SameExpr ids first) := by
  simp only [Parser.expression]
  apply Tracks.bind (alike.level _)
  rintro middle target _ _ ⟨rfl, range⟩
  apply Tracks.bind (Tracks.accept .equal)
  rintro between taken _ grows rfl
  cases taken with
  | none => exact Tracks.pure ⟨rfl, range.later grows⟩
  | some equal =>
      dsimp only
      apply Tracks.bind alike.expression
      rintro after value _ further ⟨rfl, valueRange⟩
      have targetRange := range.later (Nat.le_trans grows further)
      cases target with
      | read id name =>
          obtain ⟨lower, upper⟩ := targetRange _ List.mem_cons_self
          exact Tracks.pure ⟨rfl, valueRange.append (.single lower upper)⟩
      | get object name => exact Tracks.pure ⟨rfl, targetRange.append valueRange⟩
      | _ =>
          apply Tracks.bind (Tracks.report equal .invalidAssignmentTarget)
          rintro last _ _ later -
          exact Tracks.pure ⟨rfl, targetRange.later later⟩

theorem level_succ (alike : RenumbersExpressions ids first bound) (levels : List Precedence) :
    Tracks ids first before (Parser.level (bound + 1) levels) (Parser.level (bound + 1) levels)
      (SameExpr ids first) := by
  cases levels with
  | nil => exact alike.unary
  | cons precedence tighter =>
      simp only [Parser.level]
      apply Tracks.bind (alike.level tighter)
      rintro between left _ _ same
      exact alike.levelRest precedence tighter same

theorem levelRest_succ (alike : RenumbersExpressions ids first bound) {left other : Expr}
    (precedence : Precedence) (tighter : List Precedence)
    (same : SameExpr ids first before left other) :
    Tracks ids first before (Parser.levelRest (bound + 1) precedence tighter left)
      (Parser.levelRest (bound + 1) precedence tighter other) (SameExpr ids first) := by
  obtain ⟨rfl, leftRange⟩ := same
  simp only [Parser.levelRest]
  apply Tracks.bind (Tracks.acceptWith precedence.operator?)
  rintro between taken _ grows ⟨rfl, chosen⟩
  cases taken with
  | none => exact Tracks.pure ⟨rfl, leftRange.later grows⟩
  | some operator =>
      obtain ⟨build, line⟩ := operator
      obtain ⟨kind, found⟩ := chosen build line rfl
      dsimp only
      apply Tracks.bind (alike.level tighter)
      rintro after right _ further ⟨rfl, rightRange⟩
      apply alike.levelRest precedence tighter
      obtain ⟨relabelled, references⟩ := Precedence.build_relabel found ids line left right
      refine ⟨relabelled.symm, ?_⟩
      rw [references]
      exact (leftRange.later (Nat.le_trans grows further)).append rightRange

theorem unary_succ (alike : RenumbersExpressions ids first bound) :
    Tracks ids first before (Parser.unary (bound + 1)) (Parser.unary (bound + 1))
      (SameExpr ids first) := by
  simp only [Parser.unary]
  apply Tracks.bind (Tracks.acceptWith unaryOperator?)
  rintro between taken _ _ ⟨rfl, -⟩
  cases taken with
  | none =>
      apply Tracks.bind alike.primary
      rintro after callee _ _ same
      exact alike.callRest same
  | some operator =>
      apply Tracks.bind alike.unary
      rintro after operand _ _ ⟨rfl, range⟩
      exact Tracks.pure ⟨rfl, range⟩

theorem callRest_succ (alike : RenumbersExpressions ids first bound) {callee other : Expr}
    (same : SameExpr ids first before callee other) :
    Tracks ids first before (Parser.callRest (bound + 1) callee)
      (Parser.callRest (bound + 1) other) (SameExpr ids first) := by
  obtain ⟨rfl, calleeRange⟩ := same
  have closing {start : State} {arguments others : List Expr}
      (grows : before.nextId ≤ start.nextId)
      (same : SameExprs ids first start arguments others) : Tracks ids first start
      (do
        let paren ← Parser.expect .rightParen (.expectedCloseParen .arguments)
        Parser.callRest bound (.call callee arguments paren.line))
      (do
        let paren ← Parser.expect .rightParen (.expectedCloseParen .arguments)
        Parser.callRest bound
          (.call (callee.relabel (.renumber ids)) others paren.line)) (SameExpr ids first) := by
    obtain ⟨rfl, range⟩ := same
    apply Tracks.bind (Tracks.expect .rightParen _)
    rintro after paren _ further rfl
    exact alike.callRest
      ⟨rfl, (calleeRange.later (Nat.le_trans grows further)).append (range.later further)⟩
  simp only [Parser.callRest]
  apply Tracks.ifAccept .leftParen
  · intro middle grows
    apply Tracks.ifCheck .rightParen
    · intro between further
      exact closing (Nat.le_trans grows further) ⟨rfl, .nil⟩
    · intro between further
      apply Tracks.bind (alike.argumentsFrom 0)
      intro after arguments others last same
      exact closing (Nat.le_trans grows (Nat.le_trans further last)) same
  · intro middle grows
    apply Tracks.ifAccept .dot
    · intro between further
      apply Tracks.bind (Tracks.expectName _)
      rintro after name _ last rfl
      exact alike.callRest
        ⟨rfl, calleeRange.later (Nat.le_trans grows (Nat.le_trans further last))⟩
    · intro after further
      exact Tracks.pure ⟨rfl, calleeRange.later (Nat.le_trans grows further)⟩

theorem argumentsFrom_succ (alike : RenumbersExpressions ids first bound) (count : Nat) :
    Tracks ids first before (Parser.argumentsFrom (bound + 1) count)
      (Parser.argumentsFrom (bound + 1) count) (SameExprs ids first) := by
  have list {start : State} : Tracks ids first start
      (do
        let head ← Parser.expression bound
        if (← Parser.accept .comma).isSome then
          return head :: (← Parser.argumentsFrom bound (count + 1))
        else
          return [head])
      (do
        let head ← Parser.expression bound
        if (← Parser.accept .comma).isSome then
          return head :: (← Parser.argumentsFrom bound (count + 1))
        else
          return [head]) (SameExprs ids first) := by
    apply Tracks.bind alike.expression
    rintro middle head _ _ ⟨rfl, range⟩
    apply Tracks.ifAccept .comma
    · intro between grows
      apply Tracks.bind (alike.argumentsFrom _)
      rintro after rest _ further ⟨rfl, restRange⟩
      exact Tracks.pure
        ⟨rfl, (range.later (Nat.le_trans grows further)).append restRange⟩
    · intro after grows
      exact Tracks.pure ⟨rfl, (range.later grows).append .nil⟩
  simp only [Parser.argumentsFrom]
  split
  · apply Tracks.bind Tracks.peek
    rintro middle token _ _ rfl
    apply Tracks.bind (Tracks.report token _)
    rintro between _ _ _ -
    exact list
  · exact list

theorem primary_succ (successive : ∀ id, first ≤ id → ids (id + 1) = ids id + 1)
    (alike : RenumbersExpressions ids first bound) :
    Tracks ids first before (Parser.primary (bound + 1)) (Parser.primary (bound + 1))
      (SameExpr ids first) := by
  simp only [Parser.primary]
  apply Tracks.bind Tracks.peek
  rintro middle next _ _ rfl
  split
  · apply Tracks.bind Tracks.skip
    rintro after _ _ _ -
    exact Tracks.pure ⟨rfl, .nil⟩
  · apply Tracks.bind Tracks.skip
    rintro _ _ _ _ -
    apply Tracks.bind (Tracks.expect .dot _)
    rintro _ _ _ _ rfl
    apply Tracks.bind (Tracks.expectName _)
    rintro _ method _ _ rfl
    apply Tracks.bind (Tracks.freshId successive)
    rintro after id _ _ ⟨rfl, lower, upper⟩
    exact Tracks.pure ⟨rfl, .single lower upper⟩
  · apply Tracks.bind Tracks.skip
    rintro _ _ _ _ -
    apply Tracks.bind (Tracks.freshId successive)
    rintro after id _ _ ⟨rfl, lower, upper⟩
    exact Tracks.pure ⟨rfl, .single lower upper⟩
  · apply Tracks.bind Tracks.skip
    rintro _ _ _ _ -
    apply Tracks.bind (Tracks.freshId successive)
    rintro after id _ _ ⟨rfl, lower, upper⟩
    exact Tracks.pure ⟨rfl, .single lower upper⟩
  · apply Tracks.bind Tracks.skip
    rintro _ _ _ _ -
    apply Tracks.bind alike.expression
    rintro between inner _ _ ⟨rfl, range⟩
    apply Tracks.bind (Tracks.expect .rightParen _)
    rintro after _ _ grows rfl
    exact Tracks.pure ⟨rfl, range.later grows⟩
  · exact Tracks.fail _

theorem all (successive : ∀ id, first ≤ id → ids (id + 1) = ids id + 1) (bound : Nat) :
    RenumbersExpressions ids first bound := by
  induction bound with
  | zero =>
      exact ⟨Tracks.throw _, fun _ => Tracks.throw _, fun _ _ _ => Tracks.throw _,
        Tracks.throw _, fun _ => Tracks.throw _, fun _ => Tracks.throw _, Tracks.throw _⟩
  | succ bound inductionHypothesis =>
      exact ⟨inductionHypothesis.expression_succ, inductionHypothesis.level_succ,
        inductionHypothesis.levelRest_succ, inductionHypothesis.unary_succ,
        inductionHypothesis.callRest_succ, inductionHypothesis.argumentsFrom_succ,
        inductionHypothesis.primary_succ successive⟩

end RenumbersExpressions

namespace Tracks

variable {ids : RefId → RefId} {first : RefId} {bound : Nat} {before : State}

theorem expressionStatement (alike : RenumbersExpressions ids first bound) :
    Tracks ids first before (Parser.expressionStatement bound) (Parser.expressionStatement bound)
      (SameStmt ids first) := by
  apply bind alike.expression
  rintro between value _ _ ⟨rfl, range⟩
  apply bind (expect .semicolon _)
  rintro after _ _ grows rfl
  refine pure ⟨?_, range.later grows⟩
  rw [Expr.isAssignment_relabel]
  rfl

theorem optionalExpression (alike : RenumbersExpressions ids first bound) (stop : Token.Kind) :
    Tracks ids first before (Parser.optionalExpression bound stop)
      (Parser.optionalExpression bound stop) (SameOption ids first) := by
  apply ifCheck stop
  · intro between _
    exact pure ⟨rfl, .nil⟩
  · intro between _
    apply bind alike.expression
    rintro after value _ _ ⟨rfl, range⟩
    exact pure ⟨rfl, range⟩

theorem variableDeclaration (alike : RenumbersExpressions ids first bound) :
    Tracks ids first before (Parser.variableDeclaration bound) (Parser.variableDeclaration bound)
      (SameStmt ids first) := by
  have closing {start : State} {initial other : Option Expr} (name : Name)
      (same : SameOption ids first start initial other) : Tracks ids first start
      (do
        let _ ← Parser.expect .semicolon (.expectedSemicolon .variableDeclaration)
        return Stmt.declare name initial)
      (do
        let _ ← Parser.expect .semicolon (.expectedSemicolon .variableDeclaration)
        return Stmt.declare name other) (SameStmt ids first) := by
    obtain ⟨rfl, range⟩ := same
    apply bind (expect .semicolon _)
    rintro after _ _ grows rfl
    exact pure ⟨rfl, range.later grows⟩
  simp only [Parser.variableDeclaration, map_eq_pure_bind, bind_assoc, pure_bind]
  apply bind (expectName _)
  rintro middle name _ _ rfl
  apply ifAccept .equal
  · intro between _
    apply bind alike.expression
    rintro after value _ _ ⟨rfl, range⟩
    exact closing name ⟨rfl, range⟩
  · intro between _
    exact closing name ⟨rfl, .nil⟩

theorem parametersFrom (bound count : Nat) :
    Tracks ids first before (Parser.parametersFrom bound count) (Parser.parametersFrom bound count)
      fun _ names others => names = others := by
  induction bound generalizing before count with
  | zero => exact throw _
  | succ bound inductionHypothesis =>
      have list {start : State} : Tracks ids first start
          (do
            let head ← Parser.expectName .expectedParameterName
            if (← Parser.accept .comma).isSome then
              return head :: (← Parser.parametersFrom bound (count + 1))
            else
              return [head])
          (do
            let head ← Parser.expectName .expectedParameterName
            if (← Parser.accept .comma).isSome then
              return head :: (← Parser.parametersFrom bound (count + 1))
            else
              return [head]) fun _ names others => names = others := by
        apply bind (expectName _)
        rintro middle head _ _ rfl
        apply ifAccept .comma
        · intro between _
          apply bind (inductionHypothesis (count + 1))
          rintro after rest _ _ rfl
          exact pure rfl
        · intro between _
          exact pure rfl
      simp only [Parser.parametersFrom]
      split
      · apply bind peek
        rintro middle token _ _ rfl
        apply bind (report token _)
        rintro between _ _ _ -
        exact list
      · exact list

theorem forInitializer (alike : RenumbersExpressions ids first bound) :
    Tracks ids first before (Parser.forInitializer bound) (Parser.forInitializer bound)
      (SameInitial ids first) := by
  have clause {start : State} {action : Parse Stmt}
      (tracks : Tracks ids first start action action (SameStmt ids first)) :
      Tracks ids first start (do return some (← action)) (do return some (← action))
        (SameInitial ids first) := by
    apply bind tracks
    rintro after statement _ _ ⟨rfl, range⟩
    exact pure ⟨rfl, range.append .nil⟩
  apply ifAccept .semicolon
  · intro between _
    exact pure ⟨rfl, .nil⟩
  · intro between _
    apply ifAccept .varWord
    · intro inside _
      exact clause (variableDeclaration alike)
    · intro inside _
      exact clause (expressionStatement alike)

end Tracks

/-- Phrases up to a closing brace or the end. -/
theorem Tracks.unlessClosed {α : Type} {ids : RefId → RefId} {first : RefId} {before : State}
    {action other : Parse α} {post : State → α → α → Prop} {value otherValue : α}
    (closed : ∀ between, post between value otherValue)
    (further : ∀ between, before.nextId ≤ between.nextId →
      Tracks ids first between action other post) :
    Tracks ids first before
      (do if (← Parser.check .rightBrace) || (← Parser.atEnd) then return value else action)
      (do if (← Parser.check .rightBrace) || (← Parser.atEnd) then return otherValue else other)
      post := by
  apply bind (check .rightBrace)
  rintro middle found _ grows rfl
  apply bind atEnd
  rintro between isEnd _ more rfl
  cases found || isEnd with
  | true => exact pure (closed between)
  | false => exact further between (Nat.le_trans grows more)

/-- A statement that may have been given up, and those after it. -/
theorem Tracks.sequence {ids : RefId → RefId} {first : RefId} {before : State}
    {action : Parse (Option Stmt)} {others : Parse (List Stmt)}
    (head : Tracks ids first before action action (SameInitial ids first))
    (tail : ∀ between, Tracks ids first between others others (SameStmts ids first)) :
    Tracks ids first before
      (do
        match ← action with
        | some statement => return statement :: (← others)
        | none => others)
      (do
        match ← action with
        | some statement => return statement :: (← others)
        | none => others) (SameStmts ids first) := by
  apply bind head
  rintro between statement _ _ ⟨rfl, range⟩
  cases statement with
  | none => exact tail between
  | some statement =>
      apply bind (tail between)
      rintro after rest _ grows ⟨rfl, restRange⟩
      have headRange : InRange first after statement.references := by
        simpa using range.later grows
      exact pure ⟨rfl, headRange.append restRange⟩

theorem InRange.lowerFor {first : RefId} {after : State} {initial : Option Stmt}
    {condition increment : Option Expr} {body : Stmt}
    (initialRange : InRange first after (initial.toList.flatMap Stmt.references))
    (conditionRange : InRange first after (Expr.referencesOption condition))
    (incrementRange : InRange first after (Expr.referencesOption increment))
    (bodyRange : InRange first after body.references) :
    InRange first after (Parser.lowerFor initial condition increment body).references := by
  intro reference member
  rw [lowerFor_eq] at member
  exact (initialRange.append (conditionRange.append (incrementRange.append bodyRange))) reference
    ((Grammar.perm_references_forTree initial condition increment body).mem_iff.mpr member)

/-- The parsers of statements treat identities as labels. -/
structure RenumbersStatements (ids : RefId → RefId) (first : RefId) (bound : Nat) : Prop where
  recovering : ∀ {before : State},
    Tracks ids first before (recovering bound) (recovering bound) (SameInitial ids first)
  declaration : ∀ {before : State},
    Tracks ids first before (declaration bound) (declaration bound) (SameStmt ids first)
  classDeclaration : ∀ {before : State},
    Tracks ids first before (classDeclaration bound) (classDeclaration bound) (SameStmt ids first)
  methodsFrom : ∀ {before : State},
    Tracks ids first before (methodsFrom bound) (methodsFrom bound) (SameFunctions ids first)
  function : ∀ {before : State} (form : Diagnostic.Callable),
    Tracks ids first before (function bound form) (function bound form) (SameFunction ids first)
  blockBody : ∀ {before : State},
    Tracks ids first before (blockBody bound) (blockBody bound) (SameStmts ids first)
  statementsFrom : ∀ {before : State},
    Tracks ids first before (statementsFrom bound) (statementsFrom bound) (SameStmts ids first)
  statement : ∀ {before : State},
    Tracks ids first before (statement bound) (statement bound) (SameStmt ids first)
  forStatement : ∀ {before : State},
    Tracks ids first before (forStatement bound) (forStatement bound) (SameStmt ids first)

namespace RenumbersStatements

variable {ids : RefId → RefId} {first : RefId} {bound : Nat} {before : State}

theorem recovering_succ (alike : RenumbersStatements ids first bound) :
    Tracks ids first before (Parser.recovering (bound + 1)) (Parser.recovering (bound + 1))
      (SameInitial ids first) := by
  intro lower
  have tracks : Tracks ids first before (Parser.declaration bound) (Parser.declaration bound)
    (SameStmt ids first) := alike.declaration
  have ends := tracks lower
  simp only [Parser.recovering]
  generalize Parser.declaration bound before = result at ends ⊢
  generalize Parser.declaration bound (before.renumber ids) = otherResult at ends ⊢
  cases ends with
  | ok grows same => exact .ok grows ⟨by rw [same.relabelled]; rfl, same.range.append .nil⟩
  | @error abort after grows =>
      cases abort with
      | bound => exact .error grows
      | syntaxError =>
          have resumed : EndsAlike ids before (SameInitial ids first)
              (.ok none { after with rest := synchronize after.rest })
              (.ok none (State.renumber ids { after with rest := synchronize after.rest })) :=
            .ok grows ⟨rfl, .nil⟩
          exact resumed

theorem declaration_succ (expressions : RenumbersExpressions ids first bound)
    (alike : RenumbersStatements ids first bound) :
    Tracks ids first before (Parser.declaration (bound + 1)) (Parser.declaration (bound + 1))
      (SameStmt ids first) := by
  apply Tracks.ifAccept .classWord
  · intro between _
    exact alike.classDeclaration
  · intro middle _
    apply Tracks.ifAccept .funWord
    · intro between _
      apply Tracks.bind (alike.function .function)
      rintro after declaration _ _ ⟨rfl, range⟩
      exact Tracks.pure ⟨rfl, range⟩
    · intro between _
      apply Tracks.ifAccept .varWord
      · intro after _
        exact Tracks.variableDeclaration expressions
      · intro after _
        exact alike.statement

theorem classDeclaration_succ (successive : ∀ id, first ≤ id → ids (id + 1) = ids id + 1)
    (alike : RenumbersStatements ids first bound) :
    Tracks ids first before (Parser.classDeclaration (bound + 1))
      (Parser.classDeclaration (bound + 1)) (SameStmt ids first) := by
  have body {start : State} (name : Name) {superclass other : Option (RefId × Name)}
      (renamed : other = superclass.map fun entry => (ids entry.1, entry.2))
      (range : ∀ entry ∈ superclass, first ≤ entry.1 ∧ entry.1 < start.nextId) :
      Tracks ids first start
        (do
          let _ ← Parser.expect .leftBrace (.expectedOpenBrace .classBody)
          let methods ← Parser.methodsFrom bound
          let _ ← Parser.expect .rightBrace (.expectedCloseBrace .classBody)
          return Stmt.classDecl name superclass methods)
        (do
          let _ ← Parser.expect .leftBrace (.expectedOpenBrace .classBody)
          let methods ← Parser.methodsFrom bound
          let _ ← Parser.expect .rightBrace (.expectedCloseBrace .classBody)
          return Stmt.classDecl name other methods) (SameStmt ids first) := by
    subst renamed
    apply Tracks.bind (Tracks.expect .leftBrace _)
    rintro middle _ _ grows rfl
    apply Tracks.bind alike.methodsFrom
    rintro between methods _ further ⟨rfl, methodRange⟩
    apply Tracks.bind (Tracks.expect .rightBrace _)
    rintro after _ _ last rfl
    refine Tracks.pure ⟨rfl, ?_⟩
    cases superclass with
    | none => exact methodRange.later last
    | some entry =>
        obtain ⟨lower, upper⟩ := range entry rfl
        have room := Nat.le_trans grows (Nat.le_trans further last)
        exact (InRange.single lower (Nat.lt_of_lt_of_le upper room)).append
          (methodRange.later last)
  simp only [Parser.classDeclaration]
  apply Tracks.bind (Tracks.expectName _)
  rintro middle name _ _ rfl
  apply Tracks.ifAccept .less
  · intro between _
    apply Tracks.bind (Tracks.expectName _)
    rintro inside parent _ _ rfl
    apply Tracks.bind (Tracks.freshId successive)
    rintro after id _ _ ⟨rfl, range⟩
    exact body name rfl (by rintro _ ⟨⟩; exact range)
  · intro between _
    exact body name rfl (by rintro _ ⟨⟩)

theorem methodsFrom_succ (alike : RenumbersStatements ids first bound) :
    Tracks ids first before (Parser.methodsFrom (bound + 1)) (Parser.methodsFrom (bound + 1))
      (SameFunctions ids first) := by
  apply Tracks.unlessClosed
  · intro between
    exact ⟨rfl, .nil⟩
  · intro middle _
    apply Tracks.bind (alike.function .method)
    rintro between head _ _ ⟨rfl, range⟩
    apply Tracks.bind alike.methodsFrom
    rintro after rest _ grows ⟨rfl, restRange⟩
    exact Tracks.pure ⟨rfl, (range.later grows).append restRange⟩

theorem function_succ (alike : RenumbersStatements ids first bound) (form : Diagnostic.Callable) :
    Tracks ids first before (Parser.function (bound + 1) form)
      (Parser.function (bound + 1) form) (SameFunction ids first) := by
  have rest {start : State} (name : Name) (parameters : List Name) :
      Tracks ids first start
        (do
          let _ ← Parser.expect .rightParen (.expectedCloseParen .parameters)
          let _ ← Parser.expect .leftBrace (.expectedOpenBrace (.callable form))
          let body ← Parser.blockBody bound
          return Function.mk name parameters body)
        (do
          let _ ← Parser.expect .rightParen (.expectedCloseParen .parameters)
          let _ ← Parser.expect .leftBrace (.expectedOpenBrace (.callable form))
          let body ← Parser.blockBody bound
          return Function.mk name parameters body) (SameFunction ids first) := by
    apply Tracks.bind (Tracks.expect .rightParen _)
    rintro _ _ _ _ rfl
    apply Tracks.bind (Tracks.expect .leftBrace _)
    rintro _ _ _ _ rfl
    apply Tracks.bind alike.blockBody
    rintro after body _ _ ⟨rfl, range⟩
    refine Tracks.pure ⟨?_, range⟩
    rw [Function.relabel, Name.map_renumber]
    rfl
  simp only [Parser.function]
  apply Tracks.bind (Tracks.expectName _)
  rintro _ name _ _ rfl
  apply Tracks.bind (Tracks.expect .leftParen _)
  rintro _ _ _ _ rfl
  apply Tracks.ifCheck .rightParen
  · intro between _
    exact rest name []
  · intro between _
    apply Tracks.bind (Tracks.parametersFrom bound 0)
    rintro after parameters _ _ rfl
    exact rest name parameters

theorem blockBody_succ (alike : RenumbersStatements ids first bound) :
    Tracks ids first before (Parser.blockBody (bound + 1)) (Parser.blockBody (bound + 1))
      (SameStmts ids first) := by
  apply Tracks.bind alike.statementsFrom
  rintro between body _ _ ⟨rfl, range⟩
  apply Tracks.bind (Tracks.expect .rightBrace _)
  rintro after _ _ grows rfl
  exact Tracks.pure ⟨rfl, range.later grows⟩

theorem statementsFrom_succ (alike : RenumbersStatements ids first bound) :
    Tracks ids first before (Parser.statementsFrom (bound + 1))
      (Parser.statementsFrom (bound + 1)) (SameStmts ids first) := by
  apply Tracks.unlessClosed
  · intro between
    exact ⟨rfl, .nil⟩
  · intro middle _
    exact Tracks.sequence alike.recovering fun _ => alike.statementsFrom

theorem statement_succ (expressions : RenumbersExpressions ids first bound)
    (alike : RenumbersStatements ids first bound) :
    Tracks ids first before (Parser.statement (bound + 1)) (Parser.statement (bound + 1))
      (SameStmt ids first) := by
  simp only [Parser.statement, map_eq_pure_bind, bind_assoc, pure_bind]
  apply Tracks.bind Tracks.peek
  rintro start next _ _ rfl
  split
  · apply Tracks.bind Tracks.skip
    rintro _ _ _ _ -
    exact alike.forStatement
  · apply Tracks.bind Tracks.skip
    rintro _ _ _ _ -
    apply Tracks.bind (Tracks.expect .leftParen _)
    rintro _ _ _ _ rfl
    apply Tracks.bind expressions.expression
    rintro _ condition _ _ ⟨rfl, range⟩
    apply Tracks.bind (Tracks.expect .rightParen _)
    rintro _ _ _ grows rfl
    apply Tracks.bind alike.statement
    rintro _ consequence _ further ⟨rfl, consequenceRange⟩
    have both := (range.later (Nat.le_trans grows further)).append consequenceRange
    apply Tracks.ifAccept .elseWord
    · intro between last
      apply Tracks.bind alike.statement
      rintro after alternative _ later ⟨rfl, alternativeRange⟩
      exact Tracks.pure ⟨rfl, (both.later (Nat.le_trans last later)).append alternativeRange⟩
    · intro after last
      exact Tracks.pure ⟨rfl, both.later last⟩
  · apply Tracks.bind Tracks.skip
    rintro _ _ _ _ -
    apply Tracks.bind expressions.expression
    rintro _ value _ _ ⟨rfl, range⟩
    apply Tracks.bind (Tracks.expect .semicolon _)
    rintro after _ _ grows rfl
    exact Tracks.pure ⟨rfl, range.later grows⟩
  · apply Tracks.bind Tracks.skip
    rintro _ _ _ _ -
    apply Tracks.bind (Tracks.optionalExpression expressions .semicolon)
    rintro _ value _ _ ⟨rfl, range⟩
    apply Tracks.bind (Tracks.expect .semicolon _)
    rintro after _ _ grows rfl
    exact Tracks.pure ⟨rfl, range.later grows⟩
  · apply Tracks.bind Tracks.skip
    rintro _ _ _ _ -
    apply Tracks.bind (Tracks.expect .leftParen _)
    rintro _ _ _ _ rfl
    apply Tracks.bind expressions.expression
    rintro _ condition _ _ ⟨rfl, range⟩
    apply Tracks.bind (Tracks.expect .rightParen _)
    rintro _ _ _ grows rfl
    apply Tracks.bind alike.statement
    rintro after body _ further ⟨rfl, bodyRange⟩
    exact Tracks.pure ⟨rfl, (range.later (Nat.le_trans grows further)).append bodyRange⟩
  · apply Tracks.bind Tracks.skip
    rintro _ _ _ _ -
    apply Tracks.bind alike.blockBody
    rintro after body _ _ ⟨rfl, range⟩
    exact Tracks.pure ⟨rfl, range⟩
  · exact Tracks.expressionStatement expressions

theorem forStatement_succ (expressions : RenumbersExpressions ids first bound)
    (alike : RenumbersStatements ids first bound) :
    Tracks ids first before (Parser.forStatement (bound + 1)) (Parser.forStatement (bound + 1))
      (SameStmt ids first) := by
  simp only [Parser.forStatement]
  apply Tracks.bind (Tracks.expect .leftParen _)
  rintro _ _ _ _ rfl
  apply Tracks.bind (Tracks.forInitializer expressions)
  rintro _ initial _ _ ⟨rfl, initialRange⟩
  apply Tracks.bind (Tracks.optionalExpression expressions .semicolon)
  rintro _ condition _ second ⟨rfl, conditionRange⟩
  apply Tracks.bind (Tracks.expect .semicolon _)
  rintro _ _ _ third rfl
  apply Tracks.bind (Tracks.optionalExpression expressions .rightParen)
  rintro _ increment _ fourth ⟨rfl, incrementRange⟩
  apply Tracks.bind (Tracks.expect .rightParen _)
  rintro _ _ _ fifth rfl
  apply Tracks.bind alike.statement
  rintro after body _ sixth ⟨rfl, bodyRange⟩
  refine Tracks.pure ⟨(Stmt.relabel_lowerFor _ initial condition increment body).symm, ?_⟩
  have fromIncrement := Nat.le_trans fifth sixth
  have fromCondition := Nat.le_trans third (Nat.le_trans fourth fromIncrement)
  exact InRange.lowerFor (initialRange.later (Nat.le_trans second fromCondition))
    (conditionRange.later fromCondition) (incrementRange.later fromIncrement) bodyRange

theorem all (successive : ∀ id, first ≤ id → ids (id + 1) = ids id + 1) (bound : Nat) :
    RenumbersStatements ids first bound := by
  induction bound with
  | zero =>
      exact ⟨Tracks.throw _, Tracks.throw _, Tracks.throw _, Tracks.throw _,
        fun _ => Tracks.throw _, Tracks.throw _, Tracks.throw _, Tracks.throw _, Tracks.throw _⟩
  | succ bound inductionHypothesis =>
      have expressions := RenumbersExpressions.all successive bound
      exact ⟨inductionHypothesis.recovering_succ,
        inductionHypothesis.declaration_succ expressions,
        inductionHypothesis.classDeclaration_succ successive,
        inductionHypothesis.methodsFrom_succ, inductionHypothesis.function_succ,
        inductionHypothesis.blockBody_succ, inductionHypothesis.statementsFrom_succ,
        inductionHypothesis.statement_succ expressions,
        inductionHypothesis.forStatement_succ expressions⟩

end RenumbersStatements

theorem Tracks.programFrom {ids : RefId → RefId} {first : RefId}
    (successive : ∀ id, first ≤ id → ids (id + 1) = ids id + 1) (bound : Nat) {before : State} :
    Tracks ids first before (programFrom bound) (programFrom bound) (SameStmts ids first) := by
  induction bound generalizing before with
  | zero => exact throw _
  | succ bound inductionHypothesis =>
      apply bind atEnd
      rintro between isEnd _ _ rfl
      cases isEnd with
      | true => exact pure ⟨rfl, .nil⟩
      | false =>
          exact sequence (RenumbersStatements.all successive bound).recovering
            fun _ => inductionHypothesis

end Parser

/-- Parsing from another identity on renames the identities in the trees, and
nothing else. -/
theorem parse_renumber {ids : RefId → RefId} {nextId : RefId}
    (successive : ∀ id, nextId ≤ id → ids (id + 1) = ids id + 1) (tokens : List Token) :
    parse tokens (ids nextId) =
      ⟨Stmt.relabelAll (.renumber ids) (parse tokens nextId).statements,
        (parse tokens nextId).errors, ids (parse tokens nextId).nextId⟩ := by
  have tracks : Parser.Tracks ids nextId ⟨tokens, [], nextId⟩ _ _ _ :=
    Parser.Tracks.programFrom successive (Parser.boundFor tokens)
  have ends := tracks (Nat.le_refl nextId)
  simp only [parse]
  change Parser.EndsAlike ids _ _ _
    (Parser.programFrom (Parser.boundFor tokens) ⟨tokens, [], ids nextId⟩) at ends
  generalize Parser.programFrom _ ⟨tokens, [], nextId⟩ = result at ends ⊢
  generalize Parser.programFrom _ ⟨tokens, [], ids nextId⟩ = otherResult at ends ⊢
  cases ends with
  | ok _ same => simp only [same.relabelled, Parser.State.renumber]
  | error _ => simp only [Stmt.relabelAll, Parser.State.renumber]

/-- Parsing gives out identities from the first one up to the next unused one. -/
theorem parse_range (tokens : List Token) (nextId : RefId) :
    ∀ reference ∈ Stmt.referencesAll (parse tokens nextId).statements,
      nextId ≤ reference.id ∧ reference.id < (parse tokens nextId).nextId := by
  have tracks : Parser.Tracks (fun id => id) nextId ⟨tokens, [], nextId⟩ _ _ _ :=
    @Parser.Tracks.programFrom (fun id => id) nextId (fun _ _ => rfl) (Parser.boundFor tokens) _
  have ends := tracks (Nat.le_refl nextId)
  simp only [parse]
  generalize Parser.programFrom _ ⟨tokens, [], nextId⟩ = result at ends ⊢
  generalize Parser.programFrom _ (Parser.State.renumber _ _) = otherResult at ends
  cases ends with
  | ok _ same => exact same.range
  | error _ => exact fun reference member => absurd member List.not_mem_nil

end LoxLang
