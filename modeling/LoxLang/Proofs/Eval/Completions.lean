import LoxLang.Proofs.Eval.Updates
import LoxLang.Proofs.Scope.Returns

/-!
How statements complete.  A statement ends with a return only if the function around its
code allows one, and code of an initializer never returns a value.
-/

namespace LoxLang

open Scope

/-- A completion that the function around the code allows. -/
def Scope.InFunction.AllowsCompletion (form : InFunction) : Completion → Prop
  | .normal => True
  | .returned value => form ≠ .none ∧ (form = .initializer → value = .nil)

theorem Scope.InFunction.AllowsReturn.completion {form : InFunction} {hasValue : Bool}
    (allows : form.AllowsReturn hasValue) {value : Value} (kept : hasValue = false → value = .nil) :
    form.AllowsCompletion (.returned value) :=
  ⟨allows.1, fun isInitializer => kept (allows.2 isInitializer)⟩

namespace Eval

variable {α β : Type}

/-- An action after another yields a value if both do. -/
theorem bind_eq_ok {action : Eval α} {next : α → Eval β} {machine after : Machine} {value : β} :
    (action >>= next) machine = .ok value after ↔
      ∃ first between, action machine = .ok first between ∧
        next first between = .ok value after := by
  simp only [Bind.bind, EStateM.bind]
  cases action machine with
  | ok first between =>
      refine ⟨fun yields => ⟨first, between, rfl, yields⟩, ?_⟩
      rintro ⟨_, _, ⟨⟩, yields⟩
      exact yields
  | error stop between => simp

theorem within_eq_ok {action : Eval α} {frame : FrameId} {machine after : Machine} {value : α} :
    within frame action machine = .ok value after ↔
      ∃ between, action { machine with active := frame } = .ok value between ∧
        after = { between with active := machine.active } := by
  unfold within
  cases action { machine with active := frame } with
  | ok first between => simp [eq_comm]
  | error stop between => simp

theorem counted_eq_ok {action : Eval α} {machine after : Machine} {value : α} :
    counted action machine = .ok value after ↔
      ∃ between, action { machine with depth := machine.depth + 1 } = .ok value between ∧
        after = { between with depth := between.depth - 1 } := by
  unfold counted
  cases action { machine with depth := machine.depth + 1 } with
  | ok first between => simp [eq_comm]
  | error stop between => simp

theorem ofDesync_eq_ok {result : Except Desync α} {machine after : Machine} {value : α} :
    ofDesync result machine = .ok value after ↔ result = .ok value ∧ after = machine := by
  cases result with
  | ok found =>
      constructor
      · rintro ⟨⟩
        exact ⟨rfl, rfl⟩
      · rintro ⟨⟨⟩, rfl⟩
        rfl
  | error cause =>
      constructor
      · rintro ⟨⟩
      · rintro ⟨⟨⟩, -⟩

/-- What holds of the value of an action on whatever machine it yields one. -/
def Yields (action : Eval α) (post : α → Prop) : Prop :=
  ∀ machine value after, action machine = .ok value after → post value

namespace Yields

variable {action : Eval α} {post : α → Prop}

theorem pure {value : α} (holds : post value) : Yields (pure value) post := by
  rintro machine _ _ ⟨⟩
  exact holds

theorem stop (cause : Stop) : Yields (throw cause : Eval α) post := by
  rintro machine _ _ ⟨⟩

/-- What holds of the first value can be used for the second. -/
theorem andThen {next : α → Eval β} {before : α → Prop} {post : β → Prop}
    (first : Yields action before) (later : ∀ value, before value → Yields (next value) post) :
    Yields (action >>= next) post := by
  intro machine value after yields
  obtain ⟨middle, between, begun, ended⟩ := bind_eq_ok.mp yields
  exact later middle (first machine middle between begun) between value after ended

theorem bind {next : α → Eval β} {post : β → Prop} (later : ∀ value, Yields (next value) post) :
    Yields (action >>= next) post := by
  have anything : Yields action fun _ => True := fun _ _ _ _ => trivial
  exact anything.andThen fun value _ => later value

theorem within {frame : FrameId} (yields : Yields action post) :
    Yields (within frame action) post := by
  intro machine value after completes
  obtain ⟨between, completes, -⟩ := within_eq_ok.mp completes
  exact yields _ value between completes

end Yields

/-- Statements complete as the function around them allows, within a bound. -/
structure CompletesWell (access : Access) (fuel : Nat) : Prop where
  execute : ∀ {form statement}, statement.ReturnsIn form →
    Yields (Eval.execute access fuel statement) form.AllowsCompletion
  executeAll : ∀ {form statements}, Stmt.AllReturnIn form statements →
    Yields (Eval.executeAll access fuel statements) form.AllowsCompletion
  executeLoop : ∀ {form body} condition, body.ReturnsIn form →
    Yields (Eval.executeLoop access fuel condition body) form.AllowsCompletion

namespace CompletesWell

variable {access : Access} {fuel : Nat}

theorem zero : CompletesWell access 0 where
  execute _ := by
    unfold Eval.execute
    exact .stop _
  executeAll _ := by
    unfold Eval.executeAll
    exact .stop _
  executeLoop _ _ := by
    unfold Eval.executeLoop
    exact .stop _

theorem execute_succ (well : CompletesWell access fuel) {form : InFunction} {statement : Stmt}
    (returns : statement.ReturnsIn form) :
    Yields (Eval.execute access (fuel + 1) statement) form.AllowsCompletion := by
  unfold Eval.execute
  cases statement with
  | expression value echo => exact .bind fun _ => .pure trivial
  | print value => exact .bind fun _ => .bind fun _ => .pure trivial
  | declare name initial =>
      cases initial with
      | none => exact .bind fun _ => .bind fun _ => .pure trivial
      | some initial => exact .bind fun _ => .bind fun _ => .pure trivial
  | block body =>
      exact .bind fun _ => .bind fun _ => .within (well.executeAll returns)
  | branch condition consequence alternative =>
      refine .bind fun value => ?_
      cases alternative with
      | none =>
          split
          · exact well.execute returns
          · exact .pure trivial
      | some alternative =>
          split
          · exact well.execute returns.1
          · exact well.execute returns.2
  | loop condition body => exact well.executeLoop condition returns
  | function declaration => exact .bind fun _ => .bind fun _ => .bind fun _ => .pure trivial
  | leave line value =>
      have allows : form.AllowsReturn value.isSome := returns
      cases value with
      | none => exact .pure (allows.completion fun _ => rfl)
      | some value => exact .bind fun _ => .pure (allows.completion fun bare => nomatch bare)
  | classDecl name superclass methods => exact .bind fun _ => .pure trivial

theorem executeAll_succ (well : CompletesWell access fuel) {form : InFunction}
    {statements : List Stmt} (returns : Stmt.AllReturnIn form statements) :
    Yields (Eval.executeAll access (fuel + 1) statements) form.AllowsCompletion := by
  cases statements with
  | nil =>
      unfold Eval.executeAll
      exact .pure trivial
  | cons first rest =>
      unfold Eval.executeAll
      refine .andThen (well.execute returns.1) fun completion allows => ?_
      cases completion with
      | normal => exact well.executeAll returns.2
      | returned value => exact .pure allows

theorem executeLoop_succ (well : CompletesWell access fuel) {form : InFunction} {body : Stmt}
    (condition : Expr) (returns : body.ReturnsIn form) :
    Yields (Eval.executeLoop access (fuel + 1) condition body) form.AllowsCompletion := by
  unfold Eval.executeLoop
  refine .bind fun value => ?_
  split
  · refine .andThen (well.execute returns) fun completion allows => ?_
    cases completion with
    | normal => exact well.executeLoop condition returns
    | returned value => exact .pure allows
  · exact .pure trivial

theorem all (access : Access) (fuel : Nat) : CompletesWell access fuel := by
  induction fuel with
  | zero => exact .zero
  | succ fuel inductionHypothesis =>
      exact ⟨inductionHypothesis.execute_succ, inductionHypothesis.executeAll_succ,
        inductionHypothesis.executeLoop_succ⟩

end CompletesWell

end Eval

end LoxLang
