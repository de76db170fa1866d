import LoxLang.Program.Parser

/-!
Marks of expression statements.  Every expression statement that the parser reads is marked
unless its expression is an assignment itself, also in sources with errors.
-/

namespace LoxLang

/-- An expression statement is marked exactly if its expression is no assignment. -/
def Stmt.IsMarked (statement : Stmt) : Prop :=
  ∀ value echo, statement = .expression value echo → echo = !value.isAssignment

theorem Stmt.isMarked_of_echo? {statement : Stmt} (other : statement.echo? = none) :
    statement.IsMarked := by
  rintro value echo rfl
  cases other

namespace Parser

/-- What holds of everything that an action reads. -/
def Gives {α : Type} (action : Parse α) (post : α → Prop) : Prop :=
  ∀ before value after, action before = .ok value after → post value

namespace Gives

variable {α β : Type} {action : Parse α} {post : α → Prop}

theorem pure {value : α} (holds : post value) : Gives (pure value) post := by
  rintro _ _ _ ⟨⟩
  exact holds

theorem stop (abort : Abort) : Gives (throw abort : Parse α) post := by
  rintro _ _ _ ⟨⟩

/-- What holds of the first value can be used for the second. -/
theorem andThen {next : α → Parse β} {after : β → Prop} (first : Gives action post)
    (later : ∀ value, post value → Gives (next value) after) : Gives (action >>= next) after := by
  intro before value last read
  simp only [Bind.bind, EStateM.bind] at read
  cases begun : action before with
  | ok middle between =>
      rw [begun] at read
      exact later middle (first before middle between begun) between value last read
  | error abort between =>
      rw [begun] at read
      cases read

theorem bind {next : α → Parse β} {after : β → Prop} (later : ∀ value, Gives (next value) after) :
    Gives (action >>= next) after := by
  have anything : Gives action fun _ => True := fun _ _ _ _ => trivial
  exact anything.andThen fun value _ => later value

end Gives

theorem gives_variableDeclaration (bound : Nat) :
    Gives (variableDeclaration bound) Stmt.IsMarked := by
  refine .bind fun name => .bind fun isInitialized => ?_
  dsimp only
  split
  · exact .bind fun _ => .bind fun _ => .pure (Stmt.isMarked_of_echo? rfl)
  · exact .bind fun _ => .bind fun _ => .pure (Stmt.isMarked_of_echo? rfl)

theorem gives_expressionStatement (bound : Nat) : Gives (expressionStatement bound) Stmt.IsMarked :=
  .bind fun _ => .bind fun _ => .pure fun _ _ same => by
    cases same
    rfl

theorem isMarked_lowerFor (initial : Option Stmt) (condition increment : Option Expr)
    (body : Stmt) : (lowerFor initial condition increment body).IsMarked := by
  apply Stmt.isMarked_of_echo?
  cases initial <;> rfl

theorem gives_forStatement (bound : Nat) : Gives (forStatement bound) Stmt.IsMarked := by
  cases bound with
  | zero => exact .stop _
  | succ bound =>
      unfold forStatement
      exact .bind fun _ => .bind fun _ => .bind fun _ => .bind fun _ => .bind fun _ =>
        .bind fun _ => .bind fun _ => .pure (isMarked_lowerFor _ _ _ _)

theorem gives_statement (bound : Nat) : Gives (statement bound) Stmt.IsMarked := by
  cases bound with
  | zero => exact .stop _
  | succ bound =>
      unfold statement
      refine .bind fun next => ?_
      split
      · exact .bind fun _ => gives_forStatement bound
      · refine .bind fun _ => .bind fun _ => .bind fun _ => .bind fun _ => .bind fun _ =>
          .bind fun hasAlternative => ?_
        dsimp only
        split
        · exact .bind fun _ => .pure (Stmt.isMarked_of_echo? rfl)
        · exact .bind fun _ => .pure (Stmt.isMarked_of_echo? rfl)
      · exact .bind fun _ => .bind fun _ => .bind fun _ => .pure (Stmt.isMarked_of_echo? rfl)
      · exact .bind fun _ => .bind fun _ => .bind fun _ => .pure (Stmt.isMarked_of_echo? rfl)
      · exact .bind fun _ => .bind fun _ => .bind fun _ => .bind fun _ => .bind fun _ =>
          .pure (Stmt.isMarked_of_echo? rfl)
      · exact .bind fun _ => .bind fun _ => .pure (Stmt.isMarked_of_echo? rfl)
      · exact gives_expressionStatement bound

theorem gives_classDeclaration (bound : Nat) :
    Gives (classDeclaration bound) Stmt.IsMarked := by
  cases bound with
  | zero => exact .stop _
  | succ bound =>
      unfold classDeclaration
      refine .bind fun name => .bind fun inherits => ?_
      dsimp only
      split
      · exact .bind fun _ => .bind fun _ => .bind fun _ => .bind fun _ => .bind fun _ =>
          .bind fun _ => .pure (Stmt.isMarked_of_echo? rfl)
      · exact .bind fun _ => .bind fun _ => .bind fun _ => .bind fun _ =>
          .pure (Stmt.isMarked_of_echo? rfl)

theorem gives_declaration (bound : Nat) : Gives (declaration bound) Stmt.IsMarked := by
  cases bound with
  | zero => exact .stop _
  | succ bound =>
      unfold declaration
      refine .bind fun isClass => ?_
      split
      · exact gives_classDeclaration bound
      · refine .bind fun isFunction => ?_
        split
        · exact .bind fun _ => .pure (Stmt.isMarked_of_echo? rfl)
        · refine .bind fun isVariable => ?_
          split
          · exact gives_variableDeclaration bound
          · exact gives_statement bound

/-- Recovery gives up a statement or keeps it as it was read. -/
theorem gives_recovering (bound : Nat) :
    Gives (recovering bound) fun found => ∀ statement ∈ found, statement.IsMarked := by
  cases bound with
  | zero => exact .stop _
  | succ bound =>
      intro before found after read
      simp only [recovering] at read
      cases declared : declaration bound before with
      | ok statement between =>
          rw [declared] at read
          cases read
          rintro _ ⟨⟩
          exact gives_declaration bound before statement _ declared
      | error abort between =>
          rw [declared] at read
          cases abort with
          | syntaxError =>
              cases read
              rintro _ ⟨⟩
          | bound => cases read

theorem gives_programFrom (bound : Nat) :
    Gives (programFrom bound) fun statements => ∀ statement ∈ statements, statement.IsMarked := by
  induction bound with
  | zero => exact .stop _
  | succ bound inductionHypothesis =>
      unfold programFrom
      refine .bind fun isEnd => ?_
      split
      · exact .pure fun _ member => absurd member List.not_mem_nil
      · refine (gives_recovering bound).andThen fun found marked => ?_
        cases found with
        | none => exact inductionHypothesis
        | some first =>
            exact inductionHypothesis.andThen fun rest later =>
              .pure (List.forall_mem_cons.mpr ⟨marked first rfl, later⟩)

end Parser

/-- The statements of a source are marked. -/
theorem isMarked_of_mem_parse (tokens : List Token) (nextId : RefId) :
    ∀ statement ∈ (parse tokens nextId).statements, statement.IsMarked := by
  have gives := Parser.gives_programFrom (Parser.boundFor tokens) ⟨tokens, [], nextId⟩
  unfold parse
  split
  · next statements after read => exact gives statements after read
  · exact fun _ member => absurd member List.not_mem_nil

end LoxLang
