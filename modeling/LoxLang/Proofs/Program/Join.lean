import LoxLang.Proofs.Program.Completeness
import LoxLang.Proofs.Program.Relabel

/-!
Programs one after the other.  No rule of the grammar looks at the tokens that it
leaves, so what was derived before the end of one source can be derived before
another source, and also from the same tokens further down.  The parse of a joined
source is the two parses in a row.
-/

namespace LoxLang

namespace Grammar

open Relabelling (moveDown)

/-- Two lists of tokens: up to some point the second has the tokens of the first
further down, and there the first goes on with `left` and the second with
`others`. -/
inductive Moved (distance : Nat) (left others : List Token) : List Token → List Token → Prop where
  | here : Moved distance left others left others
  | cons (token : Token) {tokens images : List Token} : Moved distance left others tokens images →
      Moved distance left others (token :: tokens) ((moveDown distance).token token :: images)

variable {distance : Nat} {left others : List Token}

theorem Moved.eq_append {tokens images : List Token}
    (moved : Moved distance left others tokens images) :
    ∃ taken, tokens = taken ++ left ∧ images = taken.map (moveDown distance).token ++ others := by
  induction moved with
  | here => exact ⟨[], rfl, rfl⟩
  | cons token _ inductionHypothesis =>
      obtain ⟨taken, same, image⟩ := inductionHypothesis
      exact ⟨token :: taken, congrArg (token :: ·) same, congrArg (_ :: ·) image⟩

theorem Operator.move {precedence : Parser.Precedence} {left right tree : Expr} {token : Token}
    (operator : Operator left right precedence token tree) (labels : Relabelling) :
    Operator (left.relabel labels) (right.relabel labels) precedence (labels.token token)
      (tree.relabel labels) := by
  cases operator <;> constructor <;> assumption

theorem Constant.move {token : Token} {value : Literal} (constant : Constant token value)
    (labels : Relabelling) : Constant (labels.token token) value := by
  cases constant with
  | no kind => exact .no kind
  | yes kind => exact .yes kind
  | nil kind => exact .nil kind
  | number kind => exact .number kind
  | string kind => exact .string kind

mutual

theorem Expression.move {form : Form} {before after : Cursor} {tree : Expr} {images : List Token} :
    Expression form before tree after → Moved distance left others after.tokens images →
      ∃ starts, Moved distance left others before.tokens starts ∧
        Expression form ⟨starts, before.nextId⟩ (tree.relabel (moveDown distance))
          ⟨images, after.nextId⟩
  | .assign isName isEqual value, moved => by
      obtain ⟨_, between, derived⟩ := value.move moved
      exact ⟨_, .cons _ (.cons _ between), .assign isName isEqual derived⟩
  | .set object isDot isName isEqual value, moved => by
      obtain ⟨_, between, second⟩ := value.move moved
      obtain ⟨_, starts, first⟩ := object.move (.cons _ (.cons _ (.cons _ between)))
      exact ⟨_, starts, .set first isDot isName isEqual second⟩
  | .operation tree, moved => by
      obtain ⟨_, starts, derived⟩ := tree.move moved
      exact ⟨_, starts, .operation derived⟩
  | .binary left operator right, moved => by
      obtain ⟨_, between, second⟩ := right.move moved
      obtain ⟨_, starts, first⟩ := left.move (.cons _ between)
      exact ⟨_, starts, .binary first (operator.move _) second⟩
  | .tighter tree, moved => by
      obtain ⟨_, starts, derived⟩ := tree.move moved
      exact ⟨_, starts, .tighter derived⟩
  | .tightest tree, moved => by
      obtain ⟨_, starts, derived⟩ := tree.move moved
      exact ⟨_, starts, .tightest derived⟩
  | .signed sign operand, moved => by
      obtain ⟨_, between, derived⟩ := operand.move moved
      exact ⟨_, .cons _ between, .signed sign derived⟩
  | .unsigned tree, moved => by
      obtain ⟨_, starts, derived⟩ := tree.move moved
      exact ⟨_, starts, .unsigned derived⟩
  | .callNone callee opens closes, moved => by
      obtain ⟨_, starts, derived⟩ := callee.move (.cons _ (.cons _ moved))
      exact ⟨_, starts, .callNone derived opens closes⟩
  | .call callee opens arguments few closes, moved => by
      obtain ⟨_, between, second⟩ := arguments.move (.cons _ moved)
      obtain ⟨_, starts, first⟩ := callee.move (.cons _ between)
      exact ⟨_, starts, .call first opens second (by rw [Expr.length_relabelAll]; exact few) closes⟩
  | .get object isDot isName, moved => by
      obtain ⟨_, starts, derived⟩ := object.move (.cons _ (.cons _ moved))
      exact ⟨_, starts, .get derived isDot isName⟩
  | .callee tree, moved => by
      obtain ⟨_, starts, derived⟩ := tree.move moved
      exact ⟨_, starts, .callee derived⟩
  | .literal constant, moved => ⟨_, .cons _ moved, .literal (constant.move _)⟩
  | .read isName, moved => ⟨_, .cons _ moved, .read isName⟩
  | .self isThis, moved => ⟨_, .cons _ moved, .self isThis⟩
  | .superMethod isSuper isDot isName, moved =>
      ⟨_, .cons _ (.cons _ (.cons _ moved)), .superMethod isSuper isDot isName⟩
  | .group opens inner closes, moved => by
      obtain ⟨_, between, derived⟩ := inner.move (.cons _ moved)
      exact ⟨_, .cons _ between, .group opens derived closes⟩

theorem Arguments.move {before after : Cursor} {trees : List Expr} {images : List Token} :
    Arguments before trees after → Moved distance left others after.tokens images →
      ∃ starts, Moved distance left others before.tokens starts ∧
        Arguments ⟨starts, before.nextId⟩ (Expr.relabelAll (moveDown distance) trees)
          ⟨images, after.nextId⟩
  | .last tree, moved => by
      obtain ⟨_, starts, derived⟩ := tree.move moved
      exact ⟨_, starts, .last derived⟩
  | .more first comma rest, moved => by
      obtain ⟨_, between, second⟩ := rest.move moved
      obtain ⟨_, starts, derived⟩ := first.move (.cons _ between)
      exact ⟨_, starts, .more derived comma second⟩

end

section Statements

variable {before after : Cursor} {images : List Token}

theorem Optional.move {tree : Option Expr} (derived : Optional before tree after)
    (moved : Moved distance left others after.tokens images) :
    ∃ starts, Moved distance left others before.tokens starts ∧
      Optional ⟨starts, before.nextId⟩ (tree.map (Expr.relabel (moveDown distance)))
        ⟨images, after.nextId⟩ := by
  cases derived with
  | none => exact ⟨_, moved, .none⟩
  | some value =>
      obtain ⟨_, starts, derived⟩ := value.move moved
      exact ⟨_, starts, .some derived⟩

theorem assigns_relabel (labels : Relabelling) (value : Expr) :
    Assigns (value.relabel labels) ↔ Assigns value := by
  cases value
  case assign => exact ⟨fun _ => .assign, fun _ => .assign⟩
  case set => exact ⟨fun _ => .set, fun _ => .set⟩
  all_goals exact ⟨(nomatch ·), (nomatch ·)⟩

theorem ExpressionStatement.move {tree : Stmt} (derived : ExpressionStatement before tree after)
    (moved : Moved distance left others after.tokens images) :
    ∃ starts, Moved distance left others before.tokens starts ∧
      ExpressionStatement ⟨starts, before.nextId⟩ (tree.relabel (moveDown distance))
        ⟨images, after.nextId⟩ := by
  cases derived with
  | intro value semicolon echo =>
      obtain ⟨_, starts, derived⟩ := value.move (.cons _ moved)
      exact ⟨_, starts, .intro derived semicolon (echo.trans (assigns_relabel _ _).symm)⟩

theorem VariableDeclaration.move {tree : Stmt} (derived : VariableDeclaration before tree after)
    (moved : Moved distance left others after.tokens images) :
    ∃ starts, Moved distance left others before.tokens starts ∧
      VariableDeclaration ⟨starts, before.nextId⟩ (tree.relabel (moveDown distance))
        ⟨images, after.nextId⟩ := by
  cases derived with
  | plain isName semicolon => exact ⟨_, .cons _ (.cons _ moved), .plain isName semicolon⟩
  | initialized isName isEqual value semicolon =>
      obtain ⟨_, between, derived⟩ := value.move (.cons _ moved)
      exact ⟨_, .cons _ (.cons _ between), .initialized isName isEqual derived semicolon⟩

theorem Initializer.move {tree : Option Stmt} (derived : Initializer before tree after)
    (moved : Moved distance left others after.tokens images) :
    ∃ starts, Moved distance left others before.tokens starts ∧
      Initializer ⟨starts, before.nextId⟩ (tree.map (Stmt.relabel (moveDown distance)))
        ⟨images, after.nextId⟩ := by
  cases derived with
  | none semicolon => exact ⟨_, .cons _ moved, .none semicolon⟩
  | declaration word tree =>
      obtain ⟨_, between, derived⟩ := tree.move moved
      exact ⟨_, .cons _ between, .declaration word derived⟩
  | expression tree =>
      obtain ⟨_, starts, derived⟩ := tree.move moved
      exact ⟨_, starts, .expression derived⟩

theorem relabel_forTree (labels : Relabelling) (initial : Option Stmt)
    (condition increment : Option Expr) (body : Stmt) :
    (forTree initial condition increment body).relabel labels =
      forTree (initial.map (Stmt.relabel labels)) (condition.map (Expr.relabel labels))
        (increment.map (Expr.relabel labels)) (body.relabel labels) := by
  cases initial <;> cases condition <;> cases increment <;> rfl

theorem Parameters.move {tokens rest : List Token} {names : List Name} {images : List Token} :
    Parameters tokens names rest → Moved distance left others rest images →
      ∃ starts, Moved distance left others tokens starts ∧
        Parameters starts (names.map (moveDown distance).name) images
  | .last isName, moved => ⟨_, .cons _ moved, .last isName⟩
  | .more isName comma names, moved => by
      obtain ⟨_, between, derived⟩ := names.move moved
      exact ⟨_, .cons _ (.cons _ between), .more isName comma derived⟩

theorem ParameterList.move {tokens rest : List Token} {names : List Name}
    (derived : ParameterList tokens names rest) (moved : Moved distance left others rest images) :
    ∃ starts, Moved distance left others tokens starts ∧
      ParameterList starts (names.map (moveDown distance).name) images := by
  cases derived with
  | none closes => exact ⟨_, .cons _ moved, .none closes⟩
  | some names few closes =>
      obtain ⟨_, starts, derived⟩ := names.move (.cons _ moved)
      exact ⟨_, starts, .some derived (by rw [List.length_map]; exact few) closes⟩

theorem Superclass.move {tree : Option (RefId × Name)} (derived : Superclass before tree after)
    (moved : Moved distance left others after.tokens images) :
    ∃ starts, Moved distance left others before.tokens starts ∧
      Superclass ⟨starts, before.nextId⟩
        (tree.map fun (id, parent) => (id, (moveDown distance).name parent))
        ⟨images, after.nextId⟩ := by
  cases derived with
  | none => exact ⟨_, moved, .none⟩
  | some less isName => exact ⟨_, .cons _ (.cons _ moved), .some less isName⟩

end Statements

mutual

theorem Statement.move {nearest dangling : Bool} {before after : Cursor} {tree : Stmt}
    {images : List Token} : Statement nearest dangling before tree after →
    Moved distance left others after.tokens images →
      ∃ starts, Moved distance left others before.tokens starts ∧
        Statement nearest dangling ⟨starts, before.nextId⟩ (tree.relabel (moveDown distance))
          ⟨images, after.nextId⟩
  | .expression tree, moved => by
      obtain ⟨_, starts, derived⟩ := tree.move moved
      exact ⟨_, starts, .expression derived⟩
  | .print word value semicolon, moved => by
      obtain ⟨_, between, derived⟩ := value.move (.cons _ moved)
      exact ⟨_, .cons _ between, .print word derived semicolon⟩
  | .leave word value semicolon, moved => by
      obtain ⟨_, between, derived⟩ := value.move (.cons _ moved)
      exact ⟨_, .cons _ between, .leave word derived semicolon⟩
  | .block opens body closes, moved => by
      obtain ⟨_, between, derived⟩ := body.move (.cons _ moved)
      exact ⟨_, .cons _ between, .block opens derived closes⟩
  | .ifThen word opens condition closes consequence, moved => by
      obtain ⟨_, between, second⟩ := consequence.move moved
      obtain ⟨_, starts, first⟩ := condition.move (.cons _ between)
      exact ⟨_, .cons _ (.cons _ starts), .ifThen word opens first closes second⟩
  | .ifElse word opens condition closes consequence near isElse alternative, moved => by
      obtain ⟨_, last, third⟩ := alternative.move moved
      obtain ⟨_, between, second⟩ := consequence.move (.cons _ last)
      obtain ⟨_, starts, first⟩ := condition.move (.cons _ between)
      exact ⟨_, .cons _ (.cons _ starts), .ifElse word opens first closes second near isElse third⟩
  | .whileLoop word opens condition closes body, moved => by
      obtain ⟨_, between, second⟩ := body.move moved
      obtain ⟨_, starts, first⟩ := condition.move (.cons _ between)
      exact ⟨_, .cons _ (.cons _ starts), .whileLoop word opens first closes second⟩
  | .forLoop word opens initial condition semicolon increment closes body lowered, moved => by
      obtain ⟨_, last, fourth⟩ := body.move moved
      obtain ⟨_, later, third⟩ := increment.move (.cons _ last)
      obtain ⟨_, between, second⟩ := condition.move (.cons _ later)
      obtain ⟨_, starts, first⟩ := initial.move between
      exact ⟨_, .cons _ (.cons _ starts), .forLoop word opens first second semicolon third closes
        fourth (by rw [lowered, relabel_forTree])⟩

theorem Declaration.move {nearest : Bool} {before after : Cursor} {tree : Stmt}
    {images : List Token} : Declaration nearest before tree after →
    Moved distance left others after.tokens images →
      ∃ starts, Moved distance left others before.tokens starts ∧
        Declaration nearest ⟨starts, before.nextId⟩ (tree.relabel (moveDown distance))
          ⟨images, after.nextId⟩
  | .classDecl word isName superclass opens methods closes, moved => by
      obtain ⟨_, between, second⟩ := methods.move (.cons _ moved)
      obtain ⟨_, starts, first⟩ := superclass.move (.cons _ between)
      exact ⟨_, .cons _ (.cons _ starts), .classDecl word isName first opens second closes⟩
  | .function word declaration, moved => by
      obtain ⟨_, between, derived⟩ := declaration.move moved
      exact ⟨_, .cons _ between, .function word derived⟩
  | .declare word tree, moved => by
      obtain ⟨_, between, derived⟩ := tree.move moved
      exact ⟨_, .cons _ between, .declare word derived⟩
  | .statement tree, moved => by
      obtain ⟨_, starts, derived⟩ := tree.move moved
      exact ⟨_, starts, .statement derived⟩

theorem Declarations.move {nearest : Bool} {before after : Cursor} {trees : List Stmt}
    {images : List Token} : Declarations nearest before trees after →
    Moved distance left others after.tokens images →
      ∃ starts, Moved distance left others before.tokens starts ∧
        Declarations nearest ⟨starts, before.nextId⟩ (Stmt.relabelAll (moveDown distance) trees)
          ⟨images, after.nextId⟩
  | .nil, moved => ⟨_, moved, .nil⟩
  | .cons first rest, moved => by
      obtain ⟨_, between, second⟩ := rest.move moved
      obtain ⟨_, starts, derived⟩ := first.move between
      exact ⟨_, starts, .cons derived second⟩

theorem Callable.move {nearest : Bool} {before after : Cursor} {tree : Function}
    {images : List Token} : Callable nearest before tree after →
    Moved distance left others after.tokens images →
      ∃ starts, Moved distance left others before.tokens starts ∧
        Callable nearest ⟨starts, before.nextId⟩ (tree.relabel (moveDown distance))
          ⟨images, after.nextId⟩
  | .intro isName opens parameters brace body closes, moved => by
      obtain ⟨_, between, second⟩ := body.move (.cons _ moved)
      obtain ⟨_, starts, first⟩ := parameters.move (.cons _ between)
      exact ⟨_, .cons _ (.cons _ starts), .intro isName opens first brace second closes⟩

theorem Methods.move {nearest : Bool} {before after : Cursor} {trees : List Function}
    {images : List Token} : Methods nearest before trees after →
    Moved distance left others after.tokens images →
      ∃ starts, Moved distance left others before.tokens starts ∧
        Methods nearest ⟨starts, before.nextId⟩ (Function.relabelAll (moveDown distance) trees)
          ⟨images, after.nextId⟩
  | .nil, moved => ⟨_, moved, .nil⟩
  | .cons first rest, moved => by
      obtain ⟨_, between, second⟩ := rest.move moved
      obtain ⟨_, starts, derived⟩ := first.move between
      exact ⟨_, starts, .cons derived second⟩

end

/-- What is derived before some tokens can be derived before any others. -/
theorem Declarations.before {nearest : Bool} {body left : List Token} {id last : RefId}
    {trees : List Stmt} (derived : Declarations nearest ⟨body ++ left, id⟩ trees ⟨left, last⟩)
    (distance : Nat) (others : List Token) :
    Declarations nearest ⟨body.map (moveDown distance).token ++ others, id⟩
      (Stmt.relabelAll (moveDown distance) trees) ⟨others, last⟩ := by
  obtain ⟨starts, moved, image⟩ := derived.move .here
  obtain ⟨taken, same, rfl⟩ := moved.eq_append
  obtain rfl := List.append_cancel_right same
  exact image

theorem Declarations.append {nearest : Bool} {before middle after : Cursor}
    {first second : List Stmt} : Declarations nearest before first middle →
    Declarations nearest middle second after → Declarations nearest before (first ++ second) after
  | .nil, second => second
  | .cons head rest, second => .cons head (rest.append second)

end Grammar

open Grammar in
/-- Two programs, the second further down, parse as the one and then the other. -/
theorem parse_append {body second : List Token} {last : Token} (nextId : RefId) (distance : Nat)
    (ended : EndsOnce (body ++ [last])) (endedSecond : EndsOnce second)
    (silent : (parse (body ++ [last]) nextId).errors = [])
    (silentSecond :
      (parse second (parse (body ++ [last]) nextId).nextId).errors = []) :
    (parse (body ++ second.map (Relabelling.moveDown distance).token) nextId).errors = [] ∧
      (parse (body ++ second.map (Relabelling.moveDown distance).token) nextId).statements =
        (parse (body ++ [last]) nextId).statements ++
          Stmt.relabelAll (.moveDown distance)
            (parse second (parse (body ++ [last]) nextId).nextId).statements := by
  obtain ⟨closing, isLast, -, first⟩ := derivation_to_end ended silent
  obtain ⟨final, isFinal, isEnd, rest⟩ := derivation_to_end endedSecond silentSecond
  rw [List.getLast?_concat, Option.some.injEq] at isLast
  subst isLast
  obtain ⟨inner, rfl⟩ := List.getLast?_eq_some_iff.mp isFinal
  have firstMoved := first.before 0
    ((inner ++ [final]).map (Relabelling.moveDown distance).token)
  have restMoved := rest.before distance [(Relabelling.moveDown distance).token final]
  have unmoved : ∀ statements, Stmt.relabelAll (.moveDown 0) statements = statements :=
    fun statements => Stmt.relabelAll_eq_self statements fun _ _ => rfl
  have inPlace : (Relabelling.moveDown 0).token = id := rfl
  rw [unmoved, inPlace, List.map_id] at firstMoved
  rw [List.map_append, List.map_singleton] at firstMoved ⊢
  exact Program.parse_eq
    ⟨(Relabelling.moveDown distance).token final, _, isEnd, firstMoved.append restMoved⟩

end LoxLang
