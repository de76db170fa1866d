import LoxLang.Proofs.Program.Soundness

/-!
What the grammar derives is parsed.  Operators and calls are derived from their
left end but parsed in a loop, so a derivation is shown to bring the loop to its
tree with the tokens after it still ahead.  The loop ends at a token that cannot
go on, which is what follows an expression in a program.
-/

namespace LoxLang

open Grammar

namespace Parser

theorem Precedence.operator?_of_operator {left right tree : Expr} {precedence : Precedence}
    {token : Token} (operator : Operator left right precedence token tree) :
    ∃ build, precedence.operator? token.kind = some build ∧ tree = build token.line left right := by
  cases operator <;> next kind => exact ⟨_, by rw [kind]; rfl, rfl⟩

theorem unaryOperator?_of_sign {kind : Token.Kind} {op : UnaryOp} (sign : Sign kind op) :
    unaryOperator? kind = some op := by
  cases sign <;> rfl

theorem literal?_of_constant {token : Token} {value : Literal}
    (constant : Constant token value) : literal? token = some value := by
  cases constant <;> next kind => simp only [literal?, kind]

/-- A token belongs to one level. -/
theorem Precedence.operator?_of_ne {first second : Precedence} {kind : Token.Kind}
    (apart : first ≠ second) (found : (first.operator? kind).isSome) :
    second.operator? kind = none := by
  unfold Precedence.operator? at found
  split at found <;> cases second <;> first | rfl | exact absurd rfl apart | cases found

/-- A chain of calls ends before a token. -/
def EndsCall (kind : Token.Kind) : Prop :=
  kind ≠ .leftParen ∧ kind ≠ .dot

/-- An expression of some levels of operators ends before a token. -/
def Ends (levels : List Precedence) (kind : Token.Kind) : Prop :=
  EndsCall kind ∧ ∀ precedence ∈ levels, precedence.operator? kind = none

/-- An expression ends before a token. -/
def EndsExpression (kind : Token.Kind) : Prop :=
  Ends Precedence.all kind ∧ kind ≠ .equal

theorem ends_equal : Ends Precedence.all .equal :=
  ⟨⟨by decide, by decide⟩, fun precedence _ => by cases precedence <;> rfl⟩

theorem endsExpression_semicolon : EndsExpression .semicolon :=
  ⟨⟨⟨by decide, by decide⟩, fun precedence _ => by cases precedence <;> rfl⟩, by decide⟩

theorem endsExpression_rightParen : EndsExpression .rightParen :=
  ⟨⟨⟨by decide, by decide⟩, fun precedence _ => by cases precedence <;> rfl⟩, by decide⟩

theorem endsExpression_comma : EndsExpression .comma :=
  ⟨⟨⟨by decide, by decide⟩, fun precedence _ => by cases precedence <;> rfl⟩, by decide⟩

/-- An operator ends what is tighter than its level. -/
theorem ends_of_operator {left right tree : Expr} {precedence : Precedence} {token : Token}
    {tighter : List Precedence} (operator : Operator left right precedence token tree)
    (apart : precedence ∉ tighter) : Ends tighter token.kind := by
  refine ⟨?_, ?_⟩
  · cases operator <;> next kind => rw [kind]; exact ⟨by decide, by decide⟩
  · intro other member
    obtain ⟨build, found, -⟩ := Precedence.operator?_of_operator operator
    apply Precedence.operator?_of_ne _ (by rw [found]; rfl)
    rintro rfl
    exact apart member

/-- The state at a cursor. -/
def stateAt (cursor : Cursor) (errors : List Diagnostic) : State :=
  ⟨cursor.tokens, errors, cursor.nextId⟩

/-- A parser with a bound takes a state from one cursor to another, given room
for `rank` calls before the next token. -/
def Runs {α : Type} (parser : Nat → Parse α) (rank : Nat) (before : Cursor) (tree : α)
    (after : Cursor) : Prop :=
  ∀ errors bound, 20 * before.tokens.length + rank ≤ bound →
    parser bound (stateAt before errors) = .ok tree (stateAt after errors)

/-- A parser comes to a loop that still has room. -/
def ComesTo {α β : Type} (parser : Nat → Parse α) (rank : Nat) (before : Cursor)
    (loop : Nat → β → Parse α) (tree : β) (after : Cursor) : Prop :=
  ∀ errors bound, 20 * before.tokens.length + rank ≤ bound →
    ∃ left, 20 * after.tokens.length + 1 ≤ left ∧
      parser bound (stateAt before errors) = loop left tree (stateAt after errors)

theorem callRest_of_ends {bound : Nat} {callee : Expr} {cursor : Cursor}
    {errors : List Diagnostic} (room : 1 ≤ bound) (ends : EndsCall (ahead cursor.tokens)) :
    callRest bound callee (stateAt cursor errors) = .ok callee (stateAt cursor errors) := by
  obtain ⟨bound, rfl⟩ := Nat.exists_eq_add_of_le' room
  unfold stateAt
  simp only [callRest]
  rw [bind_of_ok _ (accept_of_ne (by decide) ends.1 errors cursor.nextId)]
  simp only [Option.isSome_none, Bool.false_eq_true, if_false]
  rw [bind_of_ok _ (accept_of_ne (by decide) ends.2 errors cursor.nextId)]
  rfl

theorem levelRest_of_ends {bound : Nat} {precedence : Precedence} {tighter : List Precedence}
    {left : Expr} {cursor : Cursor} {errors : List Diagnostic} (room : 1 ≤ bound)
    (ends : precedence.operator? (ahead cursor.tokens) = none) :
    levelRest bound precedence tighter left (stateAt cursor errors) =
      .ok left (stateAt cursor errors) := by
  obtain ⟨bound, rfl⟩ := Nat.exists_eq_add_of_le' room
  unfold stateAt
  simp only [levelRest]
  rw [bind_of_ok _ (acceptWith_of_none ends errors cursor.nextId)]
  rfl

/-- A token that cannot start a derivation is not ahead of it. -/
theorem ahead_ne_of_begins {starts : Token.Kind → Bool} {before after : Cursor}
    {kind : Token.Kind} (begins : Begins starts before after) (other : starts kind = false) :
    ahead before.tokens ≠ kind := by
  obtain ⟨token, rest, tokens, first, -⟩ := begins
  rw [tokens, ahead_cons]
  rintro rfl
  rw [first] at other
  cases other

/-- An operand and the calls and property reads after it. -/
def callChain (bound : Nat) : Parse Expr := do
  let callee ← primary bound
  callRest bound callee

/-- A loop that comes to an end. -/
theorem ComesTo.runs {α : Type} {parser : Nat → Parse α} {rank : Nat} {before after : Cursor}
    {loop : Nat → α → Parse α} {tree : α} (comes : ComesTo parser rank before loop tree after)
    (ends : ∀ errors left, 1 ≤ left →
      loop left tree (stateAt after errors) = .ok tree (stateAt after errors)) :
    Runs parser rank before tree after := by
  intro errors bound room
  obtain ⟨left, enough, result⟩ := comes errors bound room
  rw [result]
  exact ends errors left (by omega)

/-- A loop goes on with one more token or more. -/
theorem ComesTo.step {α β : Type} {parser : Nat → Parse α} {rank : Nat}
    {before middle after : Cursor} {loop : Nat → β → Parse α} {tree next : β}
    (comes : ComesTo parser rank before loop tree middle)
    (shorter : after.tokens.length < middle.tokens.length)
    (goes : ∀ errors left, 20 * middle.tokens.length ≤ left →
      loop (left + 1) tree (stateAt middle errors) = loop left next (stateAt after errors)) :
    ComesTo parser rank before loop next after := by
  intro errors bound room
  obtain ⟨left, enough, result⟩ := comes errors bound room
  obtain ⟨left, rfl⟩ := Nat.exists_eq_add_of_le' (Nat.le_trans (Nat.le_add_left 1 _) enough)
  refine ⟨left, by omega, ?_⟩
  rw [result]
  exact goes errors left (by omega)

theorem ComesTo.callNone {before : Cursor} {callee : Expr} {opens closes : Token}
    {rest : List Token} {id : RefId}
    (comes : ComesTo callChain 1 before callRest callee ⟨opens :: closes :: rest, id⟩)
    (isOpen : opens.kind = .leftParen) (isClosed : closes.kind = .rightParen) :
    ComesTo callChain 1 before callRest (.call callee [] closes.line) ⟨rest, id⟩ := by
  apply comes.step (Nat.lt_add_of_pos_right (by decide : 0 < 2))
  intro errors left _
  simp only [callRest, stateAt]
  rw [bind_of_ok _ (accept_of_eq (by decide) isOpen _ errors id)]
  simp only [Option.isSome_some, if_true]
  rw [bind_of_ok _ (check_apply (by decide) _)]
  simp only [ahead_cons, isClosed, decide_true, if_true, pure_bind]
  rw [bind_of_ok _ (expect_of_eq (by decide) isClosed _ rest errors id)]

theorem ComesTo.call {before : Cursor} {callee : Expr} {arguments : List Expr}
    {opens closes : Token} {inside rest : List Token} {id last : RefId}
    (comes : ComesTo callChain 1 before callRest callee ⟨opens :: inside, id⟩)
    (isOpen : opens.kind = .leftParen)
    (inner : Runs (argumentsFrom · 0) 11 ⟨inside, id⟩ arguments ⟨closes :: rest, last⟩)
    (begins : Begins startsExpression ⟨inside, id⟩ ⟨closes :: rest, last⟩)
    (isClosed : closes.kind = .rightParen) :
    ComesTo callChain 1 before callRest (.call callee arguments closes.line) ⟨rest, last⟩ := by
  have shorter := begins.length_lt
  simp only [List.length_cons] at shorter
  apply comes.step (by simp; omega)
  intro errors left room
  simp only [List.length_cons] at room
  have notClosed : ahead inside ≠ .rightParen := ahead_ne_of_begins begins rfl
  have result := inner errors left (by dsimp only; omega)
  simp only [stateAt] at result
  simp only [callRest, stateAt]
  rw [bind_of_ok _ (accept_of_eq (by decide) isOpen _ errors id)]
  simp only [Option.isSome_some, if_true]
  rw [bind_of_ok _ (check_apply (by decide) _)]
  simp only [notClosed, decide_false, Bool.false_eq_true, if_false]
  rw [bind_of_ok _ result, bind_of_ok _ (expect_of_eq (by decide) isClosed _ rest errors last)]

theorem ComesTo.get {before : Cursor} {object : Expr} {dot name : Token} {rest : List Token}
    {id : RefId}
    (comes : ComesTo callChain 1 before callRest object ⟨dot :: name :: rest, id⟩)
    (isDot : dot.kind = .dot) (isName : name.kind = .identifier) :
    ComesTo callChain 1 before callRest (.get object (nameOf name)) ⟨rest, id⟩ := by
  have notOpen : ahead (dot :: name :: rest) ≠ .leftParen := by
    rw [ahead_cons, isDot]
    decide
  apply comes.step (Nat.lt_add_of_pos_right (by decide : 0 < 2))
  intro errors left _
  simp only [callRest, stateAt]
  rw [bind_of_ok _ (accept_of_ne (by decide) notOpen errors id)]
  simp only [Option.isSome_none, Bool.false_eq_true, if_false]
  rw [bind_of_ok _ (accept_of_eq (by decide) isDot _ errors id)]
  simp only [Option.isSome_some, if_true]
  rw [bind_of_ok _ (expectName_of_eq isName _ rest errors id)]

/-- A chain of calls without a sign before it. -/
theorem Runs.unary {before after : Cursor} {tree : Expr}
    (comes : ComesTo callChain 1 before callRest tree after)
    (begins : Begins startsOperand before after) (ends : EndsCall (ahead after.tokens)) :
    Runs unary 2 before tree after := by
  intro errors bound room
  obtain ⟨bound, rfl⟩ := Nat.exists_eq_add_of_le' (Nat.le_trans (Nat.le_add_left 1 _) room)
  have unsigned : unaryOperator? (ahead before.tokens) = none := by
    obtain ⟨token, rest, tokens, starts, -⟩ := begins
    rw [tokens, ahead_cons]
    unfold unaryOperator?
    split
    · next isBang => rw [isBang] at starts; cases starts
    · next isMinus => rw [isMinus] at starts; cases starts
    · rfl
  obtain ⟨left, enough, result⟩ := comes errors bound (by omega)
  simp only [Parser.unary]
  apply (bind_of_ok _ (acceptWith_of_none unsigned errors before.nextId)).trans
  exact result.trans (callRest_of_ends (by omega) ends)

/-- An operand of every level. -/
theorem Runs.level {before after : Cursor} {tree : Expr} (inner : Runs Parser.unary 2 before tree after) :
    ∀ {levels : List Precedence}, Ends levels (ahead after.tokens) →
      Runs (level · levels) (levels.length + 3) before tree after
  | [], _, errors, bound, room => by
      obtain ⟨bound, rfl⟩ := Nat.exists_eq_add_of_le' (Nat.le_trans (Nat.le_add_left 1 _) room)
      simp only [Parser.level]
      exact inner errors bound (by simp at room; omega)
  | precedence :: tighter, ends, errors, bound, room => by
      obtain ⟨bound, rfl⟩ := Nat.exists_eq_add_of_le' (Nat.le_trans (Nat.le_add_left 1 _) room)
      have endsTighter : Ends tighter (ahead after.tokens) :=
        ⟨ends.1, fun other member => ends.2 other (List.mem_cons_of_mem _ member)⟩
      simp only [List.length_cons] at room
      have result := Runs.level inner endsTighter errors bound (by omega)
      simp only [Parser.level]
      rw [bind_of_ok _ result]
      exact levelRest_of_ends (by omega) (ends.2 precedence List.mem_cons_self)

/-- What a derivation of each form lets the parser do. -/
def FormRuns : Form → Cursor → Expr → Cursor → Prop
  | .assignment, before, tree, after =>
      EndsExpression (ahead after.tokens) → Runs expression 10 before tree after
  | .operators [], before, tree, after =>
      EndsCall (ahead after.tokens) → Runs (level · []) 3 before tree after
  | .operators (precedence :: tighter), before, tree, after =>
      precedence ∉ tighter → tighter.Nodup → tighter.length < 6 →
        Ends tighter (ahead after.tokens) →
          ComesTo (level · (precedence :: tighter)) (tighter.length + 4) before
            (levelRest · precedence tighter) tree after
  | .unary, before, tree, after =>
      EndsCall (ahead after.tokens) → Runs unary 2 before tree after
  | .call, before, tree, after => ComesTo callChain 1 before callRest tree after
  | .primary, before, tree, after => Runs primary 1 before tree after

/-- Operators of some levels are parsed up to a token that ends them. -/
theorem FormRuns.level {levels : List Precedence} {before after : Cursor} {tree : Expr}
    (runs : FormRuns (.operators levels) before tree after) (distinct : levels.Nodup)
    (few : levels.length ≤ 6) (ends : Ends levels (ahead after.tokens)) :
    Runs (level · levels) (levels.length + 3) before tree after := by
  cases levels with
  | nil => exact runs ends.1
  | cons precedence tighter =>
      obtain ⟨apart, distinct⟩ := List.nodup_cons.mp distinct
      have endsTighter : Ends tighter (ahead after.tokens) :=
        ⟨ends.1, fun other member => ends.2 other (List.mem_cons_of_mem _ member)⟩
      apply (runs apart distinct few endsTighter).runs
      intro errors left room
      exact levelRest_of_ends room (ends.2 precedence List.mem_cons_self)

theorem FormRuns.tighter {precedence : Precedence} {tighter : List Precedence}
    {before after : Cursor} {tree : Expr} (begins : Begins startsExpression before after)
    (runs : FormRuns (.operators tighter) before tree after) :
    FormRuns (.operators (precedence :: tighter)) before tree after := by
  intro _ distinct few ends errors bound room
  obtain ⟨bound, rfl⟩ := Nat.exists_eq_add_of_le' (Nat.le_trans (Nat.le_add_left 1 _) room)
  have shorter := begins.length_lt
  have result := runs.level distinct (Nat.le_of_lt few) ends errors bound (by omega)
  refine ⟨bound, by omega, ?_⟩
  simp only [Parser.level]
  exact bind_of_ok _ result

theorem FormRuns.binary {precedence : Precedence} {tighter : List Precedence}
    {before after : Cursor} {left right tree : Expr} {operator : Token} {rest : List Token}
    {id : RefId}
    (first : FormRuns (.operators (precedence :: tighter)) before left ⟨operator :: rest, id⟩)
    (isOperator : Operator left right precedence operator tree)
    (begins : Begins startsExpression ⟨rest, id⟩ after)
    (second : FormRuns (.operators tighter) ⟨rest, id⟩ right after) :
    FormRuns (.operators (precedence :: tighter)) before tree after := by
  intro apart distinct few ends
  have shorter := begins.length_lt
  obtain ⟨build, found, rfl⟩ := Precedence.operator?_of_operator isOperator
  apply (first apart distinct few (ends_of_operator isOperator apart)).step
  · exact Nat.lt_succ_of_lt shorter
  · intro errors left room
    simp only [List.length_cons] at room
    have result := second.level distinct (Nat.le_of_lt few) ends errors left
      (by dsimp only; omega)
    simp only [levelRest, stateAt]
    rw [bind_of_ok _ (acceptWith_of_some found rest errors id)]
    exact bind_of_ok _ result

theorem FormRuns.signed {sign : Token} {op : UnaryOp} {rest : List Token} {id : RefId}
    {operand : Expr} {after : Cursor} (isSign : Sign sign.kind op)
    (runs : FormRuns .unary ⟨rest, id⟩ operand after) :
    FormRuns .unary ⟨sign :: rest, id⟩ (.unary op sign.line operand) after := by
  intro ends errors bound room
  obtain ⟨bound, rfl⟩ := Nat.exists_eq_add_of_le' (Nat.le_trans (Nat.le_add_left 1 _) room)
  simp only [List.length_cons] at room
  have result := runs ends errors bound (by dsimp only; omega)
  simp only [Parser.unary, stateAt]
  rw [bind_of_ok _ (acceptWith_of_some (unaryOperator?_of_sign isSign) rest errors id)]
  exact bind_of_ok _ result

theorem FormRuns.callee {before after : Cursor} {tree : Expr}
    (begins : Begins startsOperand before after) (runs : FormRuns .primary before tree after) :
    FormRuns .call before tree after := by
  intro errors bound room
  have shorter := begins.length_lt
  exact ⟨bound, by omega, bind_of_ok _ (runs errors bound room)⟩

/-- An operand that one token makes up. -/
theorem Runs.primary {token : Token} {rest : List Token} {id last : RefId} {tree : Expr}
    (result : ∀ errors bound,
      Parser.primary (bound + 1) ⟨token :: rest, errors, id⟩ = .ok tree ⟨rest, errors, last⟩) :
    Runs Parser.primary 1 ⟨token :: rest, id⟩ tree ⟨rest, last⟩ := by
  intro errors bound room
  obtain ⟨bound, rfl⟩ := Nat.exists_eq_add_of_le' (Nat.le_trans (Nat.le_add_left 1 _) room)
  exact result errors bound

theorem FormRuns.literal {token : Token} {value : Literal} {rest : List Token} {id : RefId}
    (constant : Constant token value) :
    FormRuns .primary ⟨token :: rest, id⟩ (.literal value) ⟨rest, id⟩ := by
  apply Runs.primary
  intro errors bound
  have found : literal? token = some value := literal?_of_constant constant
  simp only [Parser.primary, Bind.bind, EStateM.bind, peek, List.headD_cons, found]
  rfl

theorem FormRuns.read {name : Token} {rest : List Token} {id : RefId}
    (isName : name.kind = .identifier) :
    FormRuns .primary ⟨name :: rest, id⟩ (.read id (nameOf name)) ⟨rest, id + 1⟩ := by
  apply Runs.primary
  intro errors bound
  have notLiteral : literal? name = none := by simp only [literal?, isName]
  simp only [Parser.primary, Bind.bind, EStateM.bind, peek, List.headD_cons, notLiteral, isName]
  rfl

theorem FormRuns.self {word : Token} {rest : List Token} {id : RefId}
    (isThis : word.kind = .thisWord) :
    FormRuns .primary ⟨word :: rest, id⟩ (.self id word.line) ⟨rest, id + 1⟩ := by
  apply Runs.primary
  intro errors bound
  have notLiteral : literal? word = none := by simp only [literal?, isThis]
  simp only [Parser.primary, Bind.bind, EStateM.bind, peek, List.headD_cons, notLiteral, isThis]
  rfl

theorem FormRuns.superMethod {word dot name : Token} {rest : List Token} {id : RefId}
    (isSuper : word.kind = .superWord) (isDot : dot.kind = .dot)
    (isName : name.kind = .identifier) :
    FormRuns .primary ⟨word :: dot :: name :: rest, id⟩
      (.superMethod id word.line (nameOf name)) ⟨rest, id + 1⟩ := by
  intro errors bound room
  obtain ⟨bound, rfl⟩ := Nat.exists_eq_add_of_le' (Nat.le_trans (Nat.le_add_left 1 _) room)
  have notLiteral : literal? word = none := by simp only [literal?, isSuper]
  have dotted := expect_of_eq (by decide) isDot .expectedDotAfterSuper (name :: rest) errors id
  have named := expectName_of_eq isName .expectedSuperclassMethod rest errors id
  unfold Parser.primary stateAt
  rw [peek_skip _ _ (by simp only [notLiteral, isSuper]; rfl), bind_of_ok _ dotted,
    bind_of_ok _ named]
  rfl

theorem FormRuns.group {opens closes : Token} {inside rest : List Token} {id last : RefId}
    {inner : Expr} (isOpen : opens.kind = .leftParen)
    (runs : FormRuns .assignment ⟨inside, id⟩ inner ⟨closes :: rest, last⟩)
    (isClosed : closes.kind = .rightParen) :
    FormRuns .primary ⟨opens :: inside, id⟩ (.group inner) ⟨rest, last⟩ := by
  intro errors bound room
  obtain ⟨bound, rfl⟩ := Nat.exists_eq_add_of_le' (Nat.le_trans (Nat.le_add_left 1 _) room)
  simp only [List.length_cons] at room
  have ends : EndsExpression (ahead (closes :: rest)) := by
    rw [ahead_cons, isClosed]
    exact endsExpression_rightParen
  have notLiteral : literal? opens = none := by simp only [literal?, isOpen]
  have result := runs ends errors bound (by dsimp only; omega)
  have closed := expect_of_eq (by decide) isClosed .unclosedGroup rest errors last
  simp only [stateAt] at result
  unfold Parser.primary stateAt
  rw [peek_skip _ _ (by simp only [notLiteral, isOpen]; rfl), bind_of_ok _ result,
    bind_of_ok _ closed]
  rfl

/-- A chain of calls to the left of an assignment. -/
theorem ComesTo.target {before : Cursor} {tree : Expr} {equal : Token} {rest : List Token}
    {id : RefId} (comes : ComesTo callChain 1 before callRest tree ⟨equal :: rest, id⟩)
    (begins : Begins startsOperand before ⟨equal :: rest, id⟩) (isEqual : equal.kind = .equal) :
    Runs (level · Precedence.all) 9 before tree ⟨equal :: rest, id⟩ := by
  have ends : Ends Precedence.all (ahead (equal :: rest)) := by
    rw [ahead_cons, isEqual]
    exact ends_equal
  exact (Runs.unary comes begins ends.1).level ends

/-- A name to the left of an assignment. -/
theorem FormRuns.assign {name equal : Token} {rest : List Token} {id : RefId} {value : Expr}
    {after : Cursor} (isName : name.kind = .identifier) (isEqual : equal.kind = .equal)
    (runs : FormRuns .assignment ⟨rest, id + 1⟩ value after) :
    FormRuns .assignment ⟨name :: equal :: rest, id⟩ (.assign id (nameOf name) value) after := by
  intro ends errors bound room
  obtain ⟨bound, rfl⟩ := Nat.exists_eq_add_of_le' (Nat.le_trans (Nat.le_add_left 1 _) room)
  simp only [List.length_cons] at room
  have begins : Begins startsOperand ⟨name :: equal :: rest, id⟩ ⟨equal :: rest, id + 1⟩ :=
    ⟨name, _, rfl, by rw [isName]; rfl, Nat.le_refl _⟩
  have target := (FormRuns.callee begins (.read isName)).target begins isEqual errors bound
    (by simp only [List.length_cons]; omega)
  have result := runs ends errors bound (by dsimp only; omega)
  simp only [Parser.expression]
  rw [bind_of_ok _ target]
  apply (bind_of_ok _ (accept_of_eq (by decide) isEqual rest errors (id + 1))).trans
  exact bind_of_ok _ result

/-- A property to the left of an assignment. -/
theorem FormRuns.set {before after : Cursor} {object value : Expr} {dot name equal : Token}
    {rest : List Token} {id : RefId}
    (begins : Begins startsOperand before ⟨dot :: name :: equal :: rest, id⟩)
    (inner : FormRuns .call before object ⟨dot :: name :: equal :: rest, id⟩)
    (isDot : dot.kind = .dot) (isName : name.kind = .identifier) (isEqual : equal.kind = .equal)
    (runs : FormRuns .assignment ⟨rest, id⟩ value after) :
    FormRuns .assignment before (.set object (nameOf name) value) after := by
  intro ends errors bound room
  obtain ⟨bound, rfl⟩ := Nat.exists_eq_add_of_le' (Nat.le_trans (Nat.le_add_left 1 _) room)
  have shorter := begins.length_lt
  simp only [List.length_cons] at shorter
  have target := (ComesTo.get inner isDot isName).target (begins.further (Nat.le_add_right _ 2))
    isEqual errors bound (by omega)
  have result := runs ends errors bound (by dsimp only; omega)
  simp only [Parser.expression]
  rw [bind_of_ok _ target]
  apply (bind_of_ok _ (accept_of_eq (by decide) isEqual rest errors id)).trans
  exact bind_of_ok _ result

/-- An expression that is not assigned to. -/
theorem FormRuns.operation {before after : Cursor} {tree : Expr}
    (runs : FormRuns (.operators [.or, .and, .equality, .comparison, .term, .factor])
      before tree after) : FormRuns .assignment before tree after := by
  intro ends errors bound room
  obtain ⟨bound, rfl⟩ := Nat.exists_eq_add_of_le' (Nat.le_trans (Nat.le_add_left 1 _) room)
  have result := runs.level (by decide) (by decide) ends.1 errors bound
    (by simp only [List.length_cons, List.length_nil]; omega)
  simp only [Parser.expression]
  apply (bind_of_ok _ result).trans
  exact bind_of_ok _ (accept_of_ne (by decide) ends.2 errors after.nextId)

theorem Runs.lastArgument {before after : Cursor} {tree : Expr} {count : Nat}
    (runs : FormRuns .assignment before tree after) (isClosed : ahead after.tokens = .rightParen)
    (few : count < 255) : Runs (argumentsFrom · count) 11 before [tree] after := by
  intro errors bound room
  obtain ⟨bound, rfl⟩ := Nat.exists_eq_add_of_le' (Nat.le_trans (Nat.le_add_left 1 _) room)
  have within : ¬ maxArguments ≤ count := Nat.not_le_of_lt few
  have notComma : ahead after.tokens ≠ .comma := by
    rw [isClosed]
    decide
  have result := runs (by rw [isClosed]; exact endsExpression_rightParen) errors bound (by omega)
  simp only [argumentsFrom, within, if_false]
  apply (bind_of_ok _ result).trans
  exact bind_of_ok _ (accept_of_ne (by decide) notComma errors after.nextId)

theorem Runs.moreArguments {before after : Cursor} {first : Expr} {others : List Expr}
    {comma : Token} {rest : List Token} {id : RefId} {count : Nat}
    (begins : Begins startsExpression before ⟨comma :: rest, id⟩)
    (runs : FormRuns .assignment before first ⟨comma :: rest, id⟩) (isComma : comma.kind = .comma)
    (runsOthers : Runs (argumentsFrom · (count + 1)) 11 ⟨rest, id⟩ others after)
    (few : count < 255) : Runs (argumentsFrom · count) 11 before (first :: others) after := by
  intro errors bound room
  obtain ⟨bound, rfl⟩ := Nat.exists_eq_add_of_le' (Nat.le_trans (Nat.le_add_left 1 _) room)
  have within : ¬ maxArguments ≤ count := Nat.not_le_of_lt few
  have shorter := begins.length_lt
  simp only [List.length_cons] at shorter
  have result := runs (by rw [ahead_cons, isComma]; exact endsExpression_comma) errors bound
    (by omega)
  have resultOthers := runsOthers errors bound (by dsimp only; omega)
  simp only [argumentsFrom, within, if_false]
  apply (bind_of_ok _ result).trans
  apply (bind_of_ok _ (accept_of_eq (by decide) isComma rest errors id)).trans
  exact bind_of_ok _ resultOthers

end Parser

namespace Grammar

open LoxLang.Parser

mutual

theorem Expression.runs {form : Form} {before after : Cursor} {tree : Expr} :
    Expression form before tree after → FormRuns form before tree after
  | .assign isName isEqual value => .assign isName isEqual value.runs
  | .set object isDot isName isEqual value =>
      .set object.begins object.runs isDot isName isEqual value.runs
  | .operation tree => .operation tree.runs
  | .binary left operator right => .binary left.runs operator right.begins right.runs
  | .tighter tree => .tighter tree.begins tree.runs
  | .tightest tree => fun ends => (tree.runs ends).level ⟨ends, by simp⟩
  | .signed sign operand => .signed sign operand.runs
  | .unsigned tree => Runs.unary tree.runs tree.begins
  | .callNone callee isOpen isClosed => ComesTo.callNone callee.runs isOpen isClosed
  | .call callee isOpen arguments few isClosed =>
      ComesTo.call callee.runs isOpen (arguments.runs isClosed 0 (by omega)) arguments.begins
        isClosed
  | .get object isDot isName => ComesTo.get object.runs isDot isName
  | .callee tree => .callee tree.begins tree.runs
  | .literal constant => .literal constant
  | .read isName => .read isName
  | .self isThis => .self isThis
  | .superMethod isSuper isDot isName => .superMethod isSuper isDot isName
  | .group isOpen inner isClosed => .group isOpen inner.runs isClosed

theorem Arguments.runs {before after : Cursor} {trees : List Expr} :
    Arguments before trees after → ahead after.tokens = .rightParen →
      ∀ count, count + trees.length ≤ 255 → Runs (argumentsFrom · count) 11 before trees after
  | .last tree, isClosed, count, few => Runs.lastArgument tree.runs isClosed few
  | .more first isComma others, isClosed, count, few => by
      rw [List.length_cons] at few
      exact Runs.moreArguments first.begins first.runs isComma
        (others.runs isClosed (count + 1) (by omega)) (by omega)

end

theorem ExpressionStatement.runs {before after : Cursor} {tree : Stmt}
    (derived : ExpressionStatement before tree after) :
    Runs expressionStatement 10 before tree after := by
  cases derived with
  | @intro value semicolon rest id echo expression isSemicolon isEcho =>
      intro errors bound room
      have ends : EndsExpression (ahead (semicolon :: rest)) := by
        rw [ahead_cons, isSemicolon]
        exact endsExpression_semicolon
      obtain rfl : echo = !value.isAssignment := by
        rw [assigns_iff] at isEcho
        cases echo <;> simp_all
      apply (bind_of_ok _ (expression.runs ends errors bound room)).trans
      exact bind_of_ok _ (expect_of_eq (by decide) isSemicolon _ rest errors id)

theorem VariableDeclaration.runs {before after : Cursor} {tree : Stmt}
    (derived : VariableDeclaration before tree after) :
    Runs variableDeclaration 0 before tree after := by
  intro errors bound room
  cases derived with
  | @plain name semicolon rest id isName isSemicolon =>
      have notEqual : ahead (semicolon :: rest) ≠ .equal := by
        rw [ahead_cons, isSemicolon]
        decide
      simp only [variableDeclaration, stateAt]
      rw [bind_of_ok _ (expectName_of_eq isName _ _ errors id),
        bind_of_ok _ (accept_of_ne (by decide) notEqual errors id)]
      exact bind_of_ok _ (expect_of_eq (by decide) isSemicolon _ rest errors id)
  | @initialized name equal semicolon inside rest id last value isName isEqual expression
      isSemicolon =>
      have ends : EndsExpression (ahead (semicolon :: rest)) := by
        rw [ahead_cons, isSemicolon]
        exact endsExpression_semicolon
      simp only [List.length_cons] at room
      have result := expression.runs ends errors bound (by dsimp only; omega)
      simp only [variableDeclaration, stateAt]
      rw [bind_of_ok _ (expectName_of_eq isName _ _ errors id),
        bind_of_ok _ (accept_of_eq (by decide) isEqual _ errors id)]
      simp only [Option.isSome_some, if_true, bind_map_left]
      apply (bind_of_ok _ result).trans
      exact bind_of_ok _ (expect_of_eq (by decide) isSemicolon _ rest errors last)

theorem Initializer.runs {before after : Cursor} {tree : Option Stmt}
    (derived : Initializer before tree after) : Runs forInitializer 10 before tree after := by
  intro errors bound room
  cases derived with
  | @none semicolon rest id isSemicolon =>
      exact bind_of_ok _ (accept_of_eq (by decide) isSemicolon rest errors id)
  | @declaration word rest id tree _ isVar declaration =>
      have notSemicolon : ahead (word :: rest) ≠ .semicolon := by
        rw [ahead_cons, isVar]
        decide
      simp only [List.length_cons] at room
      have result := declaration.runs errors bound (by dsimp only; omega)
      simp only [forInitializer, stateAt]
      rw [bind_of_ok _ (accept_of_ne (by decide) notSemicolon errors id)]
      simp only [Option.isSome_none, Bool.false_eq_true, if_false]
      rw [bind_of_ok _ (accept_of_eq (by decide) isVar rest errors id)]
      exact bind_of_ok _ result
  | expression expression =>
      have notSemicolon : ahead before.tokens ≠ .semicolon :=
        ahead_ne_of_begins expression.begins rfl
      have notVar : ahead before.tokens ≠ .varWord := ahead_ne_of_begins expression.begins rfl
      have result := expression.runs errors bound room
      simp only [forInitializer, stateAt]
      rw [bind_of_ok _ (accept_of_ne (by decide) notSemicolon errors before.nextId)]
      simp only [Option.isSome_none, Bool.false_eq_true, if_false]
      rw [bind_of_ok _ (accept_of_ne (by decide) notVar errors before.nextId)]
      exact bind_of_ok _ result

theorem Optional.runs {before after : Cursor} {tree : Option Expr}
    (derived : Optional before tree after) (stop : Token.Kind) (isStop : ahead after.tokens = stop)
    (real : stop ≠ .eof) (ends : EndsExpression stop) (other : startsExpression stop = false) :
    Runs (optionalExpression · stop) 10 before tree after := by
  intro errors bound room
  cases derived with
  | none =>
      simp only [optionalExpression]
      apply (bind_of_ok _ (check_apply real _)).trans
      simp only [stateAt, isStop, decide_true, if_true]
      rfl
  | some expression =>
      have goesOn := ahead_ne_of_begins expression.begins other
      have result := expression.runs (by rw [isStop]; exact ends) errors bound room
      simp only [optionalExpression]
      apply (bind_of_ok _ (check_apply real _)).trans
      simp only [stateAt, goesOn, decide_false, Bool.false_eq_true, if_false]
      exact bind_of_ok _ result

theorem Parameters.runs {before after : List Token} {names : List Name}
    (derived : Parameters before names after) (isClosed : ahead after = .rightParen)
    (id : RefId) : ∀ count, count + names.length ≤ 255 →
      Runs (parametersFrom · count) 1 ⟨before, id⟩ names ⟨after, id⟩ := by
  induction derived with
  | @last name rest isName =>
      intro count few errors bound room
      obtain ⟨bound, rfl⟩ := Nat.exists_eq_add_of_le' (Nat.le_trans (Nat.le_add_left 1 _) room)
      have within : ¬ maxArguments ≤ count := Nat.not_le_of_lt few
      have notComma : ahead rest ≠ .comma := by
        rw [isClosed]
        decide
      simp only [parametersFrom, within, if_false, stateAt]
      rw [bind_of_ok _ (expectName_of_eq isName _ rest errors id)]
      exact bind_of_ok _ (accept_of_ne (by decide) notComma errors id)
  | @more name comma rest after others isName isComma _ inductionHypothesis =>
      intro count few errors bound room
      obtain ⟨bound, rfl⟩ := Nat.exists_eq_add_of_le' (Nat.le_trans (Nat.le_add_left 1 _) room)
      simp only [List.length_cons] at few room
      have within : ¬ maxArguments ≤ count := by
        simp only [maxArguments]
        omega
      have result := inductionHypothesis isClosed (count + 1) (by omega) errors bound
        (by dsimp only; omega)
      simp only [parametersFrom, within, if_false, stateAt]
      rw [bind_of_ok _ (expectName_of_eq isName _ _ errors id),
        bind_of_ok _ (accept_of_eq (by decide) isComma rest errors id)]
      exact bind_of_ok _ result

end Grammar

namespace Parser

theorem endsExpression_of_semicolon {token : Token} (isSemicolon : token.kind = .semicolon)
    (rest : List Token) : EndsExpression (ahead (token :: rest)) := by
  rw [ahead_cons, isSemicolon]
  exact endsExpression_semicolon

theorem endsExpression_of_rightParen {token : Token} (isClosed : token.kind = .rightParen)
    (rest : List Token) : EndsExpression (ahead (token :: rest)) := by
  rw [ahead_cons, isClosed]
  exact endsExpression_rightParen

namespace Runs

/-- A statement that is an expression. -/
theorem plainStatement {before after : Cursor} {tree : Stmt}
    (begins : Begins startsExpression before after)
    (runs : Runs expressionStatement 10 before tree after) :
    Runs statement 11 before tree after := by
  intro errors bound room
  obtain ⟨bound, rfl⟩ := Nat.exists_eq_add_of_le' (Nat.le_trans (Nat.le_add_left 1 _) room)
  obtain ⟨token, rest, tokens, starts, -⟩ := begins
  have chosen : Parser.statement (bound + 1) (stateAt before errors) =
      expressionStatement bound (stateAt before errors) := by
    obtain ⟨tokens, id⟩ := before
    subst tokens
    simp only [Parser.statement, stateAt]
    apply peek_of_eq
    split
    · next isFor => rw [isFor] at starts; cases starts
    · next isIf => rw [isIf] at starts; cases starts
    · next isPrint => rw [isPrint] at starts; cases starts
    · next isReturn => rw [isReturn] at starts; cases starts
    · next isWhile => rw [isWhile] at starts; cases starts
    · next isBrace => rw [isBrace] at starts; cases starts
    · rfl
  rw [chosen]
  exact runs errors bound (by omega)

theorem print {word semicolon : Token} {inside rest : List Token} {id last : RefId}
    {value : Expr} (isPrint : word.kind = .printWord)
    (runs : Runs expression 10 ⟨inside, id⟩ value ⟨semicolon :: rest, last⟩)
    (isSemicolon : semicolon.kind = .semicolon) :
    Runs statement 11 ⟨word :: inside, id⟩ (.print value) ⟨rest, last⟩ := by
  intro errors bound room
  obtain ⟨bound, rfl⟩ := Nat.exists_eq_add_of_le' (Nat.le_trans (Nat.le_add_left 1 _) room)
  simp only [List.length_cons] at room
  have result := runs errors bound (by dsimp only; omega)
  simp only [Parser.statement, stateAt]
  rw [peek_skip _ _ (by simp only [isPrint]; rfl)]
  apply (bind_of_ok _ result).trans
  exact bind_of_ok _ (expect_of_eq (by decide) isSemicolon _ rest errors last)

theorem leave {word semicolon : Token} {inside rest : List Token} {id last : RefId}
    {value : Option Expr} (isReturn : word.kind = .returnWord)
    (runs : Runs (optionalExpression · .semicolon) 10 ⟨inside, id⟩ value ⟨semicolon :: rest, last⟩)
    (isSemicolon : semicolon.kind = .semicolon) :
    Runs statement 11 ⟨word :: inside, id⟩ (.leave word.line value) ⟨rest, last⟩ := by
  intro errors bound room
  obtain ⟨bound, rfl⟩ := Nat.exists_eq_add_of_le' (Nat.le_trans (Nat.le_add_left 1 _) room)
  simp only [List.length_cons] at room
  have result := runs errors bound (by dsimp only; omega)
  simp only [Parser.statement, stateAt]
  rw [peek_skip _ _ (by simp only [isReturn]; rfl)]
  apply (bind_of_ok _ result).trans
  exact bind_of_ok _ (expect_of_eq (by decide) isSemicolon _ rest errors last)

/-- Statements up to a closing brace, and the brace. -/
theorem blockBody {closes : Token} {inside rest : List Token} {id last : RefId}
    {body : List Stmt}
    (runs : Runs statementsFrom 14 ⟨inside, id⟩ body ⟨closes :: rest, last⟩)
    (isClosed : closes.kind = .rightBrace) :
    Runs Parser.blockBody 15 ⟨inside, id⟩ body ⟨rest, last⟩ := by
  intro errors bound room
  obtain ⟨bound, rfl⟩ := Nat.exists_eq_add_of_le' (Nat.le_trans (Nat.le_add_left 1 _) room)
  have result := runs errors bound (by omega)
  simp only [Parser.blockBody]
  apply (bind_of_ok _ result).trans
  exact bind_of_ok _ (expect_of_eq (by decide) isClosed _ rest errors last)

theorem block {opens : Token} {inside : List Token} {id : RefId} {body : List Stmt}
    {after : Cursor} (isOpen : opens.kind = .leftBrace)
    (runs : Runs Parser.blockBody 15 ⟨inside, id⟩ body after) :
    Runs statement 11 ⟨opens :: inside, id⟩ (.block body) after := by
  intro errors bound room
  obtain ⟨bound, rfl⟩ := Nat.exists_eq_add_of_le' (Nat.le_trans (Nat.le_add_left 1 _) room)
  simp only [List.length_cons] at room
  have result := runs errors bound (by dsimp only; omega)
  simp only [Parser.statement, stateAt]
  rw [peek_skip _ _ (by simp only [isOpen]; rfl)]
  exact bind_of_ok _ result

theorem whileLoop {word opens closes : Token} {inside rest : List Token} {id last : RefId}
    {condition : Expr} {body : Stmt} {after : Cursor} (isWhile : word.kind = .whileWord)
    (isOpen : opens.kind = .leftParen)
    (derived : Expression .assignment ⟨inside, id⟩ condition ⟨closes :: rest, last⟩)
    (isClosed : closes.kind = .rightParen) (runs : Runs statement 11 ⟨rest, last⟩ body after) :
    Runs statement 11 ⟨word :: opens :: inside, id⟩ (.loop condition body) after := by
  intro errors bound room
  obtain ⟨bound, rfl⟩ := Nat.exists_eq_add_of_le' (Nat.le_trans (Nat.le_add_left 1 _) room)
  have shorter := derived.begins.length_lt
  simp only [List.length_cons] at room shorter
  have first := derived.runs (endsExpression_of_rightParen isClosed rest) errors bound
    (by dsimp only; omega)
  have second := runs errors bound (by dsimp only; omega)
  simp only [Parser.statement, stateAt]
  rw [peek_skip _ _ (by simp only [isWhile]; rfl),
    bind_of_ok _ (expect_of_eq (by decide) isOpen _ inside errors id)]
  apply (bind_of_ok _ first).trans
  apply (bind_of_ok _ (expect_of_eq (by decide) isClosed _ rest errors last)).trans
  exact bind_of_ok _ second

theorem ifThen {word opens closes : Token} {inside rest : List Token} {id last : RefId}
    {condition : Expr} {consequence : Stmt} {after : Cursor} (isIf : word.kind = .ifWord)
    (isOpen : opens.kind = .leftParen)
    (derived : Expression .assignment ⟨inside, id⟩ condition ⟨closes :: rest, last⟩)
    (isClosed : closes.kind = .rightParen)
    (runs : Runs statement 11 ⟨rest, last⟩ consequence after)
    (noElse : ahead after.tokens ≠ .elseWord) :
    Runs statement 11 ⟨word :: opens :: inside, id⟩ (.branch condition consequence none)
      after := by
  intro errors bound room
  obtain ⟨bound, rfl⟩ := Nat.exists_eq_add_of_le' (Nat.le_trans (Nat.le_add_left 1 _) room)
  have shorter := derived.begins.length_lt
  simp only [List.length_cons] at room shorter
  have first := derived.runs (endsExpression_of_rightParen isClosed rest) errors bound
    (by dsimp only; omega)
  have second := runs errors bound (by dsimp only; omega)
  simp only [Parser.statement, stateAt]
  rw [peek_skip _ _ (by simp only [isIf]; rfl),
    bind_of_ok _ (expect_of_eq (by decide) isOpen _ inside errors id)]
  apply (bind_of_ok _ first).trans
  apply (bind_of_ok _ (expect_of_eq (by decide) isClosed _ rest errors last)).trans
  apply (bind_of_ok _ second).trans
  exact bind_of_ok _ (accept_of_ne (by decide) noElse errors after.nextId)

theorem ifElse {word opens closes other : Token} {inside rest left : List Token}
    {id last middle : RefId} {condition : Expr} {consequence alternative : Stmt} {after : Cursor}
    (isIf : word.kind = .ifWord) (isOpen : opens.kind = .leftParen)
    (derived : Expression .assignment ⟨inside, id⟩ condition ⟨closes :: rest, last⟩)
    (isClosed : closes.kind = .rightParen)
    (runs : Runs statement 11 ⟨rest, last⟩ consequence ⟨other :: left, middle⟩)
    (shorterThen : left.length < rest.length) (isElse : other.kind = .elseWord)
    (runsElse : Runs statement 11 ⟨left, middle⟩ alternative after) :
    Runs statement 11 ⟨word :: opens :: inside, id⟩
      (.branch condition consequence (some alternative)) after := by
  intro errors bound room
  obtain ⟨bound, rfl⟩ := Nat.exists_eq_add_of_le' (Nat.le_trans (Nat.le_add_left 1 _) room)
  have shorter := derived.begins.length_lt
  simp only [List.length_cons] at room shorter
  have first := derived.runs (endsExpression_of_rightParen isClosed rest) errors bound
    (by dsimp only; omega)
  have second := runs errors bound (by dsimp only; omega)
  have third := runsElse errors bound (by dsimp only; omega)
  simp only [Parser.statement, stateAt]
  rw [peek_skip _ _ (by simp only [isIf]; rfl),
    bind_of_ok _ (expect_of_eq (by decide) isOpen _ inside errors id)]
  apply (bind_of_ok _ first).trans
  apply (bind_of_ok _ (expect_of_eq (by decide) isClosed _ rest errors last)).trans
  apply (bind_of_ok _ second).trans
  apply (bind_of_ok _ (accept_of_eq (by decide) isElse left errors middle)).trans
  simp only [Option.isSome_some, if_true, bind_map_left]
  exact bind_of_ok _ third

theorem forLoop {word opens semicolon closes : Token} {inside middle rest : List Token}
    {id second third : RefId} {clauses after : Cursor} {initial : Option Stmt}
    {condition increment : Option Expr} {body : Stmt} (isFor : word.kind = .forWord)
    (isOpen : opens.kind = .leftParen) (first : Initializer ⟨inside, id⟩ initial clauses)
    (holds : Optional clauses condition ⟨semicolon :: middle, second⟩)
    (isSemicolon : semicolon.kind = .semicolon)
    (steps : Optional ⟨middle, second⟩ increment ⟨closes :: rest, third⟩)
    (isClosed : closes.kind = .rightParen) (runs : Runs statement 11 ⟨rest, third⟩ body after) :
    Runs statement 11 ⟨word :: opens :: inside, id⟩ (forTree initial condition increment body)
      after := by
  intro errors bound room
  obtain ⟨bound, rfl⟩ := Nat.exists_eq_add_of_le' (Nat.le_trans (Nat.le_add_left 2 _)
    (Nat.le_trans (Nat.add_le_add_left (by decide : 2 ≤ 11) _) room))
  have shorterFirst := first.length_lt
  have shorterSecond := holds.length_le
  have shorterThird := steps.length_le
  simp only [List.length_cons] at room shorterFirst shorterSecond shorterThird
  have initialRuns := first.runs errors bound (by dsimp only; omega)
  have conditionRuns := holds.runs .semicolon isSemicolon (by decide)
    endsExpression_semicolon rfl errors bound (by omega)
  have incrementRuns := steps.runs .rightParen isClosed (by decide)
    endsExpression_rightParen rfl errors bound (by dsimp only; omega)
  have bodyRuns := runs errors bound (by dsimp only; omega)
  simp only [Parser.statement, stateAt]
  rw [peek_skip _ _ (by simp only [isFor]; rfl)]
  simp only [Parser.forStatement]
  rw [bind_of_ok _ (expect_of_eq (by decide) isOpen _ inside errors id)]
  apply (bind_of_ok _ initialRuns).trans
  apply (bind_of_ok _ conditionRuns).trans
  apply (bind_of_ok _ (expect_of_eq (by decide) isSemicolon _ middle errors second)).trans
  apply (bind_of_ok _ incrementRuns).trans
  apply (bind_of_ok _ (expect_of_eq (by decide) isClosed _ rest errors third)).trans
  rw [← lowerFor_eq]
  exact bind_of_ok _ bodyRuns

/-- A declaration that is a statement. -/
theorem plainDeclaration {before after : Cursor} {tree : Stmt}
    (begins : Begins Grammar.startsStatement before after)
    (runs : Runs statement 11 before tree after) : Runs declaration 12 before tree after := by
  intro errors bound room
  obtain ⟨bound, rfl⟩ := Nat.exists_eq_add_of_le' (Nat.le_trans (Nat.le_add_left 1 _) room)
  have notClass : ahead before.tokens ≠ .classWord := ahead_ne_of_begins begins rfl
  have notFun : ahead before.tokens ≠ .funWord := ahead_ne_of_begins begins rfl
  have notVar : ahead before.tokens ≠ .varWord := ahead_ne_of_begins begins rfl
  simp only [Parser.declaration]
  apply (bind_of_ok _ (accept_of_ne (by decide) notClass errors before.nextId)).trans
  simp only [Option.isSome_none, Bool.false_eq_true, if_false]
  apply (bind_of_ok _ (accept_of_ne (by decide) notFun errors before.nextId)).trans
  simp only [Option.isSome_none, Bool.false_eq_true, if_false]
  apply (bind_of_ok _ (accept_of_ne (by decide) notVar errors before.nextId)).trans
  exact runs errors bound (by omega)

theorem declare {word : Token} {rest : List Token} {id : RefId} {tree : Stmt} {after : Cursor}
    (isVar : word.kind = .varWord) (runs : Runs variableDeclaration 0 ⟨rest, id⟩ tree after) :
    Runs declaration 12 ⟨word :: rest, id⟩ tree after := by
  intro errors bound room
  obtain ⟨bound, rfl⟩ := Nat.exists_eq_add_of_le' (Nat.le_trans (Nat.le_add_left 1 _) room)
  have notClass : ahead (word :: rest) ≠ .classWord := by rw [ahead_cons, isVar]; decide
  have notFun : ahead (word :: rest) ≠ .funWord := by rw [ahead_cons, isVar]; decide
  simp only [List.length_cons] at room
  simp only [Parser.declaration]
  apply (bind_of_ok _ (accept_of_ne (by decide) notClass errors id)).trans
  simp only [Option.isSome_none, Bool.false_eq_true, if_false]
  apply (bind_of_ok _ (accept_of_ne (by decide) notFun errors id)).trans
  simp only [Option.isSome_none, Bool.false_eq_true, if_false]
  apply (bind_of_ok _ (accept_of_eq (by decide) isVar rest errors id)).trans
  exact runs errors bound (by dsimp only; omega)

theorem functionDeclaration {word : Token} {rest : List Token} {id : RefId} {tree : Function}
    {after : Cursor} (isFun : word.kind = .funWord)
    (runs : Runs (function · .function) 1 ⟨rest, id⟩ tree after) :
    Runs declaration 12 ⟨word :: rest, id⟩ (.function tree) after := by
  intro errors bound room
  obtain ⟨bound, rfl⟩ := Nat.exists_eq_add_of_le' (Nat.le_trans (Nat.le_add_left 1 _) room)
  have notClass : ahead (word :: rest) ≠ .classWord := by rw [ahead_cons, isFun]; decide
  simp only [List.length_cons] at room
  have result := runs errors bound (by dsimp only; omega)
  simp only [Parser.declaration]
  apply (bind_of_ok _ (accept_of_ne (by decide) notClass errors id)).trans
  simp only [Option.isSome_none, Bool.false_eq_true, if_false]
  apply (bind_of_ok _ (accept_of_eq (by decide) isFun rest errors id)).trans
  exact bind_of_ok _ result

theorem classDecl {word name opens closes : Token} {inside body rest : List Token}
    {id second last : RefId} {superclass : Option (RefId × Name)} {methods : List Function}
    (isClass : word.kind = .classWord) (isName : name.kind = .identifier)
    (inherits : Superclass ⟨inside, id⟩ superclass ⟨opens :: body, second⟩)
    (isOpen : opens.kind = .leftBrace)
    (runs : Runs methodsFrom 2 ⟨body, second⟩ methods ⟨closes :: rest, last⟩)
    (isClosed : closes.kind = .rightBrace) :
    Runs declaration 12 ⟨word :: name :: inside, id⟩
      (.classDecl (nameOf name) superclass methods) ⟨rest, last⟩ := by
  intro errors bound room
  obtain ⟨bound, rfl⟩ := Nat.exists_eq_add_of_le' (Nat.le_trans (Nat.le_add_left 2 _)
    (Nat.le_trans (Nat.add_le_add_left (by decide : 2 ≤ 12) _) room))
  have shorter := inherits.length_le
  simp only [List.length_cons] at room shorter
  have result := runs errors bound (by dsimp only; omega)
  simp only [Parser.declaration]
  apply (bind_of_ok _ (accept_of_eq (by decide) isClass _ errors id)).trans
  simp only [Parser.classDeclaration, Option.isSome_some, if_true]
  rw [bind_of_ok _ (expectName_of_eq isName _ inside errors id)]
  have finish : (do
      let _ ← expect .leftBrace (.expectedOpenBrace .classBody)
      let methods ← methodsFrom bound
      let _ ← expect .rightBrace (.expectedCloseBrace .classBody)
      return .classDecl (nameOf name) superclass methods : Parse Stmt)
      ⟨opens :: body, errors, second⟩ =
        .ok (.classDecl (nameOf name) superclass methods) ⟨rest, errors, last⟩ := by
    rw [bind_of_ok _ (expect_of_eq (by decide) isOpen _ body errors second)]
    apply (bind_of_ok _ result).trans
    exact bind_of_ok _ (expect_of_eq (by decide) isClosed _ rest errors last)
  cases inherits with
  | none =>
      have notLess : ahead (opens :: body) ≠ .less := by rw [ahead_cons, isOpen]; decide
      rw [bind_of_ok _ (accept_of_ne (by decide) notLess errors id)]
      exact finish
  | @some less parent _ _ isLess isParent =>
      rw [bind_of_ok _ (accept_of_eq (by decide) isLess _ errors id)]
      simp only [Option.isSome_some, if_true, pure_bind]
      rw [bind_of_ok _ (expectName_of_eq isParent _ _ errors id)]
      exact finish

theorem callable {form : Diagnostic.Callable} {name opens brace : Token}
    {inside body : List Token} {id : RefId} {parameters : List Name} {statements : List Stmt}
    {after : Cursor} (isName : name.kind = .identifier) (isOpen : opens.kind = .leftParen)
    (derived : ParameterList inside parameters (brace :: body)) (isBrace : brace.kind = .leftBrace)
    (runs : Runs Parser.blockBody 15 ⟨body, id⟩ statements after) :
    Runs (function · form) 1 ⟨name :: opens :: inside, id⟩
      (.mk (nameOf name) parameters statements) after := by
  intro errors bound room
  obtain ⟨bound, rfl⟩ := Nat.exists_eq_add_of_le' (Nat.le_trans (Nat.le_add_left 1 _) room)
  have shorter := derived.length_lt
  simp only [List.length_cons] at room shorter
  have result := runs errors bound (by dsimp only; omega)
  have finish : ∀ {closes : Token}, closes.kind = .rightParen → (do
      let _ ← expect .rightParen (.expectedCloseParen .parameters)
      let _ ← expect .leftBrace (.expectedOpenBrace (.callable form))
      let body ← Parser.blockBody bound
      return .mk (nameOf name) parameters body : Parse Function)
      ⟨closes :: brace :: body, errors, id⟩ =
        .ok (.mk (nameOf name) parameters statements) (stateAt after errors) := by
    intro closes isClosed
    rw [bind_of_ok _ (expect_of_eq (by decide) isClosed _ _ errors id),
      bind_of_ok _ (expect_of_eq (by decide) isBrace _ body errors id)]
    exact bind_of_ok _ result
  simp only [Parser.function, stateAt]
  rw [bind_of_ok _ (expectName_of_eq isName _ _ errors id),
    bind_of_ok _ (expect_of_eq (by decide) isOpen _ inside errors id),
    bind_of_ok _ (check_apply (by decide) _)]
  cases derived with
  | @none closes _ isClosed =>
      simp only [ahead_cons, isClosed, decide_true, if_true, pure_bind]
      exact finish isClosed
  | @some _ _ _ closes names few isClosed =>
      have notClosed : ahead inside ≠ .rightParen := by
        cases names with
        | last isName => rw [ahead_cons, isName]; decide
        | more isName _ _ => rw [ahead_cons, isName]; decide
      have parametersRun := names.runs isClosed id 0 (by omega) errors bound
        (by dsimp only; omega)
      simp only [notClosed, decide_false, Bool.false_eq_true, if_false]
      apply (bind_of_ok _ parametersRun).trans
      exact finish isClosed

theorem noMethods {cursor : Cursor} (isClosed : ahead cursor.tokens = .rightBrace) :
    Runs methodsFrom 2 cursor [] cursor := by
  intro errors bound room
  obtain ⟨bound, rfl⟩ := Nat.exists_eq_add_of_le' (Nat.le_trans (Nat.le_add_left 1 _) room)
  simp only [methodsFrom]
  apply (bind_of_ok _ (check_apply (by decide) _)).trans
  simp only [stateAt, isClosed, decide_true, Bool.true_or]
  rfl

theorem moreMethods {before middle after : Cursor} {first : Function} {rest : List Function}
    (isName : ahead before.tokens = .identifier)
    (shorter : middle.tokens.length < before.tokens.length)
    (runs : Runs (function · .method) 1 before first middle)
    (runsRest : Runs methodsFrom 2 middle rest after) :
    Runs methodsFrom 2 before (first :: rest) after := by
  intro errors bound room
  obtain ⟨bound, rfl⟩ := Nat.exists_eq_add_of_le' (Nat.le_trans (Nat.le_add_left 1 _) room)
  have result := runs errors bound (by omega)
  have resultRest := runsRest errors bound (by omega)
  simp only [methodsFrom]
  apply (bind_of_ok _ (check_apply (by decide) _)).trans
  apply (bind_of_ok _ (atEnd_apply _)).trans
  simp only [stateAt, isName]
  apply (bind_of_ok _ result).trans
  exact bind_of_ok _ resultRest

/-- A declaration is read without recovery. -/
theorem recovering {before after : Cursor} {tree : Stmt}
    (runs : Runs declaration 12 before tree after) :
    Runs Parser.recovering 13 before (some tree) after := by
  intro errors bound room
  obtain ⟨bound, rfl⟩ := Nat.exists_eq_add_of_le' (Nat.le_trans (Nat.le_add_left 1 _) room)
  simp only [Parser.recovering, runs errors bound (by omega)]

theorem noStatements {cursor : Cursor} (isClosed : ahead cursor.tokens = .rightBrace) :
    Runs statementsFrom 14 cursor [] cursor := by
  intro errors bound room
  obtain ⟨bound, rfl⟩ := Nat.exists_eq_add_of_le' (Nat.le_trans (Nat.le_add_left 1 _) room)
  simp only [statementsFrom]
  apply (bind_of_ok _ (check_apply (by decide) _)).trans
  simp only [stateAt, isClosed, decide_true, Bool.true_or]
  rfl

theorem moreStatements {before middle after : Cursor} {first : Stmt} {rest : List Stmt}
    (begins : Begins startsDeclaration before middle)
    (runs : Runs declaration 12 before first middle)
    (runsRest : Runs statementsFrom 14 middle rest after) :
    Runs statementsFrom 14 before (first :: rest) after := by
  intro errors bound room
  obtain ⟨bound, rfl⟩ := Nat.exists_eq_add_of_le' (Nat.le_trans (Nat.le_add_left 1 _) room)
  have shorter := begins.length_lt
  have notClosed : ahead before.tokens ≠ .rightBrace := ahead_ne_of_begins begins rfl
  have notEnd : ahead before.tokens ≠ .eof := ahead_ne_of_begins begins rfl
  have result := runs.recovering errors bound (by omega)
  have resultRest := runsRest errors bound (by omega)
  simp only [statementsFrom]
  apply (bind_of_ok _ (check_apply (by decide) _)).trans
  apply (bind_of_ok _ (atEnd_apply _)).trans
  simp only [stateAt, notClosed, notEnd, decide_false, Bool.or_false, Bool.false_eq_true, if_false]
  apply (bind_of_ok _ result).trans
  exact bind_of_ok _ resultRest

theorem noProgram {cursor : Cursor} (isEnd : ahead cursor.tokens = .eof) :
    Runs programFrom 14 cursor [] cursor := by
  intro errors bound room
  obtain ⟨bound, rfl⟩ := Nat.exists_eq_add_of_le' (Nat.le_trans (Nat.le_add_left 1 _) room)
  simp only [programFrom]
  apply (bind_of_ok _ (atEnd_apply _)).trans
  simp only [stateAt, isEnd, decide_true, if_true]
  rfl

theorem moreProgram {before middle after : Cursor} {first : Stmt} {rest : List Stmt}
    (begins : Begins startsDeclaration before middle)
    (runs : Runs declaration 12 before first middle)
    (runsRest : Runs programFrom 14 middle rest after) :
    Runs programFrom 14 before (first :: rest) after := by
  intro errors bound room
  obtain ⟨bound, rfl⟩ := Nat.exists_eq_add_of_le' (Nat.le_trans (Nat.le_add_left 1 _) room)
  have shorter := begins.length_lt
  have notEnd : ahead before.tokens ≠ .eof := ahead_ne_of_begins begins rfl
  have result := runs.recovering errors bound (by omega)
  have resultRest := runsRest errors bound (by omega)
  simp only [programFrom]
  apply (bind_of_ok _ (atEnd_apply _)).trans
  simp only [stateAt, notEnd, decide_false, Bool.false_eq_true, if_false]
  apply (bind_of_ok _ result).trans
  exact bind_of_ok _ resultRest

end Runs

end Parser

namespace Grammar

open LoxLang.Parser

/-- No `else` stands between declarations. -/
theorem Declarations.ahead_ne_elseWord {nearest : Bool} {before after : Cursor}
    {trees : List Stmt} (derived : Declarations nearest before trees after)
    (noElse : ahead after.tokens ≠ .elseWord) : ahead before.tokens ≠ .elseWord := by
  cases derived with
  | nil => exact noElse
  | cons first _ => exact ahead_ne_of_begins first.begins rfl

theorem Callable.ahead_eq {nearest : Bool} {before after : Cursor} {tree : Function}
    (derived : Callable nearest before tree after) : ahead before.tokens = .identifier := by
  cases derived with
  | intro isName _ _ _ _ _ => exact isName

mutual

theorem Statement.runs {dangling : Bool} {before after : Cursor} {tree : Stmt} :
    Statement true dangling before tree after →
      (dangling = true → ahead after.tokens ≠ .elseWord) → Runs statement 11 before tree after
  | .expression tree, _ => .plainStatement tree.begins tree.runs
  | .print isPrint value isSemicolon, _ =>
      .print isPrint (value.runs (endsExpression_of_semicolon isSemicolon _)) isSemicolon
  | .leave isReturn value isSemicolon, _ =>
      .leave isReturn (value.runs .semicolon isSemicolon (by decide) endsExpression_semicolon rfl)
        isSemicolon
  | .block isOpen body isClosed, _ =>
      .block isOpen (.blockBody (body.runs isClosed) isClosed)
  | .ifThen isIf isOpen condition isClosed consequence, noElse =>
      .ifThen isIf isOpen condition isClosed (consequence.runs fun _ => noElse rfl) (noElse rfl)
  | .ifElse isIf isOpen condition isClosed consequence closed isElse alternative, noElse => by
      have shorter := consequence.begins.length_lt
      apply Runs.ifElse isIf isOpen condition isClosed _ (Nat.lt_of_succ_lt shorter) isElse
        (alternative.runs noElse)
      apply consequence.runs
      intro isDangling
      rw [closed rfl] at isDangling
      cases isDangling
  | .whileLoop isWhile isOpen condition isClosed body, noElse =>
      .whileLoop isWhile isOpen condition isClosed (body.runs noElse)
  | .forLoop isFor isOpen initial condition isSemicolon increment isClosed body lowered, noElse => by
      rw [lowered]
      exact .forLoop isFor isOpen initial condition isSemicolon increment isClosed
        (body.runs noElse)

theorem Declaration.runs {before after : Cursor} {tree : Stmt} :
    Declaration true before tree after → ahead after.tokens ≠ .elseWord →
      Runs declaration 12 before tree after
  | .classDecl isClass isName inherits isOpen methods isClosed, _ =>
      .classDecl isClass isName inherits isOpen (methods.runs isClosed) isClosed
  | .function isFun tree, _ => .functionDeclaration isFun (tree.runs .function)
  | .declare isVar tree, _ => .declare isVar tree.runs
  | .statement tree, noElse => .plainDeclaration tree.begins (tree.runs fun _ => noElse)

theorem Declarations.runs {before after : Cursor} {trees : List Stmt} :
    Declarations true before trees after → ahead after.tokens = .rightBrace →
      Runs statementsFrom 14 before trees after
  | .nil, isClosed => .noStatements isClosed
  | .cons first rest, isClosed => by
      have noElse := rest.ahead_ne_elseWord (by rw [isClosed]; decide)
      exact .moreStatements first.begins (first.runs noElse) (rest.runs isClosed)

theorem Callable.runs {before after : Cursor} {tree : Function} :
    Callable true before tree after → ∀ form, Runs (function · form) 1 before tree after
  | .intro isName isOpen parameters isBrace body isClosed, _ =>
      .callable isName isOpen parameters isBrace (.blockBody (body.runs isClosed) isClosed)

theorem Methods.runs {before after : Cursor} {trees : List Function} :
    Methods true before trees after → ahead after.tokens = .rightBrace →
      Runs methodsFrom 2 before trees after
  | .nil, isClosed => .noMethods isClosed
  | .cons first rest, isClosed =>
      .moreMethods first.ahead_eq first.length_lt (first.runs .method) (rest.runs isClosed)

end

/-- A program is parsed up to the end of its source. -/
theorem Declarations.runs_program {before after : Cursor} {trees : List Stmt} :
    Declarations true before trees after → ahead after.tokens = .eof →
      Runs programFrom 14 before trees after
  | .nil, isEnd => .noProgram isEnd
  | .cons first rest, isEnd => by
      have noElse := rest.ahead_ne_elseWord (by rw [isEnd]; decide)
      exact .moreProgram first.begins (first.runs noElse) (rest.runs_program isEnd)

/-- A program: declarations and statements up to the token that ends the
source. -/
def Program (nearest : Bool) (tokens : List Token) (nextId : RefId) (trees : List Stmt) : Prop :=
  ∃ last id, last.kind = .eof ∧ Declarations nearest ⟨tokens, nextId⟩ trees ⟨[last], id⟩

/-- Exactly the last token ends the source. -/
def EndsOnce (tokens : List Token) : Prop :=
  ∃ body last, tokens = body ++ [last] ∧ last.kind = .eof ∧ ∀ token ∈ body, token.kind ≠ .eof

/-- What is derived with every `else` at the nearest open `if` is what is parsed,
without an error. -/
theorem Program.parse_eq {tokens : List Token} {nextId : RefId} {trees : List Stmt}
    (program : Program true tokens nextId trees) :
    (parse tokens nextId).errors = [] ∧ (parse tokens nextId).statements = trees := by
  obtain ⟨last, id, isEnd, derived⟩ := program
  have result := derived.runs_program isEnd [] (boundFor tokens)
    (by simp only [boundFor]; omega)
  simp only [stateAt] at result
  simp only [parse, result, and_self]

/-- What is parsed without an error is derived up to the last token. -/
theorem derivation_to_end {tokens : List Token} {nextId : RefId} (ended : EndsOnce tokens)
    (silent : (parse tokens nextId).errors = []) :
    ∃ last, tokens.getLast? = some last ∧ last.kind = .eof ∧
      Declarations true ⟨tokens, nextId⟩ (parse tokens nextId).statements
        ⟨[last], (parse tokens nextId).nextId⟩ := by
  obtain ⟨body, last, rfl, isEnd, real⟩ := ended
  obtain ⟨taken, rest, same, takenReal, atEnd, derived⟩ := derivation_of_parse silent
  have reached : rest = [last] := by
    rcases List.append_eq_append_iff.mp same with ⟨extra, inTaken, inLast⟩ | ⟨extra, inBody, inRest⟩
    · cases extra with
      | nil => exact inLast.symm
      | cons token others =>
          obtain rfl : last = token := (List.cons.inj inLast).1
          exact absurd isEnd (takenReal last (by simp [inTaken]))
    · cases extra with
      | nil => exact inRest
      | cons token others =>
          rw [inRest] at atEnd
          exact absurd atEnd (real token (by simp [inBody]))
  rw [reached] at derived
  exact ⟨last, List.getLast?_concat, isEnd, derived⟩

/-- What is parsed without an error is a program. -/
theorem program_of_parse {tokens : List Token} {nextId : RefId} (ended : EndsOnce tokens)
    (silent : (parse tokens nextId).errors = []) :
    Program true tokens nextId (parse tokens nextId).statements := by
  obtain ⟨last, -, isEnd, derived⟩ := derivation_to_end ended silent
  exact ⟨last, _, isEnd, derived⟩

end Grammar

open Grammar in
/-- Parsing accepts exactly the programs of the grammar, and what it yields is the
one tree in which every `else` belongs to the nearest open `if`. -/
theorem parse_iff_program {tokens : List Token} (ended : EndsOnce tokens) (nextId : RefId) :
    ((parse tokens nextId).errors = [] ↔ ∃ trees, Program false tokens nextId trees) ∧
      ((parse tokens nextId).errors = [] →
        Program true tokens nextId (parse tokens nextId).statements ∧
          ∀ trees, Program true tokens nextId trees →
            trees = (parse tokens nextId).statements) := by
  refine ⟨⟨fun silent => ?_, ?_⟩, fun silent => ⟨program_of_parse ended silent, ?_⟩⟩
  · obtain ⟨last, id, isEnd, derived⟩ := program_of_parse ended silent
    exact ⟨_, last, id, isEnd, derived.toPlain⟩
  · rintro ⟨trees, last, id, isEnd, derived⟩
    obtain ⟨nearest, derivedNearest⟩ := derived.toNearest
    exact (Program.parse_eq ⟨last, id, isEnd, derivedNearest⟩).1
  · intro trees program
    exact program.parse_eq.2.symm

open Grammar in
/-- The tree of `if (a) if (b) c; else d;`. -/
theorem parse_iff_program_dangling :
    let word (kind : Token.Kind) : Token := ⟨kind, [], none, 1⟩
    let name (letter : UInt8) : Token := ⟨.identifier, [letter], none, 1⟩
    let tokens := [word .ifWord, word .leftParen, name 97, word .rightParen, word .ifWord,
      word .leftParen, name 98, word .rightParen, name 99, word .semicolon, word .elseWord,
      name 100, word .semicolon, word .eof]
    EndsOnce tokens ∧ Program true tokens 0
      [.branch (.read 0 ⟨[97], 1⟩)
        (.branch (.read 1 ⟨[98], 1⟩) (.expression (.read 2 ⟨[99], 1⟩) true)
          (some (.expression (.read 3 ⟨[100], 1⟩) true))) none] := by
  intro word name tokens
  have ended : EndsOnce tokens := ⟨tokens.dropLast, word .eof, rfl, rfl, by decide⟩
  exact ⟨ended, ((parse_iff_program ended 0).2 rfl).1⟩

end LoxLang
