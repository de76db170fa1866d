import LoxLang.Program.Parser

/-!
The grammar of programs.  Rules relate the tokens ahead to a tree and the tokens
left, and number references in the order of their tokens.  No rule looks at what
it leaves.  An `else` may go to any `if` before it that has none; the derivations
in which it goes to the nearest one are singled out.
-/

namespace LoxLang

namespace Grammar

open LoxLang.Parser (Precedence)

/-- Where a derivation stands: the tokens ahead and the next unused identity. -/
structure Cursor where
  tokens : List Token
  nextId : RefId

/-- The tokens that operate at a level, with the tree that each builds of two
operands. -/
inductive Operator (left right : Expr) : Precedence → Token → Expr → Prop where
  | or {token} : token.kind = .orWord →
      Operator left right .or token (.logical .or left right)
  | and {token} : token.kind = .andWord →
      Operator left right .and token (.logical .and left right)
  | equal {token} : token.kind = .equalEqual →
      Operator left right .equality token (.binary .equal token.line left right)
  | notEqual {token} : token.kind = .bangEqual →
      Operator left right .equality token (.binary .notEqual token.line left right)
  | greater {token} : token.kind = .greater →
      Operator left right .comparison token (.binary .greater token.line left right)
  | greaterEqual {token} : token.kind = .greaterEqual →
      Operator left right .comparison token (.binary .greaterEqual token.line left right)
  | less {token} : token.kind = .less →
      Operator left right .comparison token (.binary .less token.line left right)
  | lessEqual {token} : token.kind = .lessEqual →
      Operator left right .comparison token (.binary .lessEqual token.line left right)
  | add {token} : token.kind = .plus →
      Operator left right .term token (.binary .add token.line left right)
  | subtract {token} : token.kind = .minus →
      Operator left right .term token (.binary .subtract token.line left right)
  | multiply {token} : token.kind = .star →
      Operator left right .factor token (.binary .multiply token.line left right)
  | divide {token} : token.kind = .slash →
      Operator left right .factor token (.binary .divide token.line left right)

/-- The tokens that operate on what follows them. -/
inductive Sign : Token.Kind → UnaryOp → Prop where
  | not : Sign .bang .not
  | negate : Sign .minus .negate

/-- The tokens that denote a constant by themselves. -/
inductive Constant : Token → Literal → Prop where
  | no {token} : token.kind = .falseWord → Constant token (.bool false)
  | yes {token} : token.kind = .trueWord → Constant token (.bool true)
  | nil {token} : token.kind = .nilWord → Constant token .nil
  | number {token} : token.kind = .number → Constant token (token.literal.getD .nil)
  | string {token} : token.kind = .string → Constant token (token.literal.getD .nil)

/-- The name that an identifier token spells. -/
def nameOf (token : Token) : Name :=
  ⟨token.lexeme, token.line⟩

/-- The forms of expression, from the loosest to the tightest.  Operators are
given with the levels that may stand at the top, the loosest first. -/
inductive Form where
  | assignment
  | operators (levels : List Precedence)
  | unary
  | call
  | primary

mutual

/-- An expression of a form, between two cursors. -/
inductive Expression : Form → Cursor → Expr → Cursor → Prop where
  | assign {name equal : Token} {rest : List Token} {id : RefId} {value : Expr} {after : Cursor} :
      name.kind = .identifier → equal.kind = .equal →
      Expression .assignment ⟨rest, id + 1⟩ value after →
        Expression .assignment ⟨name :: equal :: rest, id⟩ (.assign id (nameOf name) value) after
  | set {before after : Cursor} {object value : Expr} {dot name equal : Token}
      {rest : List Token} {id : RefId} :
      Expression .call before object ⟨dot :: name :: equal :: rest, id⟩ →
      dot.kind = .dot → name.kind = .identifier → equal.kind = .equal →
      Expression .assignment ⟨rest, id⟩ value after →
        Expression .assignment before (.set object (nameOf name) value) after
  | operation {before after : Cursor} {tree : Expr} :
      Expression (.operators [.or, .and, .equality, .comparison, .term, .factor])
        before tree after →
        Expression .assignment before tree after
  | binary {precedence : Precedence} {tighter : List Precedence} {before after : Cursor}
      {left right tree : Expr} {operator : Token} {rest : List Token} {id : RefId} :
      Expression (.operators (precedence :: tighter)) before left ⟨operator :: rest, id⟩ →
      Operator left right precedence operator tree →
      Expression (.operators tighter) ⟨rest, id⟩ right after →
        Expression (.operators (precedence :: tighter)) before tree after
  | tighter {precedence : Precedence} {tighter : List Precedence} {before after : Cursor}
      {tree : Expr} :
      Expression (.operators tighter) before tree after →
        Expression (.operators (precedence :: tighter)) before tree after
  | tightest {before after : Cursor} {tree : Expr} :
      Expression .unary before tree after → Expression (.operators []) before tree after
  | signed {sign : Token} {op : UnaryOp} {rest : List Token} {id : RefId} {operand : Expr}
      {after : Cursor} :
      Sign sign.kind op → Expression .unary ⟨rest, id⟩ operand after →
        Expression .unary ⟨sign :: rest, id⟩ (.unary op sign.line operand) after
  | unsigned {before after : Cursor} {tree : Expr} :
      Expression .call before tree after → Expression .unary before tree after
  | callNone {before : Cursor} {callee : Expr} {opens closes : Token} {rest : List Token}
      {id : RefId} :
      Expression .call before callee ⟨opens :: closes :: rest, id⟩ →
      opens.kind = .leftParen → closes.kind = .rightParen →
        Expression .call before (.call callee [] closes.line) ⟨rest, id⟩
  | call {before : Cursor} {callee : Expr} {arguments : List Expr} {opens closes : Token}
      {inside rest : List Token} {id last : RefId} :
      Expression .call before callee ⟨opens :: inside, id⟩ → opens.kind = .leftParen →
      Arguments ⟨inside, id⟩ arguments ⟨closes :: rest, last⟩ → arguments.length ≤ 255 →
      closes.kind = .rightParen →
        Expression .call before (.call callee arguments closes.line) ⟨rest, last⟩
  | get {before : Cursor} {object : Expr} {dot name : Token} {rest : List Token} {id : RefId} :
      Expression .call before object ⟨dot :: name :: rest, id⟩ → dot.kind = .dot →
      name.kind = .identifier →
        Expression .call before (.get object (nameOf name)) ⟨rest, id⟩
  | callee {before after : Cursor} {tree : Expr} :
      Expression .primary before tree after → Expression .call before tree after
  | literal {token : Token} {value : Literal} {rest : List Token} {id : RefId} :
      Constant token value →
        Expression .primary ⟨token :: rest, id⟩ (.literal value) ⟨rest, id⟩
  | read {name : Token} {rest : List Token} {id : RefId} :
      name.kind = .identifier →
        Expression .primary ⟨name :: rest, id⟩ (.read id (nameOf name)) ⟨rest, id + 1⟩
  | self {word : Token} {rest : List Token} {id : RefId} :
      word.kind = .thisWord →
        Expression .primary ⟨word :: rest, id⟩ (.self id word.line) ⟨rest, id + 1⟩
  | superMethod {word dot name : Token} {rest : List Token} {id : RefId} :
      word.kind = .superWord → dot.kind = .dot → name.kind = .identifier →
        Expression .primary ⟨word :: dot :: name :: rest, id⟩
          (.superMethod id word.line (nameOf name)) ⟨rest, id + 1⟩
  | group {opens closes : Token} {inside rest : List Token} {id last : RefId} {inner : Expr} :
      opens.kind = .leftParen →
      Expression .assignment ⟨inside, id⟩ inner ⟨closes :: rest, last⟩ →
      closes.kind = .rightParen →
        Expression .primary ⟨opens :: inside, id⟩ (.group inner) ⟨rest, last⟩

/-- One or more expressions between commas. -/
inductive Arguments : Cursor → List Expr → Cursor → Prop where
  | last {before after : Cursor} {tree : Expr} :
      Expression .assignment before tree after → Arguments before [tree] after
  | more {before after : Cursor} {first : Expr} {others : List Expr} {comma : Token}
      {rest : List Token} {id : RefId} :
      Expression .assignment before first ⟨comma :: rest, id⟩ → comma.kind = .comma →
      Arguments ⟨rest, id⟩ others after →
        Arguments before (first :: others) after

end

/-- An expression that may be left out. -/
inductive Optional : Cursor → Option Expr → Cursor → Prop where
  | none {before : Cursor} : Optional before none before
  | some {before after : Cursor} {value : Expr} :
      Expression .assignment before value after → Optional before (some value) after

/-- The expression assigns a variable or a field at its top. -/
inductive Assigns : Expr → Prop where
  | assign {id : RefId} {name : Name} {value : Expr} : Assigns (.assign id name value)
  | set {object : Expr} {name : Name} {value : Expr} : Assigns (.set object name value)

/-- An expression as a statement.  Its value is shown unless it assigns. -/
inductive ExpressionStatement : Cursor → Stmt → Cursor → Prop where
  | intro {before : Cursor} {value : Expr} {semicolon : Token} {rest : List Token} {id : RefId}
      {echo : Bool} :
      Expression .assignment before value ⟨semicolon :: rest, id⟩ →
      semicolon.kind = .semicolon → (echo = false ↔ Assigns value) →
        ExpressionStatement before (.expression value echo) ⟨rest, id⟩

/-- A variable declaration after its keyword. -/
inductive VariableDeclaration : Cursor → Stmt → Cursor → Prop where
  | plain {name semicolon : Token} {rest : List Token} {id : RefId} :
      name.kind = .identifier → semicolon.kind = .semicolon →
        VariableDeclaration ⟨name :: semicolon :: rest, id⟩ (.declare (nameOf name) none)
          ⟨rest, id⟩
  | initialized {name equal semicolon : Token} {inside rest : List Token} {id last : RefId}
      {value : Expr} :
      name.kind = .identifier → equal.kind = .equal →
      Expression .assignment ⟨inside, id⟩ value ⟨semicolon :: rest, last⟩ →
      semicolon.kind = .semicolon →
        VariableDeclaration ⟨name :: equal :: inside, id⟩ (.declare (nameOf name) (some value))
          ⟨rest, last⟩

/-- The first clause of a `for` statement with its semicolon. -/
inductive Initializer : Cursor → Option Stmt → Cursor → Prop where
  | none {semicolon : Token} {rest : List Token} {id : RefId} :
      semicolon.kind = .semicolon → Initializer ⟨semicolon :: rest, id⟩ none ⟨rest, id⟩
  | declaration {word : Token} {rest : List Token} {id : RefId} {tree : Stmt} {after : Cursor} :
      word.kind = .varWord → VariableDeclaration ⟨rest, id⟩ tree after →
        Initializer ⟨word :: rest, id⟩ (some tree) after
  | expression {before after : Cursor} {tree : Stmt} :
      ExpressionStatement before tree after → Initializer before (some tree) after

/-- The tree of a `for` statement: a loop whose rounds end with the increment,
unshown, in a block after the initializer.  A condition left out always holds. -/
def forTree : Option Stmt → Option Expr → Option Expr → Stmt → Stmt
  | none, condition, none, body =>
      .loop (condition.getD (.literal (.bool true))) body
  | none, condition, some increment, body =>
      .loop (condition.getD (.literal (.bool true))) (.block [body, .expression increment false])
  | some initial, condition, none, body =>
      .block [initial, .loop (condition.getD (.literal (.bool true))) body]
  | some initial, condition, some increment, body =>
      .block [initial, .loop (condition.getD (.literal (.bool true)))
        (.block [body, .expression increment false])]

/-- One or more names between commas. -/
inductive Parameters : List Token → List Name → List Token → Prop where
  | last {name : Token} {rest : List Token} :
      name.kind = .identifier → Parameters (name :: rest) [nameOf name] rest
  | more {name comma : Token} {rest after : List Token} {others : List Name} :
      name.kind = .identifier → comma.kind = .comma → Parameters rest others after →
        Parameters (name :: comma :: rest) (nameOf name :: others) after

/-- The parameters of a function and its closing parenthesis. -/
inductive ParameterList : List Token → List Name → List Token → Prop where
  | none {closes : Token} {rest : List Token} :
      closes.kind = .rightParen → ParameterList (closes :: rest) [] rest
  | some {before rest : List Token} {names : List Name} {closes : Token} :
      Parameters before names (closes :: rest) → names.length ≤ 255 →
      closes.kind = .rightParen → ParameterList before names rest

/-- The superclass that a class may name. -/
inductive Superclass : Cursor → Option (RefId × Name) → Cursor → Prop where
  | none {before : Cursor} : Superclass before none before
  | some {less name : Token} {rest : List Token} {id : RefId} :
      less.kind = .less → name.kind = .identifier →
        Superclass ⟨less :: name :: rest, id⟩ (some (id, nameOf name)) ⟨rest, id + 1⟩

mutual

/-- A statement that can be the body of another.  The second flag tells whether
it ends with an `if` that has no `else`; with `nearest`, no `else` is given to an
`if` across such an end. -/
inductive Statement (nearest : Bool) : Bool → Cursor → Stmt → Cursor → Prop where
  | expression {before after : Cursor} {tree : Stmt} :
      ExpressionStatement before tree after → Statement nearest false before tree after
  | print {word semicolon : Token} {inside rest : List Token} {id last : RefId} {value : Expr} :
      word.kind = .printWord →
      Expression .assignment ⟨inside, id⟩ value ⟨semicolon :: rest, last⟩ →
      semicolon.kind = .semicolon →
        Statement nearest false ⟨word :: inside, id⟩ (.print value) ⟨rest, last⟩
  | leave {word semicolon : Token} {inside rest : List Token} {id last : RefId}
      {value : Option Expr} :
      word.kind = .returnWord → Optional ⟨inside, id⟩ value ⟨semicolon :: rest, last⟩ →
      semicolon.kind = .semicolon →
        Statement nearest false ⟨word :: inside, id⟩ (.leave word.line value) ⟨rest, last⟩
  | block {opens closes : Token} {inside rest : List Token} {id last : RefId}
      {body : List Stmt} :
      opens.kind = .leftBrace → Declarations nearest ⟨inside, id⟩ body ⟨closes :: rest, last⟩ →
      closes.kind = .rightBrace →
        Statement nearest false ⟨opens :: inside, id⟩ (.block body) ⟨rest, last⟩
  | ifThen {word opens closes : Token} {inside rest : List Token} {id last : RefId}
      {condition : Expr} {dangling : Bool} {consequence : Stmt} {after : Cursor} :
      word.kind = .ifWord → opens.kind = .leftParen →
      Expression .assignment ⟨inside, id⟩ condition ⟨closes :: rest, last⟩ →
      closes.kind = .rightParen → Statement nearest dangling ⟨rest, last⟩ consequence after →
        Statement nearest true ⟨word :: opens :: inside, id⟩
          (.branch condition consequence none) after
  | ifElse {word opens closes other : Token} {inside rest left : List Token}
      {id last middle : RefId} {condition : Expr} {dangling ending : Bool}
      {consequence alternative : Stmt} {after : Cursor} :
      word.kind = .ifWord → opens.kind = .leftParen →
      Expression .assignment ⟨inside, id⟩ condition ⟨closes :: rest, last⟩ →
      closes.kind = .rightParen →
      Statement nearest dangling ⟨rest, last⟩ consequence ⟨other :: left, middle⟩ →
      (nearest = true → dangling = false) → other.kind = .elseWord →
      Statement nearest ending ⟨left, middle⟩ alternative after →
        Statement nearest ending ⟨word :: opens :: inside, id⟩
          (.branch condition consequence (some alternative)) after
  | whileLoop {word opens closes : Token} {inside rest : List Token} {id last : RefId}
      {condition : Expr} {dangling : Bool} {body : Stmt} {after : Cursor} :
      word.kind = .whileWord → opens.kind = .leftParen →
      Expression .assignment ⟨inside, id⟩ condition ⟨closes :: rest, last⟩ →
      closes.kind = .rightParen → Statement nearest dangling ⟨rest, last⟩ body after →
        Statement nearest dangling ⟨word :: opens :: inside, id⟩ (.loop condition body) after
  | forLoop {word opens semicolon closes : Token} {inside middle rest : List Token}
      {id second third : RefId} {clauses after : Cursor} {initial : Option Stmt}
      {condition increment : Option Expr} {dangling : Bool} {body tree : Stmt} :
      word.kind = .forWord → opens.kind = .leftParen →
      Initializer ⟨inside, id⟩ initial clauses →
      Optional clauses condition ⟨semicolon :: middle, second⟩ →
      semicolon.kind = .semicolon →
      Optional ⟨middle, second⟩ increment ⟨closes :: rest, third⟩ →
      closes.kind = .rightParen → Statement nearest dangling ⟨rest, third⟩ body after →
      tree = forTree initial condition increment body →
        Statement nearest dangling ⟨word :: opens :: inside, id⟩ tree after

/-- A declaration or statement. -/
inductive Declaration (nearest : Bool) : Cursor → Stmt → Cursor → Prop where
  | classDecl {word name opens closes : Token} {inside body rest : List Token}
      {id second last : RefId} {superclass : Option (RefId × Name)} {methods : List Function} :
      word.kind = .classWord → name.kind = .identifier →
      Superclass ⟨inside, id⟩ superclass ⟨opens :: body, second⟩ → opens.kind = .leftBrace →
      Methods nearest ⟨body, second⟩ methods ⟨closes :: rest, last⟩ →
      closes.kind = .rightBrace →
        Declaration nearest ⟨word :: name :: inside, id⟩
          (.classDecl (nameOf name) superclass methods) ⟨rest, last⟩
  | function {word : Token} {rest : List Token} {id : RefId} {declaration : Function}
      {after : Cursor} :
      word.kind = .funWord → Callable nearest ⟨rest, id⟩ declaration after →
        Declaration nearest ⟨word :: rest, id⟩ (.function declaration) after
  | declare {word : Token} {rest : List Token} {id : RefId} {tree : Stmt} {after : Cursor} :
      word.kind = .varWord → VariableDeclaration ⟨rest, id⟩ tree after →
        Declaration nearest ⟨word :: rest, id⟩ tree after
  | statement {dangling : Bool} {before after : Cursor} {tree : Stmt} :
      Statement nearest dangling before tree after → Declaration nearest before tree after

/-- Declarations and statements in order. -/
inductive Declarations (nearest : Bool) : Cursor → List Stmt → Cursor → Prop where
  | nil {before : Cursor} : Declarations nearest before [] before
  | cons {before middle after : Cursor} {first : Stmt} {rest : List Stmt} :
      Declaration nearest before first middle → Declarations nearest middle rest after →
        Declarations nearest before (first :: rest) after

/-- A function or method from its name on. -/
inductive Callable (nearest : Bool) : Cursor → Function → Cursor → Prop where
  | intro {name opens brace closes : Token} {inside body rest : List Token} {id last : RefId}
      {parameters : List Name} {statements : List Stmt} :
      name.kind = .identifier → opens.kind = .leftParen →
      ParameterList inside parameters (brace :: body) → brace.kind = .leftBrace →
      Declarations nearest ⟨body, id⟩ statements ⟨closes :: rest, last⟩ →
      closes.kind = .rightBrace →
        Callable nearest ⟨name :: opens :: inside, id⟩ (.mk (nameOf name) parameters statements)
          ⟨rest, last⟩

inductive Methods (nearest : Bool) : Cursor → List Function → Cursor → Prop where
  | nil {before : Cursor} : Methods nearest before [] before
  | cons {before middle after : Cursor} {first : Function} {rest : List Function} :
      Callable nearest before first middle → Methods nearest middle rest after →
        Methods nearest before (first :: rest) after

end

/-- The tokens that an operand without a sign can start with. -/
def startsOperand : Token.Kind → Bool
  | .falseWord | .trueWord | .nilWord | .number | .string | .identifier | .thisWord | .superWord
  | .leftParen => true
  | _ => false

/-- The tokens that an expression can start with. -/
def startsExpression (kind : Token.Kind) : Bool :=
  startsOperand kind || kind = .bang || kind = .minus

/-- The tokens that a form of expression can start with. -/
def Form.starts : Form → Token.Kind → Bool
  | .assignment | .operators _ | .unary => startsExpression
  | .call | .primary => startsOperand

theorem startsExpression_of_startsOperand {kind : Token.Kind} (starts : startsOperand kind = true) :
    startsExpression kind = true := by
  simp [startsExpression, starts]

theorem Sign.startsExpression {kind : Token.Kind} {op : UnaryOp} (sign : Sign kind op) :
    startsExpression kind = true := by
  cases sign <;> rfl

theorem Constant.startsOperand {token : Token} {value : Literal} (constant : Constant token value) :
    startsOperand token.kind = true := by
  cases constant with
  | no kind => rw [kind]; rfl
  | yes kind => rw [kind]; rfl
  | nil kind => rw [kind]; rfl
  | number kind => rw [kind]; rfl
  | string kind => rw [kind]; rfl

theorem Constant.kind_ne_eof {token : Token} {value : Literal} (constant : Constant token value) :
    token.kind ≠ .eof := by
  intro isEnd
  have starts := constant.startsOperand
  rw [isEnd] at starts
  cases starts

/-- A derivation takes a first token of some kinds, and maybe more. -/
def Begins (starts : Token.Kind → Bool) (before after : Cursor) : Prop :=
  ∃ token rest, before.tokens = token :: rest ∧ starts token.kind = true ∧
    after.tokens.length ≤ rest.length

theorem Begins.length_lt {starts : Token.Kind → Bool} {before after : Cursor}
    (begins : Begins starts before after) : after.tokens.length < before.tokens.length := by
  obtain ⟨token, rest, tokens, -, length⟩ := begins
  rw [tokens, List.length_cons]
  exact Nat.lt_succ_of_le length

theorem Begins.widen {starts wider : Token.Kind → Bool} {before after : Cursor}
    (begins : Begins starts before after)
    (implies : ∀ kind, starts kind = true → wider kind = true) : Begins wider before after := by
  obtain ⟨token, rest, tokens, first, length⟩ := begins
  exact ⟨token, rest, tokens, implies _ first, length⟩

/-- More tokens are taken after a derivation. -/
theorem Begins.further {starts : Token.Kind → Bool} {before middle after : Cursor}
    (begins : Begins starts before middle)
    (length : after.tokens.length ≤ middle.tokens.length) : Begins starts before after := by
  obtain ⟨token, rest, tokens, first, shorter⟩ := begins
  exact ⟨token, rest, tokens, first, Nat.le_trans length shorter⟩

mutual

theorem Expression.begins {form : Form} {before after : Cursor} {tree : Expr} :
    Expression form before tree after → Begins form.starts before after
  | .assign isName _ value => by
      refine ⟨_, _, rfl, by rw [isName]; rfl, ?_⟩
      exact Nat.le_succ_of_le (Nat.le_of_lt value.begins.length_lt)
  | .set object _ _ _ value => by
      have shorter := value.begins.length_lt
      apply (object.begins.further _).widen fun _ => startsExpression_of_startsOperand
      simp only [List.length_cons] at shorter ⊢
      omega
  | .operation tree => tree.begins
  | .binary left _ right =>
      left.begins.further (Nat.le_succ_of_le (Nat.le_of_lt right.begins.length_lt))
  | .tighter tree => tree.begins
  | .tightest tree => tree.begins
  | .signed sign operand =>
      ⟨_, _, rfl, sign.startsExpression, Nat.le_of_lt operand.begins.length_lt⟩
  | .unsigned tree => tree.begins.widen fun _ => startsExpression_of_startsOperand
  | .callNone callee _ _ => callee.begins.further (Nat.le_add_right _ 2)
  | .call callee _ arguments _ _ => by
      have shorter := arguments.begins.length_lt
      apply callee.begins.further
      simp only [List.length_cons] at shorter ⊢
      omega
  | .get object _ _ => object.begins.further (Nat.le_add_right _ 2)
  | .callee tree => tree.begins
  | .literal constant => ⟨_, _, rfl, constant.startsOperand, Nat.le_refl _⟩
  | .read isName => ⟨_, _, rfl, by rw [isName]; rfl, Nat.le_refl _⟩
  | .self isThis => ⟨_, _, rfl, by rw [isThis]; rfl, Nat.le_refl _⟩
  | .superMethod isSuper _ _ => ⟨_, _, rfl, by rw [isSuper]; rfl, Nat.le_add_right _ 2⟩
  | .group isOpen inner _ => by
      have shorter := inner.begins.length_lt
      refine ⟨_, _, rfl, by rw [isOpen]; rfl, ?_⟩
      simp only [List.length_cons] at shorter ⊢
      omega

theorem Arguments.begins {before after : Cursor} {trees : List Expr} :
    Arguments before trees after → Begins startsExpression before after
  | .last tree => tree.begins
  | .more first _ others =>
      first.begins.further (Nat.le_succ_of_le (Nat.le_of_lt others.begins.length_lt))

end

theorem Optional.length_le {before after : Cursor} {tree : Option Expr}
    (derived : Optional before tree after) : after.tokens.length ≤ before.tokens.length := by
  cases derived with
  | none => exact Nat.le_refl _
  | some value => exact Nat.le_of_lt value.begins.length_lt

theorem Superclass.length_le {before after : Cursor} {tree : Option (RefId × Name)}
    (derived : Superclass before tree after) : after.tokens.length ≤ before.tokens.length := by
  cases derived with
  | none => exact Nat.le_refl _
  | some _ _ => exact Nat.le_add_right _ 2

theorem ExpressionStatement.begins {before after : Cursor} {tree : Stmt}
    (derived : ExpressionStatement before tree after) : Begins startsExpression before after := by
  cases derived with
  | intro value _ _ => exact value.begins.further (Nat.le_succ _)

theorem VariableDeclaration.length_lt {before after : Cursor} {tree : Stmt}
    (derived : VariableDeclaration before tree after) :
    after.tokens.length < before.tokens.length := by
  cases derived with
  | plain _ _ => exact Nat.lt_add_of_pos_right (by decide : 0 < 2)
  | initialized _ _ value _ =>
      have shorter := value.begins.length_lt
      simp only [List.length_cons] at shorter ⊢
      omega

theorem Initializer.length_lt {before after : Cursor} {tree : Option Stmt}
    (derived : Initializer before tree after) : after.tokens.length < before.tokens.length := by
  cases derived with
  | none _ => exact Nat.lt_succ_self _
  | declaration _ tree => exact Nat.lt_succ_of_lt tree.length_lt
  | expression tree => exact tree.begins.length_lt

theorem Parameters.length_lt {before after : List Token} {names : List Name}
    (derived : Parameters before names after) : after.length < before.length := by
  induction derived with
  | last _ => exact Nat.lt_succ_self _
  | more _ _ _ shorter => exact Nat.lt_succ_of_lt (Nat.lt_succ_of_lt shorter)

theorem ParameterList.length_lt {before after : List Token} {names : List Name}
    (derived : ParameterList before names after) : after.length < before.length := by
  cases derived with
  | none _ => exact Nat.lt_succ_self _
  | some names _ _ => exact Nat.lt_of_succ_lt names.length_lt

/-- The tokens that a statement can start with. -/
def startsStatement : Token.Kind → Bool
  | .printWord | .returnWord | .leftBrace | .ifWord | .whileWord | .forWord => true
  | kind => startsExpression kind

/-- The tokens that a declaration or statement can start with. -/
def startsDeclaration : Token.Kind → Bool
  | .classWord | .funWord | .varWord => true
  | kind => startsStatement kind

theorem startsStatement_of_startsExpression :
    ∀ kind, startsExpression kind = true → startsStatement kind = true := by
  intro kind starts
  cases kind <;> first | rfl | exact starts

theorem startsDeclaration_of_startsStatement :
    ∀ kind, startsStatement kind = true → startsDeclaration kind = true := by
  intro kind starts
  cases kind <;> first | rfl | exact starts

mutual

theorem Statement.begins {nearest dangling : Bool} {before after : Cursor} {tree : Stmt} :
    Statement nearest dangling before tree after → Begins startsStatement before after
  | .expression tree => tree.begins.widen startsStatement_of_startsExpression
  | .print word value _ => by
      have shorter := value.begins.length_lt
      exact ⟨_, _, rfl, by rw [word]; rfl, Nat.le_of_succ_le (Nat.le_of_lt shorter)⟩
  | .leave word value _ =>
      ⟨_, _, rfl, by rw [word]; rfl, Nat.le_of_succ_le value.length_le⟩
  | .block opens body _ =>
      ⟨_, _, rfl, by rw [opens]; rfl, Nat.le_of_succ_le body.length_le⟩
  | .ifThen word _ condition _ consequence => by
      have first := condition.begins.length_lt
      have second := consequence.begins.length_lt
      refine ⟨_, _, rfl, by rw [word]; rfl, ?_⟩
      simp only [List.length_cons] at first second ⊢
      omega
  | .ifElse word _ condition _ consequence _ _ alternative => by
      have first := condition.begins.length_lt
      have second := consequence.begins.length_lt
      have third := alternative.begins.length_lt
      refine ⟨_, _, rfl, by rw [word]; rfl, ?_⟩
      simp only [List.length_cons] at first second third ⊢
      omega
  | .whileLoop word _ condition _ body => by
      have first := condition.begins.length_lt
      have second := body.begins.length_lt
      refine ⟨_, _, rfl, by rw [word]; rfl, ?_⟩
      simp only [List.length_cons] at first second ⊢
      omega
  | .forLoop word _ initial condition _ increment _ body _ => by
      have first := initial.length_lt
      have second := condition.length_le
      have third := increment.length_le
      have fourth := body.begins.length_lt
      refine ⟨_, _, rfl, by rw [word]; rfl, ?_⟩
      simp only [List.length_cons] at first second third fourth ⊢
      omega

theorem Declaration.begins {nearest : Bool} {before after : Cursor} {tree : Stmt} :
    Declaration nearest before tree after → Begins startsDeclaration before after
  | .classDecl word _ superclass _ methods _ => by
      have first := superclass.length_le
      have second := methods.length_le
      refine ⟨_, _, rfl, by rw [word]; rfl, ?_⟩
      simp only [List.length_cons] at first second ⊢
      omega
  | .function word declaration =>
      ⟨_, _, rfl, by rw [word]; rfl, Nat.le_of_lt declaration.length_lt⟩
  | .declare word tree => ⟨_, _, rfl, by rw [word]; rfl, Nat.le_of_lt tree.length_lt⟩
  | .statement tree => tree.begins.widen startsDeclaration_of_startsStatement

theorem Declarations.length_le {nearest : Bool} {before after : Cursor} {trees : List Stmt} :
    Declarations nearest before trees after → after.tokens.length ≤ before.tokens.length
  | .nil => Nat.le_refl _
  | .cons first rest => Nat.le_trans rest.length_le (Nat.le_of_lt first.begins.length_lt)

theorem Callable.length_lt {nearest : Bool} {before after : Cursor} {tree : Function} :
    Callable nearest before tree after → after.tokens.length < before.tokens.length
  | .intro _ _ parameters _ body _ => by
      have first := parameters.length_lt
      have second := body.length_le
      simp only [List.length_cons] at first second ⊢
      omega

theorem Methods.length_le {nearest : Bool} {before after : Cursor} {trees : List Function} :
    Methods nearest before trees after → after.tokens.length ≤ before.tokens.length
  | .nil => Nat.le_refl _
  | .cons first rest => Nat.le_trans rest.length_le (Nat.le_of_lt first.length_lt)

end

/-- An `else` after a statement that ends with an open `if` goes to the nearest
one. -/
theorem Statement.attach {other : Token} {left : List Token} {middle : RefId} {ending : Bool}
    {alternative : Stmt} {after : Cursor} (isElse : other.kind = .elseWord)
    (derived : Statement true ending ⟨left, middle⟩ alternative after) {dangling : Bool}
    {before between : Cursor} {tree : Stmt} (isOpen : dangling = true)
    (same : between = ⟨other :: left, middle⟩) :
    Statement true dangling before tree between → ∃ flag tree, Statement true flag before tree after
  | .expression _ => by cases isOpen
  | .print _ _ _ => by cases isOpen
  | .leave _ _ _ => by cases isOpen
  | .block _ _ _ => by cases isOpen
  | @Statement.ifThen _ _ _ _ _ _ _ _ _ flag _ _ word opens condition closes consequence => by
      rcases Bool.eq_false_or_eq_true flag with inside | closed
      · obtain ⟨_, _, inner⟩ := attach isElse derived inside same consequence
        exact ⟨_, _, .ifThen word opens condition closes inner⟩
      · subst same
        exact ⟨_, _, .ifElse word opens condition closes consequence (fun _ => closed) isElse
          derived⟩
  | .ifElse word opens condition closes consequence closed separate last => by
      obtain ⟨_, _, inner⟩ := attach isElse derived isOpen same last
      exact ⟨_, _, .ifElse word opens condition closes consequence closed separate inner⟩
  | .whileLoop word opens condition closes body => by
      obtain ⟨_, _, inner⟩ := attach isElse derived isOpen same body
      exact ⟨_, _, .whileLoop word opens condition closes inner⟩
  | .forLoop word opens initial condition semicolon increment closes body _ => by
      obtain ⟨_, _, inner⟩ := attach isElse derived isOpen same body
      exact ⟨_, _, .forLoop word opens initial condition semicolon increment closes inner rfl⟩

mutual

/-- What can be derived at all can be derived with every `else` at the nearest
open `if`. -/
theorem Statement.toNearest {dangling : Bool} {before after : Cursor} {tree : Stmt} :
    Statement false dangling before tree after →
      ∃ flag tree, Statement true flag before tree after
  | .expression tree => ⟨_, _, .expression tree⟩
  | .print word value semicolon => ⟨_, _, .print word value semicolon⟩
  | .leave word value semicolon => ⟨_, _, .leave word value semicolon⟩
  | .block opens body closes => by
      obtain ⟨_, inner⟩ := body.toNearest
      exact ⟨_, _, .block opens inner closes⟩
  | .ifThen word opens condition closes consequence => by
      obtain ⟨_, _, inner⟩ := consequence.toNearest
      exact ⟨_, _, .ifThen word opens condition closes inner⟩
  | .ifElse word opens condition closes consequence _ isElse alternative => by
      obtain ⟨flag, _, first⟩ := consequence.toNearest
      obtain ⟨_, _, second⟩ := alternative.toNearest
      cases flag with
      | false =>
          exact ⟨_, _, .ifElse word opens condition closes first (fun _ => rfl) isElse second⟩
      | true =>
          obtain ⟨_, _, inner⟩ := Statement.attach isElse second rfl rfl first
          exact ⟨_, _, .ifThen word opens condition closes inner⟩
  | .whileLoop word opens condition closes body => by
      obtain ⟨_, _, inner⟩ := body.toNearest
      exact ⟨_, _, .whileLoop word opens condition closes inner⟩
  | .forLoop word opens initial condition semicolon increment closes body _ => by
      obtain ⟨_, _, inner⟩ := body.toNearest
      exact ⟨_, _, .forLoop word opens initial condition semicolon increment closes inner rfl⟩

theorem Declaration.toNearest {before after : Cursor} {tree : Stmt} :
    Declaration false before tree after → ∃ tree, Declaration true before tree after
  | .classDecl word name superclass opens methods closes => by
      obtain ⟨_, inner⟩ := methods.toNearest
      exact ⟨_, .classDecl word name superclass opens inner closes⟩
  | .function word declaration => by
      obtain ⟨_, inner⟩ := declaration.toNearest
      exact ⟨_, .function word inner⟩
  | .declare word tree => ⟨_, .declare word tree⟩
  | .statement tree => by
      obtain ⟨_, _, inner⟩ := tree.toNearest
      exact ⟨_, .statement inner⟩

theorem Declarations.toNearest {before after : Cursor} {trees : List Stmt} :
    Declarations false before trees after → ∃ trees, Declarations true before trees after
  | .nil => ⟨_, .nil⟩
  | .cons first rest => by
      obtain ⟨_, firstInner⟩ := first.toNearest
      obtain ⟨_, restInner⟩ := rest.toNearest
      exact ⟨_, .cons firstInner restInner⟩

theorem Callable.toNearest {before after : Cursor} {tree : Function} :
    Callable false before tree after → ∃ tree, Callable true before tree after
  | .intro name opens parameters brace body closes => by
      obtain ⟨_, inner⟩ := body.toNearest
      exact ⟨_, .intro name opens parameters brace inner closes⟩

theorem Methods.toNearest {before after : Cursor} {trees : List Function} :
    Methods false before trees after → ∃ trees, Methods true before trees after
  | .nil => ⟨_, .nil⟩
  | .cons first rest => by
      obtain ⟨_, firstInner⟩ := first.toNearest
      obtain ⟨_, restInner⟩ := rest.toNearest
      exact ⟨_, .cons firstInner restInner⟩

end

mutual

/-- A derivation with the nearest `if` everywhere is a derivation. -/
theorem Statement.toPlain {dangling : Bool} {before after : Cursor} {tree : Stmt} :
    Statement true dangling before tree after → Statement false dangling before tree after
  | .expression tree => .expression tree
  | .print word value semicolon => .print word value semicolon
  | .leave word value semicolon => .leave word value semicolon
  | .block opens body closes => .block opens body.toPlain closes
  | .ifThen word opens condition closes consequence =>
      .ifThen word opens condition closes consequence.toPlain
  | .ifElse word opens condition closes consequence _ isElse alternative =>
      .ifElse word opens condition closes consequence.toPlain (by simp) isElse alternative.toPlain
  | .whileLoop word opens condition closes body =>
      .whileLoop word opens condition closes body.toPlain
  | .forLoop word opens initial condition semicolon increment closes body lowered =>
      .forLoop word opens initial condition semicolon increment closes body.toPlain lowered

theorem Declaration.toPlain {before after : Cursor} {tree : Stmt} :
    Declaration true before tree after → Declaration false before tree after
  | .classDecl word name superclass opens methods closes =>
      .classDecl word name superclass opens methods.toPlain closes
  | .function word declaration => .function word declaration.toPlain
  | .declare word tree => .declare word tree
  | .statement tree => .statement tree.toPlain

theorem Declarations.toPlain {before after : Cursor} {trees : List Stmt} :
    Declarations true before trees after → Declarations false before trees after
  | .nil => .nil
  | .cons first rest => .cons first.toPlain rest.toPlain

theorem Callable.toPlain {before after : Cursor} {tree : Function} :
    Callable true before tree after → Callable false before tree after
  | .intro name opens parameters brace body closes =>
      .intro name opens parameters brace body.toPlain closes

theorem Methods.toPlain {before after : Cursor} {trees : List Function} :
    Methods true before trees after → Methods false before trees after
  | .nil => .nil
  | .cons first rest => .cons first.toPlain rest.toPlain

end

end Grammar

end LoxLang
