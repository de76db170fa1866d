import LoxLang.Proofs.Program.Relabel
import LoxLang.Proofs.Program.WrittenTrees

/-!
Written trees read back.  The text of a program that was parsed from a source without errors
determines its statements, apart from identities, lines and echo marks, as long as no
numeral of the source is beyond the greatest double.
-/

namespace LoxLang

namespace Relabelling

/-- No identities and no lines. -/
def blank : Relabelling :=
  ⟨fun _ => 0, fun _ => 0⟩

@[simp]
theorem blank_name (name : Name) : blank.name name = ⟨name.text, 0⟩ := rfl

end Relabelling

mutual

/-- The statement without identities, lines and echo marks. -/
def Stmt.bare : Stmt → Stmt
  | .expression value _ => .expression (value.relabel .blank) false
  | .print value => .print (value.relabel .blank)
  | .declare name initial =>
      .declare (Relabelling.blank.name name) (initial.map (Expr.relabel .blank))
  | .block body => .block (Stmt.bareAll body)
  | .branch condition consequence none => .branch (condition.relabel .blank) consequence.bare none
  | .branch condition consequence (some alternative) =>
      .branch (condition.relabel .blank) consequence.bare (some alternative.bare)
  | .loop condition body => .loop (condition.relabel .blank) body.bare
  | .function declaration => .function declaration.bare
  | .leave _ value => .leave 0 (value.map (Expr.relabel .blank))
  | .classDecl name superclass methods =>
      .classDecl (Relabelling.blank.name name)
        (superclass.map fun (_, parent) => (0, Relabelling.blank.name parent))
        (Function.bareAll methods)

def Stmt.bareAll : List Stmt → List Stmt
  | [] => []
  | first :: rest => first.bare :: Stmt.bareAll rest

def Function.bare : Function → Function
  | .mk name parameters body =>
      .mk (Relabelling.blank.name name) (parameters.map Relabelling.blank.name)
        (Stmt.bareAll body)

def Function.bareAll : List Function → List Function
  | [] => []
  | first :: rest => first.bare :: Function.bareAll rest

end

namespace UnaryOp

def ofLexeme? (text : Bytes) : Option UnaryOp :=
  [not, negate].find? fun op => op.lexeme == text

end UnaryOp

namespace BinaryOp

def ofLexeme? (text : Bytes) : Option BinaryOp :=
  [equal, notEqual, greater, greaterEqual, less, lessEqual, add, subtract, multiply,
    divide].find? fun op => op.lexeme == text

end BinaryOp

namespace LogicalOp

def ofLexeme? (text : Bytes) : Option LogicalOp :=
  [or, and].find? fun op => op.lexeme == text

end LogicalOp

namespace Expr

/-- The expression that a word stands for. -/
def ofWord (text : Bytes) : Expr :=
  match Number.read? text with
  | some value => .literal (.number value)
  | none =>
      if text = Bytes.ofString "nil" then .literal .nil
      else if text = Bytes.ofString "true" then .literal (.bool true)
      else if text = Bytes.ofString "false" then .literal (.bool false)
      else if text = Bytes.ofString "this" then .self 0 0
      else .read 0 ⟨text, 0⟩

/-- The expression with a head and one part. -/
def ofPart? (head : Bytes) (part : Expr) : Option Expr :=
  match UnaryOp.ofLexeme? head with
  | some op => some (.unary op 0 part)
  | none =>
      if head = Bytes.ofString "group" then some (.group part)
      else match part with
        | .read _ name => some (.superMethod 0 0 name)
        | _ => none

/-- The expression with a head and two parts. -/
def ofTwoParts? (head : Bytes) (first second : Expr) : Option Expr :=
  match BinaryOp.ofLexeme? head with
  | some op => some (.binary op 0 first second)
  | none =>
      match LogicalOp.ofLexeme? head with
      | some op => some (.logical op first second)
      | none =>
          if head = Bytes.ofString "=" then
            match first with
            | .read _ name => some (.assign 0 name second)
            | _ => none
          else
            match second with
            | .read _ name => some (.get first name)
            | _ => none

/-- The expression with a head and parts.  Names among the parts are read as variables. -/
def ofParts? (head : Bytes) (parts : List Expr) : Option Expr :=
  if head = Bytes.ofString "call" then
    match parts with
    | callee :: arguments => some (.call callee arguments 0)
    | [] => none
  else
    match parts with
    | [part] => ofPart? head part
    | [first, second] => ofTwoParts? head first second
    | [object, .read _ name, value] => some (.set object name value)
    | _ => none

end Expr

namespace Written

mutual

def expression? : Written → Option Expr
  | .word text => some (.ofWord text)
  | .quoted text => some (.literal (.string text))
  | .list (.word head :: parts) => do
      Expr.ofParts? head (← expressions? parts)
  | .list _ => none

def expressions? : List Written → Option (List Expr)
  | [] => some []
  | first :: rest => do
      return (← first.expression?) :: (← expressions? rest)

end

def names? : List Written → Option (List Name)
  | [] => some []
  | .word text :: rest => do
      return ⟨text, 0⟩ :: (← names? rest)
  | _ => none

mutual

def statement? : Written → Option Stmt
  | .list (.word head :: parts) =>
      match Stmt.Head.ofText? head, parts with
      | some .expression, [value] => do
          return .expression (← value.expression?) false
      | some .print, [value] => do
          return .print (← value.expression?)
      | some .declare, [.word name] => some (.declare ⟨name, 0⟩ none)
      | some .declare, [.word name, _, initial] => do
          return .declare ⟨name, 0⟩ (some (← initial.expression?))
      | some .block, body => do
          return .block (← statements? body)
      | some .branch, [condition, consequence] => do
          return .branch (← condition.expression?) (← consequence.statement?) none
      | some .branchElse, [condition, consequence, alternative] => do
          return .branch (← condition.expression?) (← consequence.statement?)
            (some (← alternative.statement?))
      | some .loop, [condition, body] => do
          return .loop (← condition.expression?) (← body.statement?)
      | some .function, .word name :: .list parameters :: body => do
          return .function (.mk ⟨name, 0⟩ (← names? parameters) (← statements? body))
      | some .leave, [] => some (.leave 0 none)
      | some .leave, [value] => do
          return .leave 0 (some (← value.expression?))
      | some .classDecl, .word name :: .word _ :: .word superclass :: methods => do
          return .classDecl ⟨name, 0⟩ (some (0, ⟨superclass, 0⟩)) (← functions? methods)
      | some .classDecl, .word name :: methods => do
          return .classDecl ⟨name, 0⟩ none (← functions? methods)
      | _, _ => none
  | _ => none

def statements? : List Written → Option (List Stmt)
  | [] => some []
  | first :: rest => do
      return (← first.statement?) :: (← statements? rest)

def function? : Written → Option Function
  | .list (_ :: .word name :: .list parameters :: body) => do
      return .mk ⟨name, 0⟩ (← names? parameters) (← statements? body)
  | _ => none

def functions? : List Written → Option (List Function)
  | [] => some []
  | first :: rest => do
      return (← first.function?) :: (← functions? rest)

end

end Written

namespace Number

/-- No word is a numeral. -/
theorem read?_of_isWord {text : Bytes} (isWord : IsWord text) : read? text = none := by
  obtain ⟨first, rest, rfl, letter, -⟩ := isWord
  have others : ∀ byte : UInt8, Bytes.isLetter byte = true →
      Bytes.isDigit byte = false ∧ (byte == 46) = false :=
    Chunk.forall_byte (by decide +kernel)
  obtain ⟨notDigit, notPoint⟩ := others first letter
  simp [read?, Decimal.parse?, notDigit, notPoint]

end Number

namespace Expr

/-- A spelled name stands for the variable of that name. -/
theorem ofWord_name {name : Name} (spelled : name.IsSpelled) :
    ofWord name.text = .read 0 (Relabelling.blank.name name) := by
  obtain ⟨isWord, unreserved⟩ := spelled.isWord
  have other {entry : String × Token.Kind} (listed : entry ∈ Token.Kind.reserved) :
      ¬ name.text = Bytes.ofString entry.1 :=
    fun same => unreserved entry listed same.symm
  have notNil := @other ("nil", .nilWord) (by decide)
  have notTrue := @other ("true", .trueWord) (by decide)
  have notFalse := @other ("false", .falseWord) (by decide)
  have notThis := @other ("this", .thisWord) (by decide)
  simp only [ofWord, Number.read?_of_isWord isWord, notNil, notTrue, notFalse, notThis, if_false]
  rfl

theorem ofParts?_unary (op : UnaryOp) (operand : Expr) :
    ofParts? op.lexeme [operand] = some (.unary op 0 operand) := by
  cases op <;> rfl

theorem ofParts?_binary (op : BinaryOp) (left right : Expr) :
    ofParts? op.lexeme [left, right] = some (.binary op 0 left right) := by
  cases op <;> rfl

theorem ofParts?_logical (op : LogicalOp) (left right : Expr) :
    ofParts? op.lexeme [left, right] = some (.logical op left right) := by
  cases op <;> rfl

end Expr

theorem Literal.expression?_written {value : Literal} (spelled : value.IsSpelled) :
    value.written.expression? = some (.literal value) := by
  cases value with
  | nil => rfl
  | bool value => cases value <;> rfl
  | number value =>
      obtain ⟨rank, finite, rfl⟩ := spelled
      have read := Number.read?_display finite
      simp only [written, Written.expression?, display, Expr.ofWord, read]
  | string text => rfl

namespace Expr

theorem expression?_name {name : Name} (spelled : name.IsSpelled) :
    (Written.word name.text).expression? = some (.read 0 (Relabelling.blank.name name)) := by
  rw [Written.expression?, ofWord_name spelled]

theorem expressions?_nil : Written.expressions? [] = some [] := rfl

theorem expressions?_cons {first : Written} {rest : List Written} {tree : Expr}
    {trees : List Expr} (read : first.expression? = some tree)
    (readRest : Written.expressions? rest = some trees) :
    Written.expressions? (first :: rest) = some (tree :: trees) := by
  rw [Written.expressions?, read, readRest]
  rfl

/-- A node is read from its head and the trees of its parts. -/
theorem expression?_node {head : Bytes} {parts : List Written} {trees : List Expr} {tree : Expr}
    (read : Written.expressions? parts = some trees) (whole : ofParts? head trees = some tree) :
    (Written.node head parts).expression? = some tree := by
  rw [Written.node, Written.expression?, read]
  exact whole

theorem expression?_node_one {head : Bytes} {part : Written} {tree whole : Expr}
    (read : part.expression? = some tree) (made : ofParts? head [tree] = some whole) :
    (Written.node head [part]).expression? = some whole :=
  expression?_node (expressions?_cons read expressions?_nil) made

theorem expression?_node_two {head : Bytes} {first second : Written} {left right whole : Expr}
    (read : first.expression? = some left) (readSecond : second.expression? = some right)
    (made : ofParts? head [left, right] = some whole) :
    (Written.node head [first, second]).expression? = some whole :=
  expression?_node (expressions?_cons read (expressions?_cons readSecond expressions?_nil)) made

mutual

/-- An expression is read back from its form. -/
theorem expression?_written : ∀ {expression : Expr}, expression.IsSpelled →
    expression.written.expression? = some (expression.relabel .blank)
  | .literal _, spelled => Literal.expression?_written spelled
  | .read _ _, spelled => expression?_name spelled
  | .assign _ _ _, ⟨name, value⟩ =>
      expression?_node_two (expression?_name name) (expression?_written value) rfl
  | .unary op _ _, operand =>
      expression?_node_one (expression?_written operand) (ofParts?_unary op _)
  | .binary op _ _ _, ⟨left, right⟩ =>
      expression?_node_two (expression?_written left) (expression?_written right)
        (ofParts?_binary op _ _)
  | .logical op _ _, ⟨left, right⟩ =>
      expression?_node_two (expression?_written left) (expression?_written right)
        (ofParts?_logical op _ _)
  | .group _, inner => expression?_node_one (expression?_written inner) rfl
  | .call _ _ _, ⟨callee, arguments⟩ =>
      expression?_node (expressions?_cons (expression?_written callee)
        (expressions?_written arguments)) rfl
  | .get _ _, ⟨object, name⟩ =>
      expression?_node_two (expression?_written object) (expression?_name name) rfl
  | .set _ _ _, ⟨object, name, value⟩ =>
      expression?_node (expressions?_cons (expression?_written object)
        (expressions?_cons (expression?_name name)
          (expressions?_cons (expression?_written value) expressions?_nil))) rfl
  | .self _ _, _ => rfl
  | .superMethod _ _ _, method => expression?_node_one (expression?_name method) rfl

theorem expressions?_written : ∀ {expressions : List Expr}, IsSpelledAll expressions →
    Written.expressions? (writtenAll expressions) = some (relabelAll .blank expressions)
  | [], _ => rfl
  | _ :: _, ⟨first, rest⟩ =>
      expressions?_cons (expression?_written first) (expressions?_written rest)

end

end Expr

theorem names?_written (names : List Name) :
    Written.names? (names.map fun name => .word name.text) =
      some (names.map Relabelling.blank.name) := by
  induction names with
  | nil => rfl
  | cons first rest inductionHypothesis =>
      rw [List.map_cons, Written.names?, inductionHypothesis]
      rfl

mutual

/-- A statement is read back from its form. -/
theorem Stmt.statement?_written : ∀ {statement : Stmt}, statement.IsSpelled →
    statement.written.statement? = some statement.bare
  | .expression _ _, value => by
      simp [Stmt.written, Written.statement?, Expr.expression?_written value, Stmt.bare]
  | .print _, value => by
      simp [Stmt.written, Written.statement?, Expr.expression?_written value, Stmt.bare]
  | .declare _ none, _ => rfl
  | .declare _ (some _), ⟨_, initial⟩ => by
      simp [Stmt.written, Written.statement?, Expr.expression?_written initial, Stmt.bare]
  | .block _, body => by
      simp [Stmt.written, Written.statement?, Stmt.statements?_written body, Stmt.bare]
  | .branch _ _ none, ⟨condition, consequence⟩ => by
      simp [Stmt.written, Written.statement?, Expr.expression?_written condition,
        Stmt.statement?_written consequence, Stmt.bare]
  | .branch _ _ (some _), ⟨condition, consequence, alternative⟩ => by
      simp [Stmt.written, Written.statement?, Expr.expression?_written condition,
        Stmt.statement?_written consequence, Stmt.statement?_written alternative, Stmt.bare]
  | .loop _ _, ⟨condition, body⟩ => by
      simp [Stmt.written, Written.statement?, Expr.expression?_written condition,
        Stmt.statement?_written body, Stmt.bare]
  | .function (.mk _ _ _), ⟨_, _, body⟩ => by
      simp [Stmt.written, Function.written, Written.statement?, names?_written,
        Stmt.statements?_written body, Stmt.bare, Function.bare]
  | .leave _ none, _ => rfl
  | .leave _ (some _), value => by
      simp [Stmt.written, Written.statement?, Expr.expression?_written value, Stmt.bare]
  | .classDecl _ none methods, ⟨_, spelled⟩ => by
      have read := Function.functions?_written spelled
      -- A method is no word, so none is taken for the sign before a superclass.
      cases methods with
      | nil => rfl
      | cons first rest =>
          cases first
          simp only [Function.writtenAll, Function.written] at read
          simp [Stmt.written, Written.statement?, Function.writtenAll, Function.written, read,
            Stmt.bare]
  | .classDecl _ (some _) _, ⟨_, _, methods⟩ => by
      simp [Stmt.written, Written.statement?, Function.functions?_written methods, Stmt.bare]

theorem Stmt.statements?_written : ∀ {statements : List Stmt}, Stmt.IsSpelledAll statements →
    Written.statements? (Stmt.writtenAll statements) = some (Stmt.bareAll statements)
  | [], _ => rfl
  | _ :: _, ⟨first, rest⟩ => by
      rw [Stmt.writtenAll, Written.statements?, Stmt.statement?_written first,
        Stmt.statements?_written rest]
      rfl

theorem Function.function?_written : ∀ {declaration : Function}, declaration.IsSpelled →
    declaration.written.function? = some declaration.bare
  | .mk _ _ _, ⟨_, _, body⟩ => by
      rw [Function.written, Written.headed, Written.node, Written.function?, names?_written,
        Stmt.statements?_written body]
      rfl

theorem Function.functions?_written : ∀ {declarations : List Function},
    Function.IsSpelledAll declarations →
      Written.functions? (Function.writtenAll declarations) =
        some (Function.bareAll declarations)
  | [], _ => rfl
  | _ :: _, ⟨first, rest⟩ => by
      rw [Function.writtenAll, Written.functions?, Function.function?_written first,
        Function.functions?_written rest]
      rfl

end

mutual

/-- What is taken from a statement is not written. -/
theorem Stmt.render_bare : ∀ statement : Stmt, statement.bare.render = statement.render
  | .expression _ _ => by simp only [Stmt.bare, Stmt.render, Expr.render_relabel]
  | .print _ => by simp only [Stmt.bare, Stmt.render, Expr.render_relabel]
  | .declare _ none => rfl
  | .declare _ (some _) => by
      simp only [Stmt.bare, Option.map_some, Stmt.render, Expr.render_relabel,
        Relabelling.name_text]
  | .block body => by simp only [Stmt.bare, Stmt.render, Stmt.renderAll_bareAll body]
  | .branch _ consequence none => by
      simp only [Stmt.bare, Stmt.render, Expr.render_relabel, Stmt.render_bare consequence]
  | .branch _ consequence (some alternative) => by
      simp only [Stmt.bare, Stmt.render, Expr.render_relabel, Stmt.render_bare consequence,
        Stmt.render_bare alternative]
  | .loop _ body => by
      simp only [Stmt.bare, Stmt.render, Expr.render_relabel, Stmt.render_bare body]
  | .function declaration => Function.render_bare declaration
  | .leave _ none => rfl
  | .leave _ (some _) => by
      simp only [Stmt.bare, Option.map_some, Stmt.render, Expr.render_relabel]
  | .classDecl _ none methods => by
      simp only [Stmt.bare, Option.map_none, Stmt.render, Function.renderAll_bareAll methods,
        Relabelling.name_text]
  | .classDecl _ (some _) methods => by
      simp only [Stmt.bare, Option.map_some, Stmt.render, Function.renderAll_bareAll methods,
        Relabelling.name_text]

theorem Stmt.renderAll_bareAll : ∀ statements : List Stmt,
    Stmt.renderAll (Stmt.bareAll statements) = Stmt.renderAll statements
  | [] => rfl
  | first :: rest => by
      simp only [Stmt.bareAll, Stmt.renderAll, Stmt.render_bare first, Stmt.renderAll_bareAll rest]

theorem Function.render_bare : ∀ declaration : Function,
    declaration.bare.render = declaration.render
  | .mk _ parameters body => by
      have texts : (parameters.map Relabelling.blank.name).map Name.text =
          parameters.map Name.text := by
        rw [List.map_map]
        rfl
      simp only [Function.bare, Function.render, Stmt.renderAll_bareAll body, texts,
        Relabelling.name_text]

theorem Function.renderAll_bareAll : ∀ declarations : List Function,
    Function.renderAll (Function.bareAll declarations) = Function.renderAll declarations
  | [] => rfl
  | first :: rest => by
      simp only [Function.bareAll, Function.renderAll, Function.render_bare first,
        Function.renderAll_bareAll rest]

end

theorem renderProgram_bareAll (statements : List Stmt) :
    renderProgram (Stmt.bareAll statements) = renderProgram statements := by
  induction statements with
  | nil => rfl
  | cons first rest inductionHypothesis =>
      rw [renderProgram] at inductionHypothesis ⊢
      rw [Stmt.bareAll, List.flatMap_cons, inductionHypothesis, Stmt.render_bare]
      rfl

theorem renderProgram_eq (statements : List Stmt) :
    renderProgram statements =
      (Stmt.writtenAll statements).flatMap fun written => written.render ++ [Bytes.lineFeed] := by
  induction statements with
  | nil => rfl
  | cons first rest inductionHypothesis =>
      rw [renderProgram] at inductionHypothesis ⊢
      rw [Stmt.writtenAll, List.flatMap_cons, List.flatMap_cons, inductionHypothesis,
        Stmt.render_written]

/-- Spelled programs with the same text are the same but for what is not written. -/
theorem bareAll_eq_of_renderProgram {first second : List Stmt}
    (spelled : Stmt.IsSpelledAll first) (otherSpelled : Stmt.IsSpelledAll second)
    (same : renderProgram first = renderProgram second) :
    Stmt.bareAll first = Stmt.bareAll second := by
  rw [renderProgram_eq, renderProgram_eq] at same
  have forms := Written.unique_lines (Stmt.isProperAll_written spelled)
    (Stmt.isProperAll_written otherSpelled) same
  have read := Stmt.statements?_written spelled
  rw [forms, Stmt.statements?_written otherSpelled] at read
  exact (Option.some.inj read).symm

/-- The written form of a program keeps its whole structure.  Programs parsed without errors
from sources in which no numeral is beyond the greatest double have the same text exactly if
they are the same apart from identities, lines and echo marks. -/
theorem renderProgram_parse_eq_iff {source other : Bytes} {nextId otherId : RefId}
    (silent : (parse (scan source).tokens nextId).errors = [])
    (otherSilent : (parse (scan other).tokens otherId).errors = [])
    (finite : ∀ token ∈ (scan source).tokens, ¬ token.Overflows)
    (otherFinite : ∀ token ∈ (scan other).tokens, ¬ token.Overflows) :
    renderProgram (parse (scan source).tokens nextId).statements =
        renderProgram (parse (scan other).tokens otherId).statements ↔
      Stmt.bareAll (parse (scan source).tokens nextId).statements =
        Stmt.bareAll (parse (scan other).tokens otherId).statements := by
  constructor
  · exact bareAll_eq_of_renderProgram (isSpelled_parse finite silent)
      (isSpelled_parse otherFinite otherSilent)
  · intro same
    rw [← renderProgram_bareAll, same, renderProgram_bareAll]

/-- Two loops on other lines, one of which shows the value of its last statement. -/
theorem renderProgram_parse_eq_iff_loops :
    let source := Bytes.ofString "for (;; g(1.50)) f(-a);"
    let other := Bytes.ofString "while (true) \x7b f(-a);\n g(1.5); \x7d"
    (parse (scan source).tokens 0).errors = [] ∧ (parse (scan other).tokens 7).errors = [] ∧
      (∀ token ∈ (scan source).tokens, ¬ token.Overflows) ∧
      (∀ token ∈ (scan other).tokens, ¬ token.Overflows) ∧
      Stmt.bareAll (parse (scan source).tokens 0).statements =
        Stmt.bareAll (parse (scan other).tokens 7).statements := by
  intro source other
  have silent : (parse (scan source).tokens 0).errors = [] := by decide +kernel
  have otherSilent : (parse (scan other).tokens 7).errors = [] := by decide +kernel
  have finite : ∀ token ∈ (scan source).tokens, ¬ token.Overflows := by decide +kernel
  have otherFinite : ∀ token ∈ (scan other).tokens, ¬ token.Overflows := by decide +kernel
  have same : renderProgram (parse (scan source).tokens 0).statements =
      renderProgram (parse (scan other).tokens 7).statements := by
    decide +kernel
  exact ⟨silent, otherSilent, finite, otherFinite,
    (renderProgram_parse_eq_iff silent otherSilent finite otherFinite).mp same⟩

end LoxLang
