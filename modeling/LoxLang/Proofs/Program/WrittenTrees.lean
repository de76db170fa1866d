import LoxLang.Proofs.Program.Spelling
import LoxLang.Proofs.Program.Written

/-!
Trees as written forms.  The text of a tree is that of a form, and the form of a spelled
tree can be told from what is around it.
-/

namespace LoxLang

def Literal.written : Literal → Written
  | .string text => .quoted text
  | other => .word other.display

namespace Expr

mutual

def written : Expr → Written
  | .literal value => value.written
  | .read _ name => .word name.text
  | .assign _ name value => .node (Bytes.ofString "=") [.word name.text, value.written]
  | .unary op _ operand => .node op.lexeme [operand.written]
  | .binary op _ left right => .node op.lexeme [left.written, right.written]
  | .logical op left right => .node op.lexeme [left.written, right.written]
  | .group inner => .node (Bytes.ofString "group") [inner.written]
  | .call callee arguments _ =>
      .node (Bytes.ofString "call") (callee.written :: writtenAll arguments)
  | .get object name => .node (Bytes.ofString ".") [object.written, .word name.text]
  | .set object name value =>
      .node (Bytes.ofString "=") [object.written, .word name.text, value.written]
  | .self .. => .word (Bytes.ofString "this")
  | .superMethod _ _ method => .node (Bytes.ofString "super") [.word method.text]

def writtenAll : List Expr → List Written
  | [] => []
  | first :: rest => first.written :: writtenAll rest

end

end Expr

/-- The heads of statements. -/
inductive Stmt.Head where
  | expression | print | declare | block | branch | branchElse | loop | function | leave
  | classDecl
deriving DecidableEq

namespace Stmt.Head

def text : Stmt.Head → Bytes
  | .expression => Bytes.ofString ";"
  | .print => Bytes.ofString "print"
  | .declare => Bytes.ofString "var"
  | .block => Bytes.ofString "block"
  | .branch => Bytes.ofString "if"
  | .branchElse => Bytes.ofString "if-else"
  | .loop => Bytes.ofString "while"
  | .function => Bytes.ofString "fun"
  | .leave => Bytes.ofString "return"
  | .classDecl => Bytes.ofString "class"

def all : List Stmt.Head :=
  [.expression, .print, .declare, .block, .branch, .branchElse, .loop, .function, .leave,
    .classDecl]

def ofText? (text : Bytes) : Option Stmt.Head :=
  all.find? fun head => head.text == text

@[simp]
theorem ofText?_text (head : Stmt.Head) : ofText? head.text = some head := by
  cases head <;> rfl

end Stmt.Head

/-- A statement's head and what it is the head of. -/
abbrev Written.headed (head : Stmt.Head) (parts : List Written) : Written :=
  .node head.text parts

mutual

def Stmt.written : Stmt → Written
  | .expression value _ => .headed .expression [value.written]
  | .print value => .headed .print [value.written]
  | .declare name none => .headed .declare [.word name.text]
  | .declare name (some initial) =>
      .headed .declare [.word name.text, .word (Bytes.ofString "="), initial.written]
  | .block body => .headed .block (Stmt.writtenAll body)
  | .branch condition consequence none =>
      .headed .branch [condition.written, consequence.written]
  | .branch condition consequence (some alternative) =>
      .headed .branchElse [condition.written, consequence.written, alternative.written]
  | .loop condition body => .headed .loop [condition.written, body.written]
  | .function declaration => declaration.written
  | .leave _ none => .headed .leave []
  | .leave _ (some value) => .headed .leave [value.written]
  | .classDecl name none methods =>
      .headed .classDecl (.word name.text :: Function.writtenAll methods)
  | .classDecl name (some (_, superclass)) methods =>
      .headed .classDecl
        (.word name.text :: .word (Bytes.ofString "<") :: .word superclass.text ::
          Function.writtenAll methods)

def Stmt.writtenAll : List Stmt → List Written
  | [] => []
  | first :: rest => first.written :: Stmt.writtenAll rest

def Function.written : Function → Written
  | .mk name parameters body =>
      .headed .function
        (.word name.text :: .list (parameters.map fun name => .word name.text) ::
          Stmt.writtenAll body)

def Function.writtenAll : List Function → List Written
  | [] => []
  | first :: rest => first.written :: Function.writtenAll rest

end

@[simp]
theorem Literal.render_written (value : Literal) : value.written.render = value.render := by
  cases value <;> rfl

namespace Expr

mutual

theorem render_written : ∀ expression : Expr, expression.written.render = expression.render
  | .literal value => value.render_written
  | .read _ _ => rfl
  | .assign _ _ value => by
      simp [written, render, render_written value]
  | .unary _ _ operand => by
      simp [written, render, render_written operand]
  | .binary _ _ left right => by
      simp [written, render, render_written left, render_written right]
  | .logical _ left right => by
      simp [written, render, render_written left, render_written right]
  | .group inner => by simp [written, render, render_written inner]
  | .call callee arguments _ => by
      simp [written, render, render_written callee,
        map_render_writtenAll arguments]
  | .get object _ => by
      simp [written, render, render_written object]
  | .set object _ value => by
      simp [written, render, render_written object,
        render_written value]
  | .self _ _ => rfl
  | .superMethod _ _ _ => by simp [written, render]

theorem map_render_writtenAll : ∀ expressions : List Expr,
    (writtenAll expressions).map Written.render = renderAll expressions
  | [] => rfl
  | first :: rest => by
      simp [writtenAll, renderAll, render_written first, map_render_writtenAll rest]

end

end Expr

theorem intercalate_cons (separator first : Bytes) (rest : List Bytes) :
    separator.intercalate (first :: rest) = first ++ rest.flatMap (separator ++ ·) := by
  induction rest generalizing first with
  | nil => rw [List.intercalate_singleton, List.flatMap_nil, List.append_nil]
  | cons second others inductionHypothesis =>
      rw [List.intercalate_cons_cons, inductionHypothesis, List.flatMap_cons]
      simp only [List.append_assoc]

/-- Names in parentheses. -/
theorem Written.render_names (names : List Name) :
    (list (names.map fun name => .word name.text)).render =
      Bytes.ofString "(" ++ (Bytes.ofString " ").intercalate (names.map Name.text) ++
        Bytes.ofString ")" := by
  cases names with
  | nil => rfl
  | cons first rest =>
      rw [render, List.map_cons, renderItems, renderRest_eq, List.map_cons, intercalate_cons,
        List.map_map]
      simp only [opening, closing, render_word, ← List.append_assoc, Function.comp_def]
      rfl

mutual

theorem Stmt.render_written : ∀ statement : Stmt, statement.written.render = statement.render
  | .expression value _ => by
      simp [Stmt.written, Stmt.render, Stmt.Head.text, value.render_written]
  | .print value => by
      simp [Stmt.written, Stmt.render, Stmt.Head.text, value.render_written]
  | .declare _ none => by
      simp [Stmt.written, Stmt.render, Stmt.Head.text]
  | .declare _ (some initial) => by
      simp [Stmt.written, Stmt.render, Stmt.Head.text,
        initial.render_written]
  | .block body => by
      simp [Stmt.written, Stmt.render, Stmt.Head.text,
        Stmt.map_render_writtenAll body]
  | .branch condition consequence none => by
      simp [Stmt.written, Stmt.render, Stmt.Head.text,
        condition.render_written, Stmt.render_written consequence]
  | .branch condition consequence (some alternative) => by
      simp [Stmt.written, Stmt.render, Stmt.Head.text,
        condition.render_written, Stmt.render_written consequence,
        Stmt.render_written alternative]
  | .loop condition body => by
      simp [Stmt.written, Stmt.render, Stmt.Head.text,
        condition.render_written, Stmt.render_written body]
  | .function declaration => by
      simp [Stmt.written, Stmt.render, Function.render_written declaration]
  | .leave _ none => by
      simp [Stmt.written, Stmt.render, Stmt.Head.text]
  | .leave _ (some value) => by
      simp [Stmt.written, Stmt.render, Stmt.Head.text, value.render_written]
  | .classDecl _ none methods => by
      simp [Stmt.written, Stmt.render, Stmt.Head.text,
        Function.map_render_writtenAll methods]
  | .classDecl _ (some _) methods => by
      simp [Stmt.written, Stmt.render, Stmt.Head.text,
        Function.map_render_writtenAll methods]

theorem Stmt.map_render_writtenAll : ∀ statements : List Stmt,
    (Stmt.writtenAll statements).map Written.render = Stmt.renderAll statements
  | [] => rfl
  | first :: rest => by
      simp [Stmt.writtenAll, Stmt.renderAll, Stmt.render_written first,
        Stmt.map_render_writtenAll rest]

theorem Function.render_written : ∀ declaration : Function,
    declaration.written.render = declaration.render
  | .mk name parameters body => by
      rw [Function.written, Written.headed, Written.render_node, List.map_cons, List.map_cons,
        Written.render_names, Stmt.map_render_writtenAll body]
      rfl

theorem Function.map_render_writtenAll : ∀ declarations : List Function,
    (Function.writtenAll declarations).map Written.render = Function.renderAll declarations
  | [] => rfl
  | first :: rest => by
      simp [Function.writtenAll, Function.renderAll, Function.render_written first,
        Function.map_render_writtenAll rest]

end

namespace Written

theorem isPlain_of_isWordByte : ∀ byte : UInt8, Bytes.isWordByte byte = true →
    isPlain byte = true :=
  Chunk.forall_byte (by decide +kernel)

theorem isPlain_of_isDigit {byte : UInt8} (digit : Bytes.isDigit byte = true) :
    isPlain byte = true :=
  isPlain_of_isWordByte byte (by rw [Bytes.isWordByte, digit, Bool.or_true])

/-- A numeral is plain. -/
theorem isPlainText_of_parse? {text : Bytes} {number : Decimal}
    (found : Decimal.parse? text = some number) : IsPlainText text := by
  have whole := List.takeWhile_append_dropWhile (p := Bytes.isDigit) (l := text)
  have digits : ∀ byte ∈ text.takeWhile Bytes.isDigit, isPlain byte = true :=
    fun byte member => isPlain_of_isDigit (List.mem_takeWhile_imp member)
  unfold Decimal.parse? at found
  dsimp only at found
  split at found
  · next nothing =>
      rw [nothing, List.append_nil] at whole
      rw [whole] at found digits
      refine ⟨?_, digits⟩
      rintro rfl
      cases found
  · next point fraction ahead =>
      split at found
      · next accepted =>
          simp only [Bool.and_eq_true, beq_iff_eq, List.all_eq_true] at accepted
          obtain ⟨⟨rfl, others⟩, -⟩ := accepted
          rw [← whole, ahead]
          refine ⟨by simp, fun byte member => ?_⟩
          rcases List.mem_append.mp member with inWhole | inRest
          · exact digits byte inWhole
          · rcases List.mem_cons.mp inRest with rfl | inFraction
            · decide
            · exact isPlain_of_isDigit (others byte inFraction)
      · cases found

end Written

/-- A spelled name is a word that is not reserved. -/
theorem Name.IsSpelled.isWord {name : Name} (spelled : name.IsSpelled) :
    IsWord name.text ∧ ∀ entry ∈ Token.Kind.reserved, Bytes.ofString entry.1 ≠ name.text := by
  have marks : ∀ mark ∈ operators, mark.2 ≠ .identifier := by decide
  have words : ∀ entry ∈ Token.Kind.reserved, entry.2 ≠ .identifier := by decide
  unfold Name.IsSpelled at spelled
  generalize name.text = text at spelled
  cases spelled with
  | operator listed => exact absurd rfl (marks _ listed)
  | reserved listed => exact absurd rfl (words _ listed)
  | identifier isWord unreserved => exact ⟨isWord, unreserved⟩

theorem Name.IsSpelled.isPlainText {name : Name} (spelled : name.IsSpelled) :
    Written.IsPlainText name.text := by
  have isWord := spelled.isWord.1
  refine ⟨?_, fun byte member => Written.isPlain_of_isWordByte byte (Chunk.IsWord.passes isWord byte member)⟩
  obtain ⟨first, rest, spelling, -⟩ := isWord
  rw [spelling]
  exact List.cons_ne_nil first rest

theorem Literal.isProper_written {value : Literal} (spelled : value.IsSpelled) :
    value.written.IsProper := by
  cases value with
  | nil =>
      have plain : Written.IsPlainText (Bytes.ofString "nil") := by decide
      exact plain
  | bool value =>
      have plain : ∀ value, Written.IsPlainText (Literal.bool value).display := by decide
      exact plain value
  | number value =>
      obtain ⟨rank, finite, rfl⟩ := spelled
      obtain ⟨number, found, -⟩ := Number.exists_parse?_magnitude (Nat.le_of_lt finite)
      rw [← Number.display_toFloat finite] at found
      exact Written.isPlainText_of_parse? found
  | string text => exact spelled

theorem Written.isPlainText_fixed : ∀ text ∈ ["=", "group", "call", ".", "super", "this", "<"],
    IsPlainText (Bytes.ofString text) := by
  decide

theorem UnaryOp.isPlainText_lexeme (op : UnaryOp) : Written.IsPlainText op.lexeme := by
  cases op <;> decide

theorem BinaryOp.isPlainText_lexeme (op : BinaryOp) : Written.IsPlainText op.lexeme := by
  cases op <;> decide

theorem LogicalOp.isPlainText_lexeme (op : LogicalOp) : Written.IsPlainText op.lexeme := by
  cases op <;> decide

theorem Stmt.Head.isPlainText_text (head : Stmt.Head) : Written.IsPlainText head.text := by
  cases head <;> decide

theorem Written.isProper_headed (head : Stmt.Head) {parts : List Written}
    (proper : IsProperAll parts) : (headed head parts).IsProper :=
  ⟨head.isPlainText_text, proper⟩

namespace Expr

/-! A node is proper if its head is plain and its parts are proper. -/

mutual

theorem isProper_written : ∀ {expression : Expr}, expression.IsSpelled →
    expression.written.IsProper
  | .literal _, spelled => Literal.isProper_written spelled
  | .read _ _, spelled => spelled.isPlainText
  | .assign _ _ _, ⟨name, value⟩ =>
      ⟨Written.isPlainText_fixed _ (by decide), name.isPlainText, isProper_written value, trivial⟩
  | .unary op _ _, spelled => ⟨op.isPlainText_lexeme, isProper_written spelled, trivial⟩
  | .binary op _ _ _, ⟨left, right⟩ =>
      ⟨op.isPlainText_lexeme, isProper_written left, isProper_written right, trivial⟩
  | .logical op _ _, ⟨left, right⟩ =>
      ⟨op.isPlainText_lexeme, isProper_written left, isProper_written right, trivial⟩
  | .group _, spelled => ⟨Written.isPlainText_fixed _ (by decide), isProper_written spelled, trivial⟩
  | .call _ _ _, ⟨callee, arguments⟩ =>
      ⟨Written.isPlainText_fixed _ (by decide), isProper_written callee, isProperAll_written arguments⟩
  | .get _ _, ⟨object, name⟩ =>
      ⟨Written.isPlainText_fixed _ (by decide), isProper_written object, name.isPlainText, trivial⟩
  | .set _ _ _, ⟨object, name, value⟩ =>
      ⟨Written.isPlainText_fixed _ (by decide), isProper_written object, name.isPlainText, isProper_written value, trivial⟩
  | .self _ _, _ => Written.isPlainText_fixed _ (by decide)
  | .superMethod _ _ _, spelled => ⟨Written.isPlainText_fixed _ (by decide), spelled.isPlainText, trivial⟩

theorem isProperAll_written : ∀ {expressions : List Expr}, IsSpelledAll expressions →
    Written.IsProperAll (writtenAll expressions)
  | [], _ => trivial
  | _ :: _, ⟨first, rest⟩ => ⟨isProper_written first, isProperAll_written rest⟩

end

end Expr

theorem isProperAll_names {names : List Name} (spelled : ∀ name ∈ names, name.IsSpelled) :
    Written.IsProperAll (names.map fun name => .word name.text) := by
  induction names with
  | nil => trivial
  | cons first rest inductionHypothesis =>
      obtain ⟨name, others⟩ := List.forall_mem_cons.mp spelled
      exact ⟨name.isPlainText, inductionHypothesis others⟩

mutual

/-- The form of a spelled tree is told from what is around it. -/
theorem Stmt.isProper_written : ∀ {statement : Stmt}, statement.IsSpelled →
    statement.written.IsProper
  | .expression _ _, spelled =>
      Written.isProper_headed .expression ⟨Expr.isProper_written spelled, trivial⟩
  | .print _, spelled => Written.isProper_headed .print ⟨Expr.isProper_written spelled, trivial⟩
  | .declare _ none, spelled => Written.isProper_headed .declare ⟨spelled.isPlainText, trivial⟩
  | .declare _ (some _), ⟨name, initial⟩ =>
      Written.isProper_headed .declare ⟨name.isPlainText, Written.isPlainText_fixed _ (by decide), Expr.isProper_written initial,
        trivial⟩
  | .block _, spelled => Written.isProper_headed .block (Stmt.isProperAll_written spelled)
  | .branch _ _ none, ⟨condition, consequence⟩ =>
      Written.isProper_headed .branch ⟨Expr.isProper_written condition,
        Stmt.isProper_written consequence, trivial⟩
  | .branch _ _ (some _), ⟨condition, consequence, alternative⟩ =>
      Written.isProper_headed .branchElse ⟨Expr.isProper_written condition,
        Stmt.isProper_written consequence, Stmt.isProper_written alternative, trivial⟩
  | .loop _ _, ⟨condition, body⟩ =>
      Written.isProper_headed .loop ⟨Expr.isProper_written condition, Stmt.isProper_written body,
        trivial⟩
  | .function _, spelled => Function.isProper_written spelled
  | .leave _ none, _ => Written.isProper_headed .leave trivial
  | .leave _ (some _), spelled =>
      Written.isProper_headed .leave ⟨Expr.isProper_written spelled, trivial⟩
  | .classDecl _ none _, ⟨name, methods⟩ =>
      Written.isProper_headed .classDecl ⟨name.isPlainText, Function.isProperAll_written methods⟩
  | .classDecl _ (some _) _, ⟨name, superclass, methods⟩ =>
      Written.isProper_headed .classDecl ⟨name.isPlainText, Written.isPlainText_fixed _ (by decide), superclass.isPlainText,
        Function.isProperAll_written methods⟩

theorem Stmt.isProperAll_written : ∀ {statements : List Stmt}, Stmt.IsSpelledAll statements →
    Written.IsProperAll (Stmt.writtenAll statements)
  | [], _ => trivial
  | _ :: _, ⟨first, rest⟩ => ⟨Stmt.isProper_written first, Stmt.isProperAll_written rest⟩

theorem Function.isProper_written : ∀ {declaration : Function}, declaration.IsSpelled →
    declaration.written.IsProper
  | .mk _ _ _, ⟨name, parameters, body⟩ =>
      Written.isProper_headed .function ⟨name.isPlainText, isProperAll_names parameters,
        Stmt.isProperAll_written body⟩

theorem Function.isProperAll_written : ∀ {declarations : List Function},
    Function.IsSpelledAll declarations → Written.IsProperAll (Function.writtenAll declarations)
  | [], _ => trivial
  | _ :: _, ⟨first, rest⟩ =>
      ⟨Function.isProper_written first, Function.isProperAll_written rest⟩

end

end LoxLang
