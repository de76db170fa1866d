import LoxLang.Proofs.Program.Alike
import LoxLang.Proofs.Scope.Once
import LoxLang.Proofs.Scope.Sound

/-!
Renaming a local variable.  The scope that declares the variable is followed through
the tree by its distance: a reference is renamed when it has the old name and the
record leads to that scope.  A tree with one variable renamed is alike the tree
before, if the new name is nowhere in it and the scope declares the old name as a
variable only.
-/

namespace LoxLang

open Scope

/-- A new name for a variable, and the record that tells which references are its
own. -/
structure Renaming where
  table : Resolution
  old : Bytes
  new : Bytes

namespace Renaming

variable (change : Renaming)

/-- A name that is declared at a distance from the scope of the variable. -/
def declaration (depth : Nat) (name : Name) : Name :=
  if depth = 0 ∧ name.text = change.old then ⟨change.new, name.line⟩ else name

/-- A name that is looked up at a distance from the scope of the variable. -/
def reference (depth : Nat) (id : RefId) (name : Name) : Name :=
  if name.text = change.old ∧ change.table[id]? = some depth then ⟨change.new, name.line⟩ else name

end Renaming

namespace Expr

mutual

def rename (change : Renaming) (depth : Nat) : Expr → Expr
  | .literal value => .literal value
  | .read id name => .read id (change.reference depth id name)
  | .assign id name value =>
      .assign id (change.reference depth id name) (value.rename change depth)
  | .unary op line operand => .unary op line (operand.rename change depth)
  | .binary op line left right =>
      .binary op line (left.rename change depth) (right.rename change depth)
  | .logical op left right =>
      .logical op (left.rename change depth) (right.rename change depth)
  | .group inner => .group (inner.rename change depth)
  | .call callee arguments line =>
      .call (callee.rename change depth) (renameAll change depth arguments) line
  | .get object name => .get (object.rename change depth) name
  | .set object name value =>
      .set (object.rename change depth) name (value.rename change depth)
  | .self id line => .self id line
  | .superMethod id line method => .superMethod id line method

def renameAll (change : Renaming) (depth : Nat) : List Expr → List Expr
  | [] => []
  | first :: rest => first.rename change depth :: renameAll change depth rest

end

end Expr

mutual

/-- Rename a variable of the scope at a distance. -/
def Stmt.rename (change : Renaming) (depth : Nat) : Stmt → Stmt
  | .expression value echo => .expression (value.rename change depth) echo
  | .print value => .print (value.rename change depth)
  | .declare name initial =>
      .declare (change.declaration depth name) (initial.map (Expr.rename change depth))
  | .block body => .block (Stmt.renameAll change (depth + 1) body)
  | .branch condition consequence none =>
      .branch (condition.rename change depth) (consequence.rename change depth) none
  | .branch condition consequence (some alternative) =>
      .branch (condition.rename change depth) (consequence.rename change depth)
        (some (alternative.rename change depth))
  | .loop condition body => .loop (condition.rename change depth) (body.rename change depth)
  | .function declaration => .function (declaration.rename change depth)
  | .leave line value => .leave line (value.map (Expr.rename change depth))
  | .classDecl name none methods =>
      .classDecl name none (Function.renameAll change (depth + 1) methods)
  | .classDecl name (some (id, parent)) methods =>
      .classDecl name (some (id, change.reference depth id parent))
        (Function.renameAll change (depth + 2) methods)

def Stmt.renameAll (change : Renaming) (depth : Nat) : List Stmt → List Stmt
  | [] => []
  | first :: rest => first.rename change depth :: Stmt.renameAll change depth rest

def Function.rename (change : Renaming) (depth : Nat) : Function → Function
  | .mk name parameters body => .mk name parameters (Stmt.renameAll change (depth + 1) body)

def Function.renameAll (change : Renaming) (depth : Nat) : List Function → List Function
  | [] => []
  | first :: rest => first.rename change depth :: Function.renameAll change depth rest

end

/-- Rename a parameter, or a variable of the body of a function. -/
def Function.renameLocal (change : Renaming) : Function → Function
  | .mk name parameters body =>
      .mk name (parameters.map (change.declaration 0)) (Stmt.renameAll change 0 body)

mutual

/-- One variable of a block, or one parameter or variable of a function, is renamed in
a statement, wherever it is declared. -/
inductive Stmt.Renames (change : Renaming) : Stmt → Stmt → Prop where
  | scope {body : List Stmt} {name : Name} {initial : Option Expr} :
      .declare name initial ∈ body → name.text = change.old →
        Stmt.Renames change (.block body) (.block (Stmt.renameAll change 0 body))
  | block {body other : List Stmt} :
      Stmt.RenamesAll change body other → Stmt.Renames change (.block body) (.block other)
  | consequence {condition : Expr} {consequence other : Stmt} {alternative : Option Stmt} :
      Stmt.Renames change consequence other →
        Stmt.Renames change (.branch condition consequence alternative)
          (.branch condition other alternative)
  | alternative {condition : Expr} {consequence alternative other : Stmt} :
      Stmt.Renames change alternative other →
        Stmt.Renames change (.branch condition consequence (some alternative))
          (.branch condition consequence (some other))
  | loop {condition : Expr} {body other : Stmt} :
      Stmt.Renames change body other →
        Stmt.Renames change (.loop condition body) (.loop condition other)
  | function {declaration other : Function} :
      Function.Renames change declaration other →
        Stmt.Renames change (.function declaration) (.function other)
  | classDecl {name : Name} {superclass : Option (RefId × Name)} {methods others : List Function} :
      Function.RenamesAll change methods others →
        Stmt.Renames change (.classDecl name superclass methods)
          (.classDecl name superclass others)

inductive Stmt.RenamesAll (change : Renaming) : List Stmt → List Stmt → Prop where
  | head {first other : Stmt} {rest : List Stmt} :
      Stmt.Renames change first other → Stmt.RenamesAll change (first :: rest) (other :: rest)
  | tail {first : Stmt} {rest others : List Stmt} :
      Stmt.RenamesAll change rest others →
        Stmt.RenamesAll change (first :: rest) (first :: others)

inductive Function.Renames (change : Renaming) : Function → Function → Prop where
  | scope {declaration : Function} :
      declaration.DeclaresVariable change.old →
        Function.Renames change declaration (declaration.renameLocal change)
  | body {name : Name} {parameters : List Name} {body other : List Stmt} :
      Stmt.RenamesAll change body other →
        Function.Renames change (.mk name parameters body) (.mk name parameters other)

inductive Function.RenamesAll (change : Renaming) : List Function → List Function → Prop where
  | head {first other : Function} {rest : List Function} :
      Function.Renames change first other →
        Function.RenamesAll change (first :: rest) (other :: rest)
  | tail {first : Function} {rest others : List Function} :
      Function.RenamesAll change rest others →
        Function.RenamesAll change (first :: rest) (first :: others)

end

theorem Function.Renames.name_eq {change : Renaming} {declaration renamed : Function}
    (renames : Function.Renames change declaration renamed) :
    renamed.name = declaration.name := by
  cases renames with
  | scope _ =>
      obtain ⟨name, parameters, body⟩ := declaration
      rfl
  | body _ => rfl

/-- References that keep their identity and are spelled as the scope that holds them
says; tokens that keep their line. -/
def Likeness.spelled (table : Resolution) : Likeness where
  tokens token image := image.line = token.line
  links around id text otherId otherText :=
    otherId = id ∧
      (∀ distance, table[id]? = some distance → otherText = (around distance).spell text) ∧
        (table[id]? = none → otherText = text)

section Same

variable (table : Resolution)

theorem Likeness.spelled_admits (tokens : List Token) (references : List Reference) :
    (spelled table).Admits (.renumber fun id => id) tokens references :=
  ⟨fun _ _ => rfl, fun _ _ => ⟨rfl, fun _ _ => rfl, fun _ => rfl⟩⟩

theorem Expr.alike_spelled (expression : Expr) :
    expression.Alike (.spelled table) .same expression := by
  have alike := expression.alike_relabel (Likeness.spelled_admits table _ _)
  rw [expression.relabel_eq_self fun _ _ => rfl] at alike
  exact alike

theorem Stmt.alike_spelled (statement : Stmt) :
    Stmt.Alike (.spelled table) .same statement statement := by
  have alike := statement.alike_relabel (Likeness.spelled_admits table _ _)
  rw [statement.relabel_eq_self fun _ _ => rfl] at alike
  exact alike

theorem Stmt.alikeAll_spelled (statements : List Stmt) :
    Stmt.AlikeAll (.spelled table) .same statements statements := by
  have alike := Stmt.alikeAll_relabelAll statements (Likeness.spelled_admits table _ _)
  rw [Stmt.relabelAll_eq_self statements fun _ _ => rfl] at alike
  exact alike

theorem Function.alike_spelled (declaration : Function) :
    Function.Alike (.spelled table) .same declaration declaration := by
  have alike := declaration.alike_relabel (Likeness.spelled_admits table _ _)
  rw [declaration.relabel_eq_self fun _ _ => rfl] at alike
  exact alike

theorem Function.alikeAll_spelled (declarations : List Function) :
    Function.AlikeAll (.spelled table) .same declarations declarations := by
  have alike := Function.alikeAll_relabelAll declarations (Likeness.spelled_admits table _ _)
  rw [Function.relabelAll_eq_self declarations fun _ _ => rfl] at alike
  exact alike

end Same

namespace Renaming

variable {change : Renaming}

/-- The new name is nowhere among the tokens. -/
def IsFreshIn (change : Renaming) (tokens : List Token) : Prop :=
  ∀ token ∈ tokens, token.lexeme ≠ change.new

namespace IsFreshIn

variable {token : Token} {first second : List Token}

theorem left (fresh : change.IsFreshIn (first ++ second)) : change.IsFreshIn first :=
  fun token member => fresh token (List.mem_append_left _ member)

theorem right (fresh : change.IsFreshIn (first ++ second)) : change.IsFreshIn second :=
  fun token member => fresh token (List.mem_append_right _ member)

theorem head (fresh : change.IsFreshIn (token :: second)) : token.lexeme ≠ change.new :=
  fresh token List.mem_cons_self

theorem tail (fresh : change.IsFreshIn (token :: second)) : change.IsFreshIn second :=
  fun token member => fresh token (List.mem_cons_of_mem _ member)

end IsFreshIn

/-- The two names in each other's place. -/
def exchange (change : Renaming) (text : Bytes) : Bytes :=
  if text = change.old then change.new else if text = change.new then change.old else text

@[simp]
theorem exchange_old (change : Renaming) : change.exchange change.old = change.new :=
  if_pos rfl

theorem exchange_new (change : Renaming) : change.exchange change.new = change.old := by
  unfold exchange
  split
  · next same => exact same
  · exact if_pos rfl

theorem exchange_of_ne {text : Bytes} (notOld : text ≠ change.old) (notNew : text ≠ change.new) :
    change.exchange text = text := by
  rw [exchange, if_neg notOld, if_neg notNew]

theorem exchange_exchange (change : Renaming) (text : Bytes) :
    change.exchange (change.exchange text) = text := by
  by_cases isOld : text = change.old
  · rw [isOld, exchange_old, exchange_new]
  by_cases isNew : text = change.new
  · rw [isNew, exchange_new, exchange_old]
  rw [exchange_of_ne isOld isNew, exchange_of_ne isOld isNew]

theorem exchange_injective {first second : Bytes}
    (same : change.exchange first = change.exchange second) : first = second := by
  rw [← change.exchange_exchange first, same, exchange_exchange]

theorem declaration_text_here {name : Name} (fresh : name.text ≠ change.new) :
    (change.declaration 0 name).text = change.exchange name.text := by
  by_cases isOld : name.text = change.old
  · rw [declaration, if_pos ⟨rfl, isOld⟩, isOld, exchange_old]
  · rw [declaration, if_neg fun holds => isOld holds.2, exchange_of_ne isOld fresh]

theorem declaration_within (depth : Nat) (name : Name) :
    change.declaration (depth + 1) name = name :=
  if_neg fun holds => Nat.succ_ne_zero depth holds.1

theorem declaration_of_ne {depth : Nat} {name : Name}
    (kept : depth = 0 → name.text ≠ change.old) : change.declaration depth name = name :=
  if_neg fun holds => kept holds.1 holds.2

/-- Both names are ones that a program can declare. -/
structure IsProper (change : Renaming) : Prop where
  old : IsOrdinary change.old
  new : IsOrdinary change.new

/-- The spelling of the scope whose variable is renamed. -/
def spelling (proper : change.IsProper) : Spelling where
  spell := change.exchange
  distinct := exchange_injective
  this := exchange_of_ne (Ne.symm proper.old.1) (Ne.symm proper.new.1)
  super := exchange_of_ne (Ne.symm proper.old.2) (Ne.symm proper.new.2)

/-- The spellings at a distance from that scope. -/
def around (proper : change.IsProper) (depth : Nat) : Spellings :=
  fun distance => if distance = depth then spelling proper else .same

variable (proper : change.IsProper)

theorem same_enter_spelling : Spellings.same.enter (spelling proper) = around proper 0 := by
  funext distance
  cases distance <;> rfl

theorem around_enter_same (depth : Nat) :
    (around proper depth).enter .same = around proper (depth + 1) := by
  funext distance
  cases distance with
  | zero => exact (if_neg (Nat.succ_ne_zero depth).symm).symm
  | succ distance =>
      simp only [Spellings.enter, around, Nat.add_right_cancel_iff]

theorem declaration_text {depth : Nat} {name : Name} (fresh : name.text ≠ change.new) :
    (change.declaration depth name).text = ((around proper depth) 0).spell name.text := by
  cases depth with
  | zero => exact declaration_text_here fresh
  | succ depth =>
      rw [declaration_within, around, if_neg (Nat.succ_ne_zero depth).symm]
      rfl

theorem isKept {depth : Nat} {name : Name} (fresh : name.text ≠ change.new)
    (kept : depth = 0 → name.text ≠ change.old) : name.IsKept (around proper depth) name := by
  refine ⟨rfl, ?_⟩
  cases depth with
  | zero => exact exchange_of_ne (kept rfl) fresh
  | succ depth =>
      rw [around, if_neg (Nat.succ_ne_zero depth).symm]
      rfl

/-- A renamed reference is spelled as the scope that holds it says. -/
theorem link_reference (depth : Nat) (id : RefId) {name : Name} (fresh : name.text ≠ change.new) :
    (Likeness.spelled change.table).links (around proper depth) id name.text id
      (change.reference depth id name).text := by
  refine ⟨rfl, fun distance recorded => ?_, fun absent => ?_⟩
  · unfold reference around
    rw [recorded]
    by_cases here : distance = depth
    · subst here
      rw [if_pos rfl]
      by_cases isOld : name.text = change.old
      · rw [if_pos ⟨isOld, rfl⟩, isOld]
        exact change.exchange_old.symm
      · rw [if_neg fun holds => isOld holds.1]
        exact (exchange_of_ne isOld fresh).symm
    · rw [if_neg here, if_neg fun holds => here (Option.some.inj holds.2)]
      rfl
  · unfold reference
    rw [absent, if_neg fun holds => nomatch holds.2]

/-- A receiver or a superclass is looked up under its own name. -/
theorem link_same {text : Bytes} (kept : ∀ spelling : Spelling, spelling.spell text = text)
    (depth : Nat) (id : RefId) :
    (Likeness.spelled change.table).links (around proper depth) id text id text :=
  ⟨rfl, fun _ _ => (kept _).symm, fun _ => rfl⟩

theorem reference_line (depth : Nat) (id : RefId) (name : Name) :
    (change.reference depth id name).line = name.line := by
  unfold reference
  split <;> rfl

end Renaming

open Renaming

section Renamed

variable {change : Renaming} (proper : change.IsProper)

namespace Expr

mutual

theorem alike_rename (depth : Nat) : ∀ expression : Expr, change.IsFreshIn expression.tokens →
    expression.Alike (.spelled change.table) (around proper depth) (expression.rename change depth)
  | .literal _, _ => .literal
  | .read id name, fresh =>
      .read (link_reference proper depth id fresh.head) (reference_line depth id name)
  | .assign id name value, fresh =>
      .assign (link_reference proper depth id fresh.head) (reference_line depth id name)
        (alike_rename depth value fresh.tail)
  | .unary _ _ operand, fresh => .unary rfl (alike_rename depth operand fresh.tail)
  | .binary _ _ left right, fresh =>
      .binary rfl (alike_rename depth left fresh.tail.left)
        (alike_rename depth right fresh.tail.right)
  | .logical _ left right, fresh =>
      .logical (alike_rename depth left fresh.left) (alike_rename depth right fresh.right)
  | .group inner, fresh => .group (alike_rename depth inner fresh)
  | .call callee arguments _, fresh =>
      .call rfl (alike_rename depth callee fresh.tail.left)
        (alikeAll_renameAll depth arguments fresh.tail.right)
  | .get object _, fresh => .get rfl rfl (alike_rename depth object fresh.tail)
  | .set object _ value, fresh =>
      .set rfl rfl (alike_rename depth object fresh.tail.left)
        (alike_rename depth value fresh.tail.right)
  | .self id _, _ => .self (link_same proper (fun spelling => spelling.this) depth id) rfl
  | .superMethod id _ _, _ =>
      .superMethod (link_same proper (fun spelling => spelling.super) depth id) rfl rfl

theorem alikeAll_renameAll (depth : Nat) : ∀ expressions : List Expr,
    change.IsFreshIn (tokensAll expressions) →
      AlikeAll (.spelled change.table) (around proper depth) expressions
        (renameAll change depth expressions)
  | [], _ => .nil
  | first :: rest, fresh =>
      .cons (alike_rename depth first fresh.left) (alikeAll_renameAll depth rest fresh.right)

end

theorem alikeOption_map_rename (depth : Nat) (value : Option Expr)
    (fresh : change.IsFreshIn (tokensOption value)) :
    AlikeOption (.spelled change.table) (around proper depth) value
      (value.map (rename change depth)) := by
  cases value with
  | none => exact .none
  | some value => exact .some (alike_rename proper depth value fresh)

end Expr

mutual

theorem Stmt.alike_rename : ∀ (depth : Nat) (statement : Stmt),
    change.IsFreshIn statement.tokens → (depth = 0 → change.old ∉ statement.callables) →
      Stmt.Alike (.spelled change.table) (around proper depth) statement
        (statement.rename change depth)
  | depth, .expression value _, fresh, _ => .expression (value.alike_rename proper depth fresh)
  | depth, .print value, fresh, _ => .print (value.alike_rename proper depth fresh)
  | depth, .declare _ initial, fresh, _ =>
      .declare (declaration_text proper fresh.head)
        (Expr.alikeOption_map_rename proper depth initial fresh.tail)
  | depth, .block body, fresh, _ => by
      refine .block .same ?_
      rw [around_enter_same]
      exact Stmt.alikeAll_renameAll (depth + 1) body fresh nofun
  | depth, .branch condition consequence none, fresh, kept =>
      .branch (condition.alike_rename proper depth fresh.left)
        (Stmt.alike_rename depth consequence fresh.right kept)
  | depth, .branch condition consequence (some alternative), fresh, kept =>
      .branchElse (condition.alike_rename proper depth fresh.left)
        (Stmt.alike_rename depth consequence fresh.right.left fun isZero member =>
          kept isZero (List.mem_append_left _ member))
        (Stmt.alike_rename depth alternative fresh.right.right fun isZero member =>
          kept isZero (List.mem_append_right _ member))
  | depth, .loop condition body, fresh, kept =>
      .loop (condition.alike_rename proper depth fresh.left)
        (Stmt.alike_rename depth body fresh.right kept)
  | depth, .function (.mk name parameters body), fresh, kept =>
      .function
        (isKept proper fresh.head fun isZero same =>
          kept isZero (List.mem_singleton.mpr same.symm))
        (Function.alike_rename depth (.mk name parameters body) fresh)
  | depth, .leave _ value, fresh, _ =>
      .leave (Expr.alikeOption_map_rename proper depth value fresh)
  | depth, .classDecl name none methods, fresh, kept => by
      refine .classDecl (isKept proper fresh.head fun isZero same =>
        kept isZero (List.mem_singleton.mpr same.symm)) ?_
      rw [around_enter_same]
      exact Function.alikeAll_renameAll (depth + 1) methods fresh.tail
  | depth, .classDecl name (some (id, parent)) methods, fresh, kept => by
      refine .subclass (isKept proper fresh.head fun isZero same =>
        kept isZero (List.mem_singleton.mpr same.symm))
        (link_reference proper depth id fresh.tail.head) (reference_line depth id parent) ?_
      rw [around_enter_same, around_enter_same]
      exact Function.alikeAll_renameAll (depth + 2) methods fresh.tail.tail

theorem Stmt.alikeAll_renameAll : ∀ (depth : Nat) (statements : List Stmt),
    change.IsFreshIn (Stmt.tokensAll statements) →
    (depth = 0 → change.old ∉ Stmt.callablesAll statements) →
      Stmt.AlikeAll (.spelled change.table) (around proper depth) statements
        (Stmt.renameAll change depth statements)
  | _, [], _, _ => .nil
  | depth, first :: rest, fresh, kept =>
      .cons
        (Stmt.alike_rename depth first fresh.left fun isZero member =>
          kept isZero (List.mem_append_left _ member))
        (Stmt.alikeAll_renameAll depth rest fresh.right fun isZero member =>
          kept isZero (List.mem_append_right _ member))

theorem Function.alike_rename : ∀ (depth : Nat) (declaration : Function),
    change.IsFreshIn declaration.tokens →
      Function.Alike (.spelled change.table) (around proper depth) declaration
        (declaration.rename change depth)
  | depth, .mk name parameters body, fresh => by
      refine .intro .same rfl (List.map_id _).symm ?_
      rw [around_enter_same]
      exact Stmt.alikeAll_renameAll (depth + 1) body fresh.tail.right nofun

theorem Function.alikeAll_renameAll : ∀ (depth : Nat) (declarations : List Function),
    change.IsFreshIn (Function.tokensAll declarations) →
      Function.AlikeAll (.spelled change.table) (around proper depth) declarations
        (Function.renameAll change depth declarations)
  | _, [], _ => .nil
  | depth, first :: rest, fresh =>
      .cons (Function.alike_rename depth first fresh.left)
        (Function.alikeAll_renameAll depth rest fresh.right)

end

end Renamed

/-- The scope whose variable is renamed. -/
theorem Function.alike_renameLocal {change : Renaming} (proper : change.IsProper)
    (declaration : Function)
    (fresh : change.IsFreshIn declaration.tokens) (once : declaration.DeclaresOnce)
    (declares : declaration.DeclaresVariable change.old) :
    Function.Alike (.spelled change.table) .same declaration (declaration.renameLocal change) := by
  obtain ⟨name, parameters, body⟩ := declaration
  refine .intro (spelling proper) rfl ?_ ?_
  · rw [List.map_map, List.map_map]
    apply List.map_congr_left
    intro parameter member
    exact declaration_text proper
      (fresh.tail.left parameter.token (List.mem_map_of_mem member))
  · rw [same_enter_spelling]
    exact Stmt.alikeAll_renameAll proper 0 body fresh.tail.right fun _ =>
      once.not_mem_callablesAll declares

mutual

theorem Stmt.Renames.alike {change : Renaming} (proper : change.IsProper)
    {statement renamed : Stmt} :
    Stmt.Renames change statement renamed → change.IsFreshIn statement.tokens →
    statement.DeclaresOnce → Stmt.Alike (.spelled change.table) .same statement renamed
  | .scope member isOld, fresh, once => by
      refine .block (spelling proper) ?_
      rw [same_enter_spelling]
      refine Stmt.alikeAll_renameAll proper 0 _ fresh fun _ => ?_
      rw [← isOld]
      exact Stmt.not_mem_callablesAll once.1 member
  | .block renames, fresh, once => by
      refine .block .same ?_
      rw [Spellings.enter_same]
      exact renames.alike proper fresh once.2
  | @Stmt.Renames.consequence _ condition _ _ none renames, fresh, once =>
      .branch (condition.alike_spelled _) (renames.alike proper fresh.right once)
  | @Stmt.Renames.consequence _ condition _ _ (some alternative) renames, fresh, once =>
      .branchElse (condition.alike_spelled _) (renames.alike proper fresh.right.left once.1)
        (alternative.alike_spelled _)
  | @Stmt.Renames.alternative _ condition consequence _ _ renames, fresh, once =>
      .branchElse (condition.alike_spelled _) (consequence.alike_spelled _)
        (renames.alike proper fresh.right.right once.2)
  | @Stmt.Renames.loop _ condition _ _ renames, fresh, once =>
      .loop (condition.alike_spelled _) (renames.alike proper fresh.right once)
  | .function renames, fresh, once => by
      have alike := renames.alike proper fresh once
      exact .function ⟨alike.name_text, rfl⟩ alike
  | @Stmt.Renames.classDecl _ name none _ _ renames, fresh, once => by
      refine .classDecl ⟨rfl, rfl⟩ ?_
      rw [Spellings.enter_same]
      exact renames.alike proper fresh.tail once
  | @Stmt.Renames.classDecl _ name (some (id, parent)) _ _ renames, fresh, once => by
      refine .subclass ⟨rfl, rfl⟩ ⟨rfl, fun _ _ => rfl, fun _ => rfl⟩ rfl ?_
      rw [Spellings.enter_same, Spellings.enter_same]
      exact renames.alike proper fresh.tail.tail once

theorem Stmt.RenamesAll.alike {change : Renaming} (proper : change.IsProper)
    {statements renamed : List Stmt} :
    Stmt.RenamesAll change statements renamed → change.IsFreshIn (Stmt.tokensAll statements) →
    Stmt.DeclaresOnceAll statements →
      Stmt.AlikeAll (.spelled change.table) .same statements renamed
  | .head renames, fresh, once =>
      .cons (renames.alike proper fresh.left once.1) (Stmt.alikeAll_spelled _ _)
  | .tail renames, fresh, once =>
      .cons (Stmt.alike_spelled _ _) (renames.alike proper fresh.right once.2)

theorem Function.Renames.alike {change : Renaming} (proper : change.IsProper)
    {declaration renamed : Function} :
    Function.Renames change declaration renamed → change.IsFreshIn declaration.tokens →
    declaration.DeclaresOnce →
      Function.Alike (.spelled change.table) .same declaration renamed
  | @Function.Renames.scope _ declaration declares, fresh, once =>
      declaration.alike_renameLocal proper fresh once declares
  | .body renames, fresh, once => by
      refine .intro .same rfl (List.map_id _).symm ?_
      rw [Spellings.enter_same]
      exact renames.alike proper fresh.tail.right once.2

theorem Function.RenamesAll.alike {change : Renaming} (proper : change.IsProper)
    {declarations renamed : List Function} :
    Function.RenamesAll change declarations renamed →
    change.IsFreshIn (Function.tokensAll declarations) → Function.DeclaresOnceAll declarations →
      Function.AlikeAll (.spelled change.table) .same declarations renamed
  | .head renames, fresh, once =>
      .cons (renames.alike proper fresh.left once.1) (Function.alikeAll_spelled _ _)
  | .tail renames, fresh, once =>
      .cons (Function.alike_spelled _ _) (renames.alike proper fresh.right once.2)

end

end LoxLang
