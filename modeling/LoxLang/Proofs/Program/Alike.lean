import LoxLang.Eval.Basic
import LoxLang.Proofs.Program.Relabel

/-!
Programs of one shape.  Two trees are alike when they differ only in identities,
in lines and in how local names are spelled: each scope has a spelling of its own,
and a reference is spelled as the scope that holds it says.  What tokens and what
references correspond is left open, so that one relation serves every comparison of
two runs.
-/

namespace LoxLang

/-- How the names of one scope are spelled on the other side.  Distinct names stay
distinct, and `this` and `super` are no names to change. -/
structure Spelling where
  spell : Bytes → Bytes
  distinct : ∀ {first second : Bytes}, spell first = spell second → first = second
  this : spell (thisName 0).text = (thisName 0).text
  super : spell (superName 0).text = (superName 0).text

namespace Spelling

/-- Every name as it is. -/
def same : Spelling :=
  ⟨fun name => name, fun equal => equal, rfl, rfl⟩

end Spelling

/-- The spellings of the open scopes, by their distance. -/
abbrev Spellings := Nat → Spelling

namespace Spellings

def same : Spellings :=
  fun _ => .same

/-- The spellings inside one more scope. -/
def enter (around : Spellings) (inner : Spelling) : Spellings
  | 0 => inner
  | distance + 1 => around distance

@[simp]
theorem enter_same : same.enter .same = same := by
  funext distance
  cases distance <;> rfl

end Spellings

/-- What corresponds on two sides: tokens, and references with the names they
look up. -/
structure Likeness where
  tokens : Token → Token → Prop
  links : Spellings → RefId → Bytes → RefId → Bytes → Prop

/-- The token of the parenthesis that closes a call. -/
def closingToken (line : Nat) : Token :=
  ⟨.rightParen, Bytes.ofString ")", none, line⟩

namespace Expr

mutual

inductive Alike (like : Likeness) (around : Spellings) : Expr → Expr → Prop where
  | literal {value : Literal} : Alike like around (.literal value) (.literal value)
  | read {id otherId : RefId} {name other : Name} :
      like.links around id name.text otherId other.text → like.tokens name.token other.token →
        Alike like around (.read id name) (.read otherId other)
  | assign {id otherId : RefId} {name other : Name} {value otherValue : Expr} :
      like.links around id name.text otherId other.text → like.tokens name.token other.token →
      Alike like around value otherValue →
        Alike like around (.assign id name value) (.assign otherId other otherValue)
  | unary {op : UnaryOp} {line otherLine : Nat} {operand other : Expr} :
      like.tokens (op.token line) (op.token otherLine) → Alike like around operand other →
        Alike like around (.unary op line operand) (.unary op otherLine other)
  | binary {op : BinaryOp} {line otherLine : Nat} {left right otherLeft otherRight : Expr} :
      like.tokens (op.token line) (op.token otherLine) → Alike like around left otherLeft →
      Alike like around right otherRight →
        Alike like around (.binary op line left right) (.binary op otherLine otherLeft otherRight)
  | logical {op : LogicalOp} {left right otherLeft otherRight : Expr} :
      Alike like around left otherLeft → Alike like around right otherRight →
        Alike like around (.logical op left right) (.logical op otherLeft otherRight)
  | group {inner other : Expr} :
      Alike like around inner other → Alike like around (.group inner) (.group other)
  | call {callee other : Expr} {arguments others : List Expr} {line otherLine : Nat} :
      like.tokens (closingToken line) (closingToken otherLine) →
      Alike like around callee other → AlikeAll like around arguments others →
        Alike like around (.call callee arguments line) (.call other others otherLine)
  | get {object other : Expr} {name otherName : Name} :
      otherName.text = name.text → like.tokens name.token otherName.token →
      Alike like around object other →
        Alike like around (.get object name) (.get other otherName)
  | set {object other value otherValue : Expr} {name otherName : Name} :
      otherName.text = name.text → like.tokens name.token otherName.token →
      Alike like around object other → Alike like around value otherValue →
        Alike like around (.set object name value) (.set other otherName otherValue)
  | self {id otherId : RefId} {line otherLine : Nat} :
      like.links around id (thisName 0).text otherId (thisName 0).text →
      like.tokens (Eval.thisToken line) (Eval.thisToken otherLine) →
        Alike like around (.self id line) (.self otherId otherLine)
  | superMethod {id otherId : RefId} {line otherLine : Nat} {method other : Name} :
      like.links around id (superName 0).text otherId (superName 0).text →
      other.text = method.text → like.tokens method.token other.token →
        Alike like around (.superMethod id line method) (.superMethod otherId otherLine other)

inductive AlikeAll (like : Likeness) (around : Spellings) : List Expr → List Expr → Prop where
  | nil : AlikeAll like around [] []
  | cons {first other : Expr} {rest others : List Expr} :
      Alike like around first other → AlikeAll like around rest others →
        AlikeAll like around (first :: rest) (other :: others)

end

inductive AlikeOption (like : Likeness) (around : Spellings) :
    Option Expr → Option Expr → Prop where
  | none : AlikeOption like around none none
  | some {value other : Expr} :
      Alike like around value other → AlikeOption like around (some value) (some other)

end Expr

/-- A name that both sides declare as it is. -/
structure Name.IsKept (around : Spellings) (name other : Name) : Prop where
  text : other.text = name.text
  spelling : (around 0).spell name.text = name.text

mutual

inductive Stmt.Alike (like : Likeness) : Spellings → Stmt → Stmt → Prop where
  | expression {around : Spellings} {value other : Expr} {echo : Bool} :
      value.Alike like around other →
        Stmt.Alike like around (.expression value echo) (.expression other echo)
  | print {around : Spellings} {value other : Expr} :
      value.Alike like around other → Stmt.Alike like around (.print value) (.print other)
  | declare {around : Spellings} {name other : Name} {initial otherInitial : Option Expr} :
      other.text = (around 0).spell name.text →
      Expr.AlikeOption like around initial otherInitial →
        Stmt.Alike like around (.declare name initial) (.declare other otherInitial)
  | block {around : Spellings} {body other : List Stmt} (inner : Spelling) :
      Stmt.AlikeAll like (around.enter inner) body other →
        Stmt.Alike like around (.block body) (.block other)
  | branch {around : Spellings} {condition otherCondition : Expr} {consequence other : Stmt} :
      condition.Alike like around otherCondition → Stmt.Alike like around consequence other →
        Stmt.Alike like around (.branch condition consequence none)
          (.branch otherCondition other none)
  | branchElse {around : Spellings} {condition otherCondition : Expr}
      {consequence other alternative otherAlternative : Stmt} :
      condition.Alike like around otherCondition → Stmt.Alike like around consequence other →
      Stmt.Alike like around alternative otherAlternative →
        Stmt.Alike like around (.branch condition consequence (some alternative))
          (.branch otherCondition other (some otherAlternative))
  | loop {around : Spellings} {condition otherCondition : Expr} {body other : Stmt} :
      condition.Alike like around otherCondition → Stmt.Alike like around body other →
        Stmt.Alike like around (.loop condition body) (.loop otherCondition other)
  | function {around : Spellings} {declaration other : Function} :
      declaration.name.IsKept around other.name → Function.Alike like around declaration other →
        Stmt.Alike like around (.function declaration) (.function other)
  | leave {around : Spellings} {line otherLine : Nat} {value other : Option Expr} :
      Expr.AlikeOption like around value other →
        Stmt.Alike like around (.leave line value) (.leave otherLine other)
  | classDecl {around : Spellings} {name other : Name} {methods others : List Function} :
      name.IsKept around other → Function.AlikeAll like (around.enter .same) methods others →
        Stmt.Alike like around (.classDecl name none methods) (.classDecl other none others)
  | subclass {around : Spellings} {name other parent otherParent : Name} {id otherId : RefId}
      {methods others : List Function} :
      name.IsKept around other →
      like.links around id parent.text otherId otherParent.text →
      like.tokens parent.token otherParent.token →
      Function.AlikeAll like ((around.enter .same).enter .same) methods others →
        Stmt.Alike like around (.classDecl name (some (id, parent)) methods)
          (.classDecl other (some (otherId, otherParent)) others)

inductive Stmt.AlikeAll (like : Likeness) : Spellings → List Stmt → List Stmt → Prop where
  | nil {around : Spellings} : Stmt.AlikeAll like around [] []
  | cons {around : Spellings} {first other : Stmt} {rest others : List Stmt} :
      Stmt.Alike like around first other → Stmt.AlikeAll like around rest others →
        Stmt.AlikeAll like around (first :: rest) (other :: others)

inductive Function.Alike (like : Likeness) : Spellings → Function → Function → Prop where
  | intro {around : Spellings} {name other : Name} {parameters others : List Name}
      {body otherBody : List Stmt} (inner : Spelling) :
      other.text = name.text →
      others.map Name.text = (parameters.map Name.text).map inner.spell →
      Stmt.AlikeAll like (around.enter inner) body otherBody →
        Function.Alike like around (.mk name parameters body) (.mk other others otherBody)

inductive Function.AlikeAll (like : Likeness) :
    Spellings → List Function → List Function → Prop where
  | nil {around : Spellings} : Function.AlikeAll like around [] []
  | cons {around : Spellings} {first other : Function} {rest others : List Function} :
      Function.Alike like around first other → Function.AlikeAll like around rest others →
        Function.AlikeAll like around (first :: rest) (other :: others)

end

theorem Function.Alike.name_text {like : Likeness} {around : Spellings}
    {declaration other : Function} (alike : Function.Alike like around declaration other) :
    other.name.text = declaration.name.text := by
  cases alike with
  | intro _ name _ _ => exact name

theorem Function.Alike.length_parameters {like : Likeness} {around : Spellings}
    {declaration other : Function} (alike : Function.Alike like around declaration other) :
    other.parameters.length = declaration.parameters.length := by
  cases alike with
  | intro _ _ parameters _ =>
      have lengths := congrArg List.length parameters
      simp only [List.length_map] at lengths
      exact lengths

namespace Expr

mutual

/-- The tokens at which an evaluation can fail. -/
def tokens : Expr → List Token
  | .literal _ => []
  | .read _ name => [name.token]
  | .assign _ name value => name.token :: value.tokens
  | .unary op line operand => op.token line :: operand.tokens
  | .binary op line left right => op.token line :: (left.tokens ++ right.tokens)
  | .logical _ left right => left.tokens ++ right.tokens
  | .group inner => inner.tokens
  | .call callee arguments line => closingToken line :: (callee.tokens ++ tokensAll arguments)
  | .get object name => name.token :: object.tokens
  | .set object name value => name.token :: (object.tokens ++ value.tokens)
  | .self _ line => [Eval.thisToken line]
  | .superMethod _ _ method => [method.token]

def tokensAll : List Expr → List Token
  | [] => []
  | first :: rest => first.tokens ++ tokensAll rest

end

def tokensOption : Option Expr → List Token
  | none => []
  | some value => value.tokens

end Expr

mutual

/-- The tokens at which an execution can fail, and those of the names that a tree
declares. -/
def Stmt.tokens : Stmt → List Token
  | .expression value _ => value.tokens
  | .print value => value.tokens
  | .declare name initial => name.token :: Expr.tokensOption initial
  | .block body => Stmt.tokensAll body
  | .branch condition consequence none => condition.tokens ++ consequence.tokens
  | .branch condition consequence (some alternative) =>
      condition.tokens ++ (consequence.tokens ++ alternative.tokens)
  | .loop condition body => condition.tokens ++ body.tokens
  | .function declaration => declaration.tokens
  | .leave _ value => Expr.tokensOption value
  | .classDecl name none methods => name.token :: Function.tokensAll methods
  | .classDecl name (some (_, parent)) methods =>
      name.token :: parent.token :: Function.tokensAll methods

def Stmt.tokensAll : List Stmt → List Token
  | [] => []
  | first :: rest => first.tokens ++ Stmt.tokensAll rest

def Function.tokens : Function → List Token
  | .mk name parameters body =>
      name.token :: (parameters.map Name.token ++ Stmt.tokensAll body)

def Function.tokensAll : List Function → List Token
  | [] => []
  | first :: rest => first.tokens ++ Function.tokensAll rest

end

/-- What corresponds on one account does on another: references, and the tokens in a
list. -/
structure Likeness.Carries (like other : Likeness) (tokens : List Token) : Prop where
  links : ∀ {around : Spellings} {id otherId : RefId} {text otherText : Bytes},
    like.links around id text otherId otherText → other.links around id text otherId otherText
  tokens : ∀ token ∈ tokens, ∀ image, like.tokens token image → other.tokens token image

namespace Likeness.Carries

variable {like other : Likeness} {token : Token} {first second : List Token}

theorem left (carries : like.Carries other (first ++ second)) : like.Carries other first :=
  ⟨carries.links, fun token member => carries.tokens token (List.mem_append_left _ member)⟩

theorem right (carries : like.Carries other (first ++ second)) : like.Carries other second :=
  ⟨carries.links, fun token member => carries.tokens token (List.mem_append_right _ member)⟩

theorem head {image : Token} (carries : like.Carries other (token :: second))
    (corresponds : like.tokens token image) : other.tokens token image :=
  carries.tokens token List.mem_cons_self image corresponds

theorem tail (carries : like.Carries other (token :: second)) : like.Carries other second :=
  ⟨carries.links, fun token member => carries.tokens token (List.mem_cons_of_mem _ member)⟩

end Likeness.Carries

section Weaken

variable {like other : Likeness}

namespace Expr

mutual

theorem Alike.imp {around : Spellings} {expression image : Expr} :
    expression.Alike like around image → like.Carries other expression.tokens →
      expression.Alike other around image
  | .literal, _ => .literal
  | .read link token, carries => .read (carries.links link) (carries.head token)
  | .assign link token value, carries =>
      .assign (carries.links link) (carries.head token) (value.imp carries.tail)
  | .unary token operand, carries => .unary (carries.head token) (operand.imp carries.tail)
  | .binary token left right, carries =>
      .binary (carries.head token) (left.imp carries.tail.left) (right.imp carries.tail.right)
  | .logical left right, carries => .logical (left.imp carries.left) (right.imp carries.right)
  | .group inner, carries => .group (inner.imp carries)
  | .call token callee arguments, carries =>
      .call (carries.head token) (callee.imp carries.tail.left)
        (arguments.imp carries.tail.right)
  | .get name token object, carries => .get name (carries.head token) (object.imp carries.tail)
  | .set name token object value, carries =>
      .set name (carries.head token) (object.imp carries.tail.left)
        (value.imp carries.tail.right)
  | .self link token, carries => .self (carries.links link) (carries.head token)
  | .superMethod link name token, carries =>
      .superMethod (carries.links link) name (carries.head token)

theorem AlikeAll.imp {around : Spellings} {expressions images : List Expr} :
    AlikeAll like around expressions images → like.Carries other (tokensAll expressions) →
      AlikeAll other around expressions images
  | .nil, _ => .nil
  | .cons first rest, carries => .cons (first.imp carries.left) (rest.imp carries.right)

end

theorem AlikeOption.imp {around : Spellings} {value image : Option Expr} :
    AlikeOption like around value image → like.Carries other (tokensOption value) →
      AlikeOption other around value image
  | .none, _ => .none
  | .some value, carries => .some (value.imp carries)

end Expr

mutual

theorem Stmt.Alike.imp {around : Spellings} {statement image : Stmt} :
    Stmt.Alike like around statement image → like.Carries other statement.tokens →
      Stmt.Alike other around statement image
  | .expression value, carries => .expression (value.imp carries)
  | .print value, carries => .print (value.imp carries)
  | .declare name initial, carries => .declare name (initial.imp carries.tail)
  | .block inner body, carries => .block inner (body.imp carries)
  | .branch condition consequence, carries =>
      .branch (condition.imp carries.left) (consequence.imp carries.right)
  | .branchElse condition consequence alternative, carries =>
      .branchElse (condition.imp carries.left) (consequence.imp carries.right.left)
        (alternative.imp carries.right.right)
  | .loop condition body, carries =>
      .loop (condition.imp carries.left) (body.imp carries.right)
  | .function name declaration, carries => .function name (declaration.imp carries)
  | .leave value, carries => .leave (value.imp carries)
  | .classDecl name methods, carries => .classDecl name (methods.imp carries.tail)
  | .subclass name link token methods, carries =>
      .subclass name (carries.links link) (carries.tail.head token) (methods.imp carries.tail.tail)

theorem Stmt.AlikeAll.imp {around : Spellings} {statements images : List Stmt} :
    Stmt.AlikeAll like around statements images →
      like.Carries other (Stmt.tokensAll statements) →
        Stmt.AlikeAll other around statements images
  | .nil, _ => .nil
  | .cons first rest, carries => .cons (first.imp carries.left) (rest.imp carries.right)

theorem Function.Alike.imp {around : Spellings} {declaration image : Function} :
    Function.Alike like around declaration image → like.Carries other declaration.tokens →
      Function.Alike other around declaration image
  | .intro inner name parameters body, carries =>
      .intro inner name parameters (body.imp carries.tail.right)

theorem Function.AlikeAll.imp {around : Spellings} {declarations images : List Function} :
    Function.AlikeAll like around declarations images →
      like.Carries other (Function.tokensAll declarations) →
        Function.AlikeAll other around declarations images
  | .nil, _ => .nil
  | .cons first rest, carries => .cons (first.imp carries.left) (rest.imp carries.right)

end

end Weaken

/-- What a likeness asks of a tree and the tree with other labels. -/
structure Likeness.Admits (like : Likeness) (labels : Relabelling) (tokens : List Token)
    (references : List Reference) : Prop where
  tokens : ∀ token ∈ tokens, like.tokens token (labels.token token)
  links : ∀ reference ∈ references, like.links .same reference.id reference.name.text
    (labels.ids reference.id) reference.name.text

namespace Likeness.Admits

variable {like : Likeness} {labels : Relabelling} {token : Token} {tokens others : List Token}
  {reference : Reference} {first second : List Reference}

theorem left (admits : like.Admits labels (tokens ++ others) (first ++ second)) :
    like.Admits labels tokens first :=
  ⟨fun token member => admits.tokens token (List.mem_append_left _ member),
    fun reference member => admits.links reference (List.mem_append_left _ member)⟩

theorem right (admits : like.Admits labels (tokens ++ others) (first ++ second)) :
    like.Admits labels others second :=
  ⟨fun token member => admits.tokens token (List.mem_append_right _ member),
    fun reference member => admits.links reference (List.mem_append_right _ member)⟩

theorem head (admits : like.Admits labels (token :: tokens) first) :
    like.tokens token (labels.token token) :=
  admits.tokens token List.mem_cons_self

theorem tail (admits : like.Admits labels (token :: tokens) first) :
    like.Admits labels tokens first :=
  ⟨fun token member => admits.tokens token (List.mem_cons_of_mem _ member), admits.links⟩

theorem link (admits : like.Admits labels tokens (reference :: first)) :
    like.links .same reference.id reference.name.text (labels.ids reference.id)
      reference.name.text :=
  admits.links reference List.mem_cons_self

theorem rest (admits : like.Admits labels tokens (reference :: first)) :
    like.Admits labels tokens first :=
  ⟨admits.tokens, fun reference member => admits.links reference (List.mem_cons_of_mem _ member)⟩

theorem ofMem (admits : like.Admits labels tokens first)
    (inTokens : ∀ token ∈ others, token ∈ tokens)
    (inReferences : ∀ reference ∈ second, reference ∈ first) : like.Admits labels others second :=
  ⟨fun token member => admits.tokens token (inTokens token member),
    fun reference member => admits.links reference (inReferences reference member)⟩

end Likeness.Admits

section Relabel

variable {like : Likeness} {labels : Relabelling}

namespace Expr

mutual

theorem alike_relabel : ∀ expression : Expr,
    like.Admits labels expression.tokens expression.references →
      expression.Alike like .same (expression.relabel labels)
  | .literal _, _ => .literal
  | .read _ _, admits => .read admits.link admits.head
  | .assign id name value, admits => by
      have link := admits.links ⟨.assign, id, name⟩
        (List.mem_append_right _ (List.mem_singleton_self _))
      refine .assign link admits.head (alike_relabel value ?_)
      exact admits.tail.ofMem (fun _ member => member)
        fun _ member => List.mem_append_left _ member
  | .unary _ _ operand, admits => .unary admits.head (alike_relabel operand admits.tail)
  | .binary _ _ left right, admits =>
      .binary admits.head (alike_relabel left admits.tail.left)
        (alike_relabel right admits.tail.right)
  | .logical _ left right, admits =>
      .logical (alike_relabel left admits.left) (alike_relabel right admits.right)
  | .group inner, admits => .group (alike_relabel inner admits)
  | .call callee arguments _, admits =>
      .call admits.head (alike_relabel callee admits.tail.left)
        (alikeAll_relabelAll arguments admits.tail.right)
  | .get object _, admits => .get rfl admits.head (alike_relabel object admits.tail)
  | .set object _ value, admits =>
      .set rfl admits.head (alike_relabel object admits.tail.left)
        (alike_relabel value admits.tail.right)
  | .self _ _, admits => .self admits.link admits.head
  | .superMethod _ _ _, admits => .superMethod admits.link rfl admits.head

theorem alikeAll_relabelAll : ∀ expressions : List Expr,
    like.Admits labels (tokensAll expressions) (referencesAll expressions) →
      AlikeAll like .same expressions (relabelAll labels expressions)
  | [], _ => .nil
  | first :: rest, admits =>
      .cons (alike_relabel first admits.left) (alikeAll_relabelAll rest admits.right)

end

theorem alikeOption_map_relabel (value : Option Expr)
    (admits : like.Admits labels (tokensOption value) (referencesOption value)) :
    AlikeOption like .same value (value.map (relabel labels)) := by
  cases value with
  | none => exact .none
  | some value => exact .some (alike_relabel value admits)

end Expr

theorem Name.isKept_same (name : Name) : name.IsKept .same (labels.name name) :=
  ⟨rfl, rfl⟩

mutual

theorem Stmt.alike_relabel : ∀ statement : Stmt,
    like.Admits labels statement.tokens statement.references →
      Stmt.Alike like .same statement (statement.relabel labels)
  | .expression value _, admits => .expression (value.alike_relabel admits)
  | .print value, admits => .print (value.alike_relabel admits)
  | .declare _ initial, admits =>
      .declare rfl (Expr.alikeOption_map_relabel initial admits.tail)
  | .block body, admits => by
      refine .block .same ?_
      rw [Spellings.enter_same]
      exact Stmt.alikeAll_relabelAll body admits
  | .branch condition consequence none, admits =>
      .branch (condition.alike_relabel admits.left) (Stmt.alike_relabel consequence admits.right)
  | .branch condition consequence (some alternative), admits => by
      have regrouped : like.Admits labels
          (condition.tokens ++ (consequence.tokens ++ alternative.tokens))
          (condition.references ++ (consequence.references ++ alternative.references)) := by
        rw [← List.append_assoc condition.references]
        exact admits
      exact .branchElse (condition.alike_relabel regrouped.left)
        (Stmt.alike_relabel consequence regrouped.right.left)
        (Stmt.alike_relabel alternative regrouped.right.right)
  | .loop condition body, admits =>
      .loop (condition.alike_relabel admits.left) (Stmt.alike_relabel body admits.right)
  | .function (.mk name parameters body), admits =>
      .function (Name.isKept_same name)
        (Function.alike_relabel (.mk name parameters body) admits)
  | .leave _ value, admits => .leave (Expr.alikeOption_map_relabel value admits)
  | .classDecl name none methods, admits => by
      refine .classDecl (Name.isKept_same name) ?_
      rw [Spellings.enter_same]
      exact Function.alikeAll_relabelAll methods admits.tail
  | .classDecl name (some (_, parent)) methods, admits => by
      refine .subclass (Name.isKept_same name) admits.link admits.tail.head ?_
      rw [Spellings.enter_same, Spellings.enter_same]
      exact Function.alikeAll_relabelAll methods admits.tail.tail.rest

theorem Stmt.alikeAll_relabelAll : ∀ statements : List Stmt,
    like.Admits labels (Stmt.tokensAll statements) (Stmt.referencesAll statements) →
      Stmt.AlikeAll like .same statements (Stmt.relabelAll labels statements)
  | [], _ => .nil
  | first :: rest, admits =>
      .cons (Stmt.alike_relabel first admits.left) (Stmt.alikeAll_relabelAll rest admits.right)

theorem Function.alike_relabel : ∀ declaration : Function,
    like.Admits labels declaration.tokens declaration.references →
      Function.Alike like .same declaration (declaration.relabel labels)
  | .mk name parameters body, admits => by
      refine .intro .same rfl ?_ ?_
      · rw [List.map_map, List.map_map]
        rfl
      · rw [Spellings.enter_same]
        exact Stmt.alikeAll_relabelAll body (admits.tail.ofMem
          (fun _ member => List.mem_append_right _ member) fun _ member => member)

theorem Function.alikeAll_relabelAll : ∀ declarations : List Function,
    like.Admits labels (Function.tokensAll declarations)
      (Function.referencesAll declarations) →
      Function.AlikeAll like .same declarations (Function.relabelAll labels declarations)
  | [], _ => .nil
  | first :: rest, admits =>
      .cons (Function.alike_relabel first admits.left)
        (Function.alikeAll_relabelAll rest admits.right)

end

end Relabel

end LoxLang
