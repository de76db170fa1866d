import LoxLang.Proofs.Program.Rename

/-!
Resolution of a tree with one variable renamed.  The walks over the tree before and
after keep in step: the scope of the variable holds the new name where it held the
old one, every other open scope is the same, and each reference is recorded at the
same distance.
-/

namespace LoxLang

open Renaming

namespace Scope

variable {change : Renaming}

/-- The open scopes of two walks that differ in the names of the scope at a distance,
where the new name stands for the old one. -/
inductive Respelled (change : Renaming) : Nat → List Names → List Names → Prop where
  | here {names others : Names} {outer : List Names} :
      names.get? change.new = none →
        (∀ text, others.get? (change.exchange text) = names.get? text) →
          Respelled change 0 (names :: outer) (others :: outer)
  | within {depth : Nat} {names : Names} {scopes others : List Names} :
      names.get? change.new = none → Respelled change depth scopes others →
        Respelled change (depth + 1) (names :: scopes) (names :: others)

namespace Respelled

variable {depth : Nat} {scopes others : List Names}

/-- What a name is looked up as in the scopes of the second walk. -/
def lookedUp (change : Renaming) (depth : Nat) (scopes : List Names) (text : Bytes) : Bytes :=
  if text = change.old ∧ distance? text scopes = some depth then change.new else text

theorem lookedUp_of_ne {text : Bytes} (notOld : text ≠ change.old) :
    lookedUp change depth scopes text = text :=
  if_neg fun holds => notOld holds.1

theorem reference_text {id : RefId} {name : Name}
    (recorded : change.table[id]? = distance? name.text scopes) :
    (change.reference depth id name).text = lookedUp change depth scopes name.text := by
  unfold reference lookedUp
  rw [recorded]
  split <;> rfl

theorem distance?_of_held {text : Bytes} {names : Names} (held : (names.get? text).isSome)
    (scopes : List Names) : distance? text (names :: scopes) = some 0 := by
  unfold distance?
  rw [List.findIdx?_cons, if_pos held]

theorem distance?_of_absent {text : Bytes} {names : Names} (absent : names.get? text = none)
    (scopes : List Names) :
    distance? text (names :: scopes) = (distance? text scopes).map (· + 1) := by
  unfold distance?
  rw [List.findIdx?_cons, if_neg (by simp [absent])]

theorem lookedUp_here_of_held {names : Names} {text : Bytes} (fresh : text ≠ change.new)
    (held : (names.get? text).isSome) :
    lookedUp change 0 (names :: scopes) text = change.exchange text := by
  unfold lookedUp
  rw [distance?_of_held held]
  by_cases isOld : text = change.old
  · rw [if_pos ⟨isOld, rfl⟩, isOld, exchange_old]
  · rw [if_neg fun holds => isOld holds.1, exchange_of_ne isOld fresh]

theorem lookedUp_here_of_absent {names : Names} {text : Bytes} (absent : names.get? text = none) :
    lookedUp change 0 (names :: scopes) text = text := by
  unfold lookedUp
  rw [distance?_of_absent absent, if_neg]
  rintro ⟨-, found⟩
  obtain ⟨distance, -, impossible⟩ := Option.map_eq_some_iff.mp found
  exact Nat.succ_ne_zero distance impossible

theorem lookedUp_within_of_held {names : Names} {text : Bytes}
    (held : (names.get? text).isSome) :
    lookedUp change (depth + 1) (names :: scopes) text = text := by
  unfold lookedUp
  rw [distance?_of_held held]
  exact if_neg fun holds => nomatch holds.2

theorem lookedUp_within_of_absent {names : Names} {text : Bytes}
    (absent : names.get? text = none) :
    lookedUp change (depth + 1) (names :: scopes) text = lookedUp change depth scopes text := by
  unfold lookedUp
  rw [distance?_of_absent absent]
  congr 2
  exact propext ⟨fun found => by simpa using found, fun found => by rw [found]; rfl⟩

/-- The renamed scope holds nothing that the scope did not hold. -/
theorem get?_eq_none {names renamed : Names} (unused : names.get? change.new = none)
    (same : ∀ text, renamed.get? (change.exchange text) = names.get? text) {text : Bytes}
    (fresh : text ≠ change.new) (absent : names.get? text = none) : renamed.get? text = none := by
  by_cases isOld : text = change.old
  · rw [isOld, ← change.exchange_new, same, unused]
  · rw [← absent, ← same, exchange_of_ne isOld fresh]

/-- In the innermost scope the second walk finds what the first one finds. -/
theorem get?_lookedUp {names renamed : Names}
    (respelled : Respelled change depth (names :: scopes) (renamed :: others)) {text : Bytes}
    (fresh : text ≠ change.new) :
    renamed.get? (lookedUp change depth (names :: scopes) text) = names.get? text := by
  cases respelled with
  | here unused same =>
      cases held : names.get? text with
      | some complete =>
          rw [lookedUp_here_of_held fresh (by simp [held]), same, held]
      | none =>
          rw [lookedUp_here_of_absent held, get?_eq_none unused same fresh held]
  | within unused _ =>
      cases held : names.get? text with
      | some complete => rw [lookedUp_within_of_held (by simp [held]), held]
      | none =>
          rw [lookedUp_within_of_absent held]
          unfold lookedUp
          split
          · exact unused
          · exact held

/-- Scopes that hold the same in front hold a name equally far out, if those behind
do. -/
theorem distance?_cons_congr {names renamed : Names} {text image : Bytes}
    (innermost : renamed.get? image = names.get? text)
    (further : names.get? text = none → distance? image others = distance? text scopes) :
    distance? image (renamed :: others) = distance? text (names :: scopes) := by
  cases held : names.get? text with
  | some complete =>
      rw [held] at innermost
      rw [distance?_of_held (by simp [innermost]), distance?_of_held (by simp [held])]
  | none =>
      rw [held] at innermost
      rw [distance?_of_absent innermost, distance?_of_absent held, further held]

/-- Every name is found at the same distance. -/
theorem distance?_lookedUp (respelled : Respelled change depth scopes others) {text : Bytes}
    (fresh : text ≠ change.new) :
    distance? (lookedUp change depth scopes text) others = distance? text scopes := by
  induction respelled with
  | @here names renamed outer unused same =>
      -- Beyond the scope of the variable the scopes are the same, and so is the name.
      refine distance?_cons_congr ((here unused same).get?_lookedUp fresh) fun absent => ?_
      rw [lookedUp_here_of_absent absent]
  | within unused inner inductionHypothesis =>
      refine distance?_cons_congr ((within unused inner).get?_lookedUp fresh) fun absent => ?_
      rw [lookedUp_within_of_absent absent, inductionHypothesis]

theorem exists_cons (respelled : Respelled change depth scopes others) :
    ∃ names outer renamed further, scopes = names :: outer ∧ others = renamed :: further ∧
      Respelled change depth (names :: outer) (renamed :: further) := by
  cases respelled with
  | here unused same => exact ⟨_, _, _, _, rfl, rfl, .here unused same⟩
  | within unused inner => exact ⟨_, _, _, _, rfl, rfl, .within unused inner⟩

section Declaration

variable {names renamed : Names} {name : Name}
  (respelled : Respelled change depth (names :: scopes) (renamed :: others))
  (fresh : name.text ≠ change.new)

include respelled fresh

theorem get?_declaration :
    renamed.get? (change.declaration depth name).text = names.get? name.text := by
  cases respelled with
  | here unused same => rw [declaration_text_here fresh, same]
  | within _ _ => rw [declaration_within]

theorem insert_declaration (complete : Bool) :
    Respelled change depth (names.insert name.text complete :: scopes)
      (renamed.insert (change.declaration depth name).text complete :: others) := by
  cases respelled with
  | here unused same =>
      refine .here ?_ fun text => ?_
      · rw [Bindings.get?_insert_of_ne _ _ fresh.symm, unused]
      · rw [declaration_text_here fresh, get?_insert, get?_insert, same]
        exact if_congr ⟨exchange_injective, fun found => by rw [found]⟩ rfl rfl
  | within unused inner =>
      rw [declaration_within]
      refine .within ?_ inner
      rw [Bindings.get?_insert_of_ne _ _ fresh.symm, unused]

end Declaration

theorem tail (respelled : Respelled change (depth + 1) scopes others) :
    Respelled change depth scopes.tail others.tail := by
  cases respelled with
  | within _ inner => exact inner

end Respelled

/-- Two walks in step: the scopes differ by the renamed variable, the records are the
same, and so is the number of errors. -/
structure InStep (change : Renaming) (depth : Nat) (state other : State) : Prop where
  scopes : Respelled change depth state.scopes other.scopes
  table : other.table = state.table
  errors : other.errors.length = state.errors.length

namespace InStep

variable {depth : Nat} {state other : State}

theorem report (inStep : InStep change depth state other) (name renamed : Name)
    (cause : Diagnostic.Cause) :
    InStep change depth (state.report name cause) (other.report renamed cause) where
  scopes := inStep.scopes
  table := inStep.table
  errors := by simp [State.report, inStep.errors]

theorem enter (inStep : InStep change depth state other) {names : Names}
    (unused : names.get? change.new = none) :
    InStep change (depth + 1) (state.enter names) (other.enter names) :=
  ⟨.within unused inStep.scopes, inStep.table, inStep.errors⟩

theorem leave (inStep : InStep change (depth + 1) state other) :
    InStep change depth state.leave other.leave where
  scopes := inStep.scopes.tail
  table := inStep.table
  errors := inStep.errors

theorem put {name : Name} (inStep : InStep change depth state other)
    (fresh : name.text ≠ change.new) (complete : Bool) :
    InStep change depth (state.put name.text complete)
      (other.put (change.declaration depth name).text complete) where
  scopes := by
    obtain ⟨names, outer, renamed, further, left, right, respelled⟩ := inStep.scopes.exists_cons
    rw [state.put_scopes_cons _ _ left, other.put_scopes_cons _ _ right]
    exact respelled.insert_declaration fresh complete
  table := by rw [State.put_table, State.put_table, inStep.table]
  errors := by rw [State.put_errors, State.put_errors, inStep.errors]

theorem define {name : Name} (inStep : InStep change depth state other)
    (fresh : name.text ≠ change.new) :
    InStep change depth (state.define name) (other.define (change.declaration depth name)) :=
  inStep.put fresh true

theorem declare {name : Name} (inStep : InStep change depth state other)
    (fresh : name.text ≠ change.new) :
    InStep change depth (state.declare name) (other.declare (change.declaration depth name)) := by
  obtain ⟨names, outer, renamed, further, left, right, respelled⟩ := inStep.scopes.exists_cons
  unfold State.declare
  simp only [left, right, respelled.get?_declaration fresh]
  split
  · exact (inStep.report _ _ _).put fresh false
  · exact inStep.put fresh false

theorem introduce {name : Name} (inStep : InStep change depth state other)
    (fresh : name.text ≠ change.new) :
    InStep change depth (state.introduce name)
      (other.introduce (change.declaration depth name)) :=
  (inStep.declare fresh).define fresh

theorem introduceAll {names : List Name} (inStep : InStep change depth state other)
    (fresh : ∀ name ∈ names, name.text ≠ change.new) :
    InStep change depth (names.foldl State.introduce state)
      ((names.map (change.declaration depth)).foldl State.introduce other) := by
  induction names generalizing state other with
  | nil => exact inStep
  | cons name rest inductionHypothesis =>
      exact inductionHypothesis (inStep.introduce (fresh name List.mem_cons_self))
        fun later member => fresh later (List.mem_cons_of_mem _ member)

theorem bind {text renamed : Bytes} (inStep : InStep change depth state other) (id : RefId)
    (same : distance? renamed other.scopes = distance? text state.scopes) :
    InStep change depth (state.bind id text) (other.bind id renamed) := by
  unfold State.bind
  rw [same, inStep.table]
  split
  · exact ⟨inStep.scopes, rfl, inStep.errors⟩
  · exact inStep

/-- A name that is neither the old nor the new one. -/
theorem bindSame {text : Bytes} (inStep : InStep change depth state other) (id : RefId)
    (notOld : text ≠ change.old) (notNew : text ≠ change.new) :
    InStep change depth (state.bind id text) (other.bind id text) := by
  refine inStep.bind id ?_
  have same := inStep.scopes.distance?_lookedUp notNew
  rw [Respelled.lookedUp_of_ne notOld] at same
  exact same

section Reference

variable {id : RefId} {name : Name} (inStep : InStep change depth state other)
  (fresh : name.text ≠ change.new)
  (recorded : change.table[id]? = distance? name.text state.scopes)

include inStep fresh recorded

theorem bindReference :
    InStep change depth (state.bind id name.text)
      (other.bind id (change.reference depth id name).text) := by
  refine inStep.bind id ?_
  rw [Respelled.reference_text recorded]
  exact inStep.scopes.distance?_lookedUp fresh

theorem isIncomplete_reference :
    other.isIncomplete (change.reference depth id name).text = state.isIncomplete name.text := by
  obtain ⟨names, outer, renamed, further, left, right, respelled⟩ := inStep.scopes.exists_cons
  unfold State.isIncomplete
  rw [left] at recorded
  simp only [left, right, Respelled.reference_text recorded, respelled.get?_lookedUp fresh]

theorem read :
    InStep change depth (state.read id name)
      (other.read id (change.reference depth id name)) := by
  have same := inStep.isIncomplete_reference fresh recorded
  unfold State.read
  dsimp only
  rw [same]
  split
  · exact (inStep.report _ _ _).bindReference fresh recorded
  · exact inStep.bindReference fresh recorded

end Reference

theorem checkReturn (inStep : InStep change depth state other) (context : Context) (line : Nat)
    (hasValue : Bool) :
    InStep change depth (checkReturn context line hasValue state)
      (checkReturn context line hasValue other) := by
  unfold Scope.checkReturn
  dsimp only
  split <;> split
  · exact (inStep.report _ _ _).report _ _ _
  · exact inStep.report _ _ _
  · exact inStep.report _ _ _
  · exact inStep

theorem distance?_introduce (inStep : InStep change depth state other) (name : Name) :
    distance? name.text (state.introduce name).scopes = some 0 := by
  obtain ⟨names, outer, _, _, scopes, -, -⟩ := inStep.scopes.exists_cons
  rw [State.introduce, State.define,
    State.put_scopes_cons _ _ _ (state.declare_scopes_cons name scopes)]
  exact Respelled.distance?_of_held (by simp) _

/-- A class does not become its own superclass, or cease to be. -/
theorem enterSuperclass {name superclass : Name} {id : RefId}
    (inStep : InStep change depth state other) (proper : change.IsProper)
    (freshName : name.text ≠ change.new) (kept : depth = 0 → name.text ≠ change.old)
    (held : distance? name.text state.scopes = some 0) (fresh : superclass.text ≠ change.new)
    (recorded : change.table[id]? = distance? superclass.text state.scopes) :
    InStep change (depth + 1) (enterSuperclass name id superclass state)
      (enterSuperclass name id (change.reference depth id superclass) other) := by
  have same : (change.reference depth id superclass).text = name.text ↔
      superclass.text = name.text := by
    rw [Respelled.reference_text recorded, Respelled.lookedUp]
    split
    · next renamed =>
        -- A renamed superclass is found in the scope of the variable; the class's own
        -- name would have been found in the innermost one.
        refine iff_of_false freshName.symm fun same => ?_
        rw [same, held] at renamed
        exact kept (Option.some.inj renamed.2).symm renamed.1
    · rfl
  unfold Scope.enterSuperclass
  simp only [same]
  refine InStep.enter ?_ (by simp [Bindings.get?, proper.new.2])
  split
  · exact (inStep.report _ _ _).read fresh recorded
  · exact inStep.read fresh recorded

end InStep

end Scope

open Scope

namespace Renaming

variable {change : Renaming}

/-- The record is the lexical one at these sites. -/
def IsRecordedAt (change : Renaming) (sites : List Site) : Prop :=
  ∀ site ∈ sites, change.table[site.reference.id]? = site.record?

namespace IsRecordedAt

variable {first second : List Site}

theorem left (recorded : change.IsRecordedAt (first ++ second)) : change.IsRecordedAt first :=
  fun site member => recorded site (List.mem_append_left _ member)

theorem right (recorded : change.IsRecordedAt (first ++ second)) : change.IsRecordedAt second :=
  fun site member => recorded site (List.mem_append_right _ member)

theorem leftAt {regions : List Region} {first second : List Reference}
    (recorded : change.IsRecordedAt (sitesAt regions (first ++ second))) :
    change.IsRecordedAt (sitesAt regions first) := by
  rw [sitesAt_append] at recorded
  exact recorded.left

theorem rightAt {regions : List Region} {first second : List Reference}
    (recorded : change.IsRecordedAt (sitesAt regions (first ++ second))) :
    change.IsRecordedAt (sitesAt regions second) := by
  rw [sitesAt_append] at recorded
  exact recorded.right

/-- A variable is recorded where the walk finds it. -/
theorem distance?_eq {reference : Reference} {regions : List Region} {scopes : List Names}
    (recorded : change.IsRecordedAt (sitesAt regions [reference]))
    (isVariable : reference.IsVariable) (shows : List.Forall₂ Shows scopes regions) :
    change.table[reference.id]? = distance? reference.name.text scopes := by
  rw [recorded ⟨reference, regions⟩ (List.mem_singleton_self _), Site.record?, if_neg,
    distance?_eq_findIdx? _ shows]
  · rfl
  · rintro ⟨isSelf, -⟩
    rcases isVariable with isRead | isAssign
    · exact nomatch isSelf.symm.trans isRead
    · exact nomatch isSelf.symm.trans isAssign

end IsRecordedAt

end Renaming

namespace Scope

section Walk

variable {change : Renaming}

mutual

/-- Walks over an expression and over its renaming stay in step. -/
theorem resolveExpr_inStep (proper : change.IsProper) (context : Context) {depth : Nat}
    {regions : List Region} :
    ∀ (value : Expr) {state other : State}, Reflects state.scopes regions →
      change.IsRecordedAt (sitesAt regions value.references) → change.IsFreshIn value.tokens →
        InStep change depth state other →
          InStep change depth (resolveExpr context value state)
            (resolveExpr context (value.rename change depth) other)
  | .literal _, _, _, _, _, _, inStep => inStep
  | .read _ _, _, _, reflects, recorded, fresh, inStep =>
      inStep.read fresh.head (recorded.distance?_eq (.inl rfl) reflects.shows)
  | .assign _ _ value, _, _, reflects, recorded, fresh, inStep =>
      (resolveExpr_inStep proper context value reflects recorded.leftAt fresh.tail
        inStep).bindReference fresh.head
        (recorded.rightAt.distance?_eq (.inr rfl) (reflects.afterExpr context value).shows)
  | .unary _ _ operand, _, _, reflects, recorded, fresh, inStep =>
      resolveExpr_inStep proper context operand reflects recorded fresh.tail inStep
  | .binary _ _ left right, _, _, reflects, recorded, fresh, inStep =>
      resolveExpr_inStep proper context right (reflects.afterExpr context left) recorded.rightAt
        fresh.tail.right
        (resolveExpr_inStep proper context left reflects recorded.leftAt fresh.tail.left inStep)
  | .logical _ left right, _, _, reflects, recorded, fresh, inStep =>
      resolveExpr_inStep proper context right (reflects.afterExpr context left) recorded.rightAt
        fresh.right
        (resolveExpr_inStep proper context left reflects recorded.leftAt fresh.left inStep)
  | .group inner, _, _, reflects, recorded, fresh, inStep =>
      resolveExpr_inStep proper context inner reflects recorded fresh inStep
  | .call callee arguments _, _, _, reflects, recorded, fresh, inStep =>
      resolveExprs_inStep proper context arguments (reflects.afterExpr context callee)
        recorded.rightAt fresh.tail.right
        (resolveExpr_inStep proper context callee reflects recorded.leftAt fresh.tail.left inStep)
  | .get object _, _, _, reflects, recorded, fresh, inStep =>
      resolveExpr_inStep proper context object reflects recorded fresh.tail inStep
  | .set object _ value, _, _, reflects, recorded, fresh, inStep =>
      resolveExpr_inStep proper context object (reflects.afterExpr context value) recorded.leftAt
        fresh.tail.left
        (resolveExpr_inStep proper context value reflects recorded.rightAt fresh.tail.right inStep)
  | .self id line, _, _, _, _, _, inStep => by
      simp only [Expr.rename, resolveExpr]
      split
      · exact inStep.report _ _ _
      · exact inStep.bindSame id proper.old.1.symm proper.new.1.symm
  | .superMethod id line _, _, _, _, _, _, inStep => by
      simp only [Expr.rename, resolveExpr]
      refine InStep.bindSame ?_ id proper.old.2.symm proper.new.2.symm
      split
      · exact inStep.report _ _ _
      · exact inStep.report _ _ _
      · exact inStep

theorem resolveExprs_inStep (proper : change.IsProper) (context : Context) {depth : Nat}
    {regions : List Region} :
    ∀ (values : List Expr) {state other : State}, Reflects state.scopes regions →
      change.IsRecordedAt (sitesAt regions (Expr.referencesAll values)) →
        change.IsFreshIn (Expr.tokensAll values) → InStep change depth state other →
          InStep change depth (resolveExprs context values state)
            (resolveExprs context (Expr.renameAll change depth values) other)
  | [], _, _, _, _, _, inStep => inStep
  | first :: rest, _, _, reflects, recorded, fresh, inStep =>
      resolveExprs_inStep proper context rest (reflects.afterExpr context first) recorded.rightAt
        fresh.right
        (resolveExpr_inStep proper context first reflects recorded.leftAt fresh.left inStep)

end

theorem resolveOption_inStep (proper : change.IsProper) (context : Context) {depth : Nat}
    {regions : List Region}
    (value : Option Expr) {state other : State} (reflects : Reflects state.scopes regions)
    (recorded : change.IsRecordedAt (sitesAt regions (Expr.referencesOption value)))
    (fresh : change.IsFreshIn (Expr.tokensOption value))
    (inStep : InStep change depth state other) :
    InStep change depth (resolveOption context value state)
      (resolveOption context (value.map (Expr.rename change depth)) other) := by
  cases value with
  | none => exact inStep
  | some value => exact resolveExpr_inStep proper context value reflects recorded fresh inStep

mutual

/-- Walks over a statement inside the scope of the variable, and over its renaming,
stay in step. -/
theorem resolveStmt_inStep (proper : change.IsProper) (context : Context) (depth : Nat)
    (regions : List Region) (functions : List Surrounding)
    (inside : context.inClass = classAround regions)
    (around : context.function = functionAround functions) :
    ∀ (statement : Stmt) {state other : State}, List.Forall₂ Mirrors state.scopes regions →
      change.IsRecordedAt (statement.sites regions) → change.IsFreshIn statement.tokens →
      (depth = 0 → change.old ∉ statement.callables) → InStep change depth state other →
        InStep change depth (resolveStmt context statement state)
          (resolveStmt context (statement.rename change depth) other)
  | .expression value _, _, _, mirrors, recorded, fresh, _, inStep =>
      resolveExpr_inStep proper context value (Mirrors.reflects mirrors) recorded fresh inStep
  | .print value, _, _, mirrors, recorded, fresh, _, inStep =>
      resolveExpr_inStep proper context value (Mirrors.reflects mirrors) recorded fresh inStep
  | .declare name initial, _, _, mirrors, recorded, fresh, _, inStep =>
      (resolveOption_inStep proper context initial (Mirrors.reflects_declare name mirrors)
        recorded fresh.tail (inStep.declare fresh.head)).define fresh.head
  | .block body, _, _, mirrors, recorded, fresh, _, inStep =>
      (resolveStmts_inStep proper context (depth + 1) (.block body :: regions) functions inside
        around body (.cons (Mirrors.opened _ _) mirrors) recorded fresh nofun
        (inStep.enter rfl)).leave
  | .branch condition consequence none, _, _, mirrors, recorded, fresh, kept, inStep => by
      have tested := resolveExpr_inStep proper context condition (Mirrors.reflects mirrors)
        recorded.left fresh.left inStep
      rw [← resolveExpr_scopes context condition] at mirrors
      exact resolveStmt_inStep proper context depth regions functions inside around consequence
        mirrors recorded.right fresh.right kept tested
  | .branch condition consequence (some alternative), _, _, mirrors, recorded, fresh, kept,
      inStep => by
      have tested := resolveExpr_inStep proper context condition (Mirrors.reflects mirrors)
        recorded.left.left fresh.left inStep
      rw [← resolveExpr_scopes context condition] at mirrors
      have first := resolveStmt_inStep proper context depth regions functions inside around
        consequence mirrors recorded.left.right fresh.right.left
        (fun isZero member => kept isZero (List.mem_append_left _ member)) tested
      exact resolveStmt_inStep proper context depth _ functions
        (inside.trans (classAround_declared _ _).symm) around alternative
        (resolveStmt_reports context regions functions inside around consequence _ mirrors).2
        recorded.right fresh.right.right
        (fun isZero member => kept isZero (List.mem_append_right _ member)) first
  | .loop condition body, _, _, mirrors, recorded, fresh, kept, inStep => by
      have tested := resolveExpr_inStep proper context condition (Mirrors.reflects mirrors)
        recorded.left fresh.left inStep
      rw [← resolveExpr_scopes context condition] at mirrors
      exact resolveStmt_inStep proper context depth regions functions inside around body mirrors
        recorded.right fresh.right kept tested
  | .function (.mk name parameters body), _, _, mirrors, recorded, fresh, kept, inStep => by
      have introduced := inStep.introduce fresh.head
      have kept : depth = 0 → name.text ≠ change.old := fun isZero isOld =>
        kept isZero (List.mem_singleton.mpr isOld.symm)
      rw [declaration_of_ne kept] at introduced
      exact resolveFunction_inStep proper { context with function := .function } depth _ functions
        .function (inside.trans (classAround_declared _ _).symm) (.mk name parameters body) rfl
        (Mirrors.introduce name mirrors) recorded fresh introduced
  | .leave line value, _, _, mirrors, recorded, fresh, _, inStep => by
      have checked := inStep.checkReturn context line value.isSome
      rw [← checkReturn_scopes context line value.isSome] at mirrors
      have valued := resolveOption_inStep proper context value (Mirrors.reflects mirrors)
        recorded fresh checked
      simp only [Stmt.rename, resolveStmt, Option.isSome_map]
      exact valued
  | .classDecl name none methods, _, _, mirrors, recorded, fresh, kept, inStep => by
      have introduced := inStep.introduce fresh.head
      have kept : depth = 0 → name.text ≠ change.old := fun isZero isOld =>
        kept isZero (List.mem_singleton.mpr isOld.symm)
      rw [declaration_of_ne kept] at introduced
      exact (resolveMethods_inStep proper { context with inClass := .plain } (depth + 1)
        (.receiver false :: declared [name.text] regions) functions rfl methods
        (.cons (Mirrors.receiver false) (Mirrors.introduce name mirrors)) recorded fresh.tail
        (introduced.enter (by simp [Bindings.get?, proper.new.1]))).leave
  | .classDecl name (some (id, superclass)) methods, state, _, mirrors, recorded, fresh, kept,
      inStep => by
      have kept : depth = 0 → name.text ≠ change.old := fun isZero isOld =>
        kept isZero (List.mem_singleton.mpr isOld.symm)
      have mirrored := Mirrors.introduce name mirrors
      have introduced := inStep.introduce fresh.head
      rw [declaration_of_ne kept] at introduced
      -- The superclass is looked up where the name of the class is already held.
      have inherited := introduced.enterSuperclass proper fresh.head kept
        (inStep.distance?_introduce name) fresh.tail.head
        (recorded.left.distance?_eq (.inl rfl)
          (Mirrors.shows_declaring name.text (Mirrors.pending_eq_nil mirrors) mirrored))
      exact (resolveMethods_inStep proper { context with inClass := .subclass } (depth + 2)
        (.receiver true :: .superclass :: declared [name.text] regions) functions rfl methods
        (.cons (Mirrors.receiver true) (Mirrors.enterSuperclass name id superclass mirrored))
        recorded.right fresh.tail.tail
        (inherited.enter (by simp [Bindings.get?, proper.new.1]))).leave.leave

theorem resolveStmts_inStep (proper : change.IsProper) (context : Context) (depth : Nat)
    (regions : List Region) (functions : List Surrounding)
    (inside : context.inClass = classAround regions)
    (around : context.function = functionAround functions) :
    ∀ (statements : List Stmt) {state other : State}, List.Forall₂ Mirrors state.scopes regions →
      change.IsRecordedAt (Stmt.sitesAll regions statements) →
      change.IsFreshIn (Stmt.tokensAll statements) →
      (depth = 0 → change.old ∉ Stmt.callablesAll statements) → InStep change depth state other →
        InStep change depth (resolveStmts context statements state)
          (resolveStmts context (Stmt.renameAll change depth statements) other)
  | [], _, _, _, _, _, _, inStep => inStep
  | first :: rest, _, _, mirrors, recorded, fresh, kept, inStep =>
      resolveStmts_inStep proper context depth _ functions
        (inside.trans (classAround_declared _ _).symm) around rest
        (resolveStmt_reports context regions functions inside around first _ mirrors).2
        recorded.right fresh.right
        (fun isZero member => kept isZero (List.mem_append_right _ member))
        (resolveStmt_inStep proper context depth regions functions inside around first mirrors
          recorded.left fresh.left
          (fun isZero member => kept isZero (List.mem_append_left _ member)) inStep)

theorem resolveFunction_inStep (proper : change.IsProper) (context : Context) (depth : Nat)
    (regions : List Region) (functions : List Surrounding) (form : Diagnostic.Callable)
    (inside : context.inClass = classAround regions) :
    ∀ (declaration : Function) {state other : State},
      context.function = functionAround (⟨form, declaration.name.text⟩ :: functions) →
      List.Forall₂ Mirrors state.scopes regions →
      change.IsRecordedAt (declaration.sites regions) → change.IsFreshIn declaration.tokens →
      InStep change depth state other →
        InStep change depth (resolveFunction context declaration state)
          (resolveFunction context (declaration.rename change depth) other)
  | .mk name parameters body, state, other, around, mirrors, recorded, fresh, inStep => by
      have entered : InStep change (depth + 1) (state.enter []) (other.enter []) :=
        inStep.enter rfl
      have introduced := entered.introduceAll fun parameter member =>
        fresh.tail.left parameter.token (List.mem_map_of_mem member)
      rw [List.map_id'' (declaration_within depth)] at introduced
      exact (resolveStmts_inStep proper context (depth + 1) (.function parameters body :: regions)
        (⟨form, name.text⟩ :: functions) inside around body
        (Mirrors.enterFunction parameters body mirrors) recorded fresh.tail.right nofun
        introduced).leave

theorem resolveMethods_inStep (proper : change.IsProper) (context : Context) (depth : Nat)
    (regions : List Region) (functions : List Surrounding)
    (inside : context.inClass = classAround regions) :
    ∀ (methods : List Function) {state other : State}, List.Forall₂ Mirrors state.scopes regions →
      change.IsRecordedAt (Function.sitesAll regions methods) →
      change.IsFreshIn (Function.tokensAll methods) → InStep change depth state other →
        InStep change depth (resolveMethods context methods state)
          (resolveMethods context (Function.renameAll change depth methods) other)
  | [], _, _, _, _, _, inStep => inStep
  | .mk name parameters body :: rest, _, _, mirrors, recorded, fresh, inStep =>
      resolveMethods_inStep proper context depth regions functions inside rest
        (resolveFunction_reports { context with function := inMethod name } regions functions
          .method inside (.mk name parameters body) _ rfl mirrors).2
        recorded.right fresh.right
        (resolveFunction_inStep proper { context with function := inMethod name } depth regions
          functions .method inside (.mk name parameters body) rfl mirrors recorded.left fresh.left
          inStep)

end

/-- Where the scope of the variable closes, the walks meet again. -/
theorem InStep.leave_eq {state other : State} (inStep : InStep change 0 state other)
    (silent : state.errors = []) : other.leave = state.leave := by
  obtain ⟨scopes, table, errors⟩ := state
  obtain ⟨others, otherTable, otherErrors⟩ := other
  obtain rfl : errors = [] := silent
  obtain rfl : otherErrors = [] := List.eq_nil_of_length_eq_zero inStep.errors
  obtain rfl : otherTable = table := inStep.table
  unfold State.leave
  cases inStep.scopes with
  | here _ _ => rfl

theorem InStep.opened (state : State) : InStep change 0 (state.enter []) (state.enter []) :=
  ⟨.here rfl fun _ => rfl, rfl, rfl⟩

/-- Errors stay. -/
theorem Reports.silent_before {places : List Place} {before after : State}
    (reports : Reports places before after) (silent : after.errors = []) :
    before.errors = [] := by
  unfold Reports at reports
  rw [silent, List.nil_perm] at reports
  exact (List.append_eq_nil_iff.mp reports).1

theorem resolveFunction_renameLocal (proper : change.IsProper) (context : Context)
    (regions : List Region) (functions : List Surrounding) (form : Diagnostic.Callable)
    (inside : context.inClass = classAround regions) (declaration : Function) (state : State)
    (around : context.function = functionAround (⟨form, declaration.name.text⟩ :: functions))
    (mirrors : List.Forall₂ Mirrors state.scopes regions)
    (recorded : change.IsRecordedAt (declaration.sites regions))
    (fresh : change.IsFreshIn declaration.tokens) (once : declaration.DeclaresOnce)
    (declares : declaration.DeclaresVariable change.old)
    (silent : (resolveFunction context declaration state).errors = []) :
    resolveFunction context (declaration.renameLocal change) state =
      resolveFunction context declaration state := by
  obtain ⟨name, parameters, body⟩ := declaration
  have introduced := (InStep.opened state).introduceAll fun parameter member =>
    fresh.tail.left parameter.token (List.mem_map_of_mem member)
  exact (resolveStmts_inStep proper context 0 (.function parameters body :: regions)
    (⟨form, name.text⟩ :: functions) inside around body
    (Mirrors.enterFunction parameters body mirrors) recorded fresh.tail.right
    (fun _ => once.not_mem_callablesAll declares) introduced).leave_eq silent

mutual

/-- Wherever a variable is renamed in a statement without errors, the walk over the
statement leaves the same state. -/
theorem resolveStmt_renames (proper : change.IsProper) (context : Context)
    (regions : List Region) (functions : List Surrounding)
    (inside : context.inClass = classAround regions)
    (around : context.function = functionAround functions) {statement renamed : Stmt} :
    Stmt.Renames change statement renamed → ∀ state : State,
      List.Forall₂ Mirrors state.scopes regions → change.IsRecordedAt (statement.sites regions) →
      change.IsFreshIn statement.tokens → statement.DeclaresOnce →
      (resolveStmt context statement state).errors = [] →
        resolveStmt context renamed state = resolveStmt context statement state
  | @Stmt.Renames.scope _ body _ _ member isOld, state, mirrors, recorded, fresh, once, silent => by
      refine (resolveStmts_inStep proper context 0 (.block body :: regions) functions inside around
        body (.cons (Mirrors.opened _ _) mirrors) recorded fresh (fun _ => ?_)
        (InStep.opened state)).leave_eq silent
      rw [← isOld]
      exact Stmt.not_mem_callablesAll once.1 member
  | @Stmt.Renames.block _ body _ renames, state, mirrors, recorded, fresh, once, silent =>
      congrArg State.leave (resolveStmts_renames proper context (.block body :: regions) functions
        inside around renames (state.enter []) (.cons (Mirrors.opened _ _) mirrors) recorded fresh
        once.2 silent)
  | @Stmt.Renames.consequence _ condition _ _ none renames, state, mirrors, recorded, fresh, once,
      silent => by
      rw [← resolveExpr_scopes context condition] at mirrors
      exact resolveStmt_renames proper context regions functions inside around renames _ mirrors
        recorded.right fresh.right once silent
  | @Stmt.Renames.consequence _ condition consequence _ (some alternative) renames, state,
      mirrors, recorded, fresh, once, silent => by
      rw [← resolveExpr_scopes context condition] at mirrors
      have first := resolveStmt_reports context regions functions inside around consequence _
        mirrors
      -- Errors stay, so a walk that is silent in the end was silent in between.
      have second := resolveStmt_reports context _ functions
        (inside.trans (classAround_declared _ _).symm) around alternative _ first.2
      exact congrArg (resolveStmt context alternative) (resolveStmt_renames proper context regions
        functions inside around renames _ mirrors recorded.left.right fresh.right.left once.1
        (second.1.silent_before silent))
  | @Stmt.Renames.alternative _ condition consequence _ _ renames, state, mirrors, recorded, fresh,
      once, silent => by
      rw [← resolveExpr_scopes context condition] at mirrors
      have first := resolveStmt_reports context regions functions inside around consequence _
        mirrors
      exact resolveStmt_renames proper context _ functions
        (inside.trans (classAround_declared _ _).symm) around renames _ first.2 recorded.right
        fresh.right.right once.2 silent
  | @Stmt.Renames.loop _ condition _ _ renames, state, mirrors, recorded, fresh, once, silent => by
      rw [← resolveExpr_scopes context condition] at mirrors
      exact resolveStmt_renames proper context regions functions inside around renames _ mirrors
        recorded.right fresh.right once silent
  | @Stmt.Renames.function _ declaration _ renames, state, mirrors, recorded, fresh, once,
      silent => by
      have same := resolveFunction_renames proper { context with function := .function } _
        functions .function (inside.trans (classAround_declared _ _).symm) renames
        (state.introduce declaration.name) rfl (Mirrors.introduce declaration.name mirrors)
        recorded fresh once silent
      simp only [resolveStmt, renames.name_eq]
      exact same
  | @Stmt.Renames.classDecl _ name none _ _ renames, state, mirrors, recorded, fresh, once,
      silent =>
      congrArg State.leave (resolveMethods_renames proper { context with inClass := .plain }
        (.receiver false :: declared [name.text] regions) functions rfl renames _
        (.cons (Mirrors.receiver false) (Mirrors.introduce name mirrors)) recorded fresh.tail once
        silent)
  | @Stmt.Renames.classDecl _ name (some (id, superclass)) _ _ renames, state, mirrors, recorded,
      fresh, once, silent => by
      have mirrored := Mirrors.introduce name mirrors
      have same := resolveMethods_renames proper { context with inClass := .subclass }
        (.receiver true :: .superclass :: declared [name.text] regions) functions rfl renames
        ((enterSuperclass name id superclass (state.introduce name)).enter
          [((thisName 0).text, true)])
        (.cons (Mirrors.receiver true) (Mirrors.enterSuperclass name id superclass mirrored))
        recorded.right fresh.tail.tail once silent
      exact congrArg (fun state => state.leave.leave) same

theorem resolveStmts_renames (proper : change.IsProper) (context : Context)
    (regions : List Region) (functions : List Surrounding)
    (inside : context.inClass = classAround regions)
    (around : context.function = functionAround functions) {statements renamed : List Stmt} :
    Stmt.RenamesAll change statements renamed → ∀ state : State,
      List.Forall₂ Mirrors state.scopes regions →
      change.IsRecordedAt (Stmt.sitesAll regions statements) →
      change.IsFreshIn (Stmt.tokensAll statements) → Stmt.DeclaresOnceAll statements →
      (resolveStmts context statements state).errors = [] →
        resolveStmts context renamed state = resolveStmts context statements state
  | @Stmt.RenamesAll.head _ first _ rest renames, state, mirrors, recorded, fresh, once,
      silent => by
      have left := resolveStmt_reports context regions functions inside around first state mirrors
      have right := resolveStmts_reports context _ functions
        (inside.trans (classAround_declared _ _).symm) around rest _ left.2
      exact congrArg (resolveStmts context rest) (resolveStmt_renames proper context regions
        functions inside around renames state mirrors recorded.left fresh.left once.1
        (right.1.silent_before silent))
  | @Stmt.RenamesAll.tail _ first _ _ renames, state, mirrors, recorded, fresh, once, silent =>
      resolveStmts_renames proper context _ functions
        (inside.trans (classAround_declared _ _).symm) around renames _
        (resolveStmt_reports context regions functions inside around first state mirrors).2
        recorded.right fresh.right once.2 silent

theorem resolveFunction_renames (proper : change.IsProper) (context : Context)
    (regions : List Region) (functions : List Surrounding) (form : Diagnostic.Callable)
    (inside : context.inClass = classAround regions) {declaration renamed : Function} :
    Function.Renames change declaration renamed → ∀ state : State,
      context.function = functionAround (⟨form, declaration.name.text⟩ :: functions) →
      List.Forall₂ Mirrors state.scopes regions →
      change.IsRecordedAt (declaration.sites regions) → change.IsFreshIn declaration.tokens →
      declaration.DeclaresOnce → (resolveFunction context declaration state).errors = [] →
        resolveFunction context renamed state = resolveFunction context declaration state
  | @Function.Renames.scope _ declaration declares, state, around, mirrors, recorded, fresh, once,
      silent =>
      resolveFunction_renameLocal proper context regions functions form inside declaration state
        around mirrors recorded fresh once declares silent
  | @Function.Renames.body _ name parameters body _ renames, state, around, mirrors, recorded,
      fresh, once, silent => by
      exact congrArg State.leave (resolveStmts_renames proper context
        (.function parameters body :: regions) (⟨form, name.text⟩ :: functions) inside around
        renames _ (Mirrors.enterFunction parameters body mirrors) recorded
        fresh.tail.right once.2 silent)

theorem resolveMethods_renames (proper : change.IsProper) (context : Context)
    (regions : List Region) (functions : List Surrounding)
    (inside : context.inClass = classAround regions) {methods renamed : List Function} :
    Function.RenamesAll change methods renamed → ∀ state : State,
      List.Forall₂ Mirrors state.scopes regions →
      change.IsRecordedAt (Function.sitesAll regions methods) →
      change.IsFreshIn (Function.tokensAll methods) → Function.DeclaresOnceAll methods →
      (resolveMethods context methods state).errors = [] →
        resolveMethods context renamed state = resolveMethods context methods state
  | @Function.RenamesAll.head _ first _ rest renames, state, mirrors, recorded, fresh, once,
      silent => by
      have left := resolveFunction_reports { context with function := inMethod first.name } regions
        functions .method inside first state rfl mirrors
      have right := resolveMethods_reports context regions functions inside rest _ left.2
      have same := resolveFunction_renames proper { context with function := inMethod first.name }
        regions functions .method inside renames state rfl mirrors recorded.left fresh.left once.1
        (right.1.silent_before silent)
      simp only [resolveMethods, renames.name_eq, same]
  | @Function.RenamesAll.tail _ first _ _ renames, state, mirrors, recorded, fresh, once, silent =>
      resolveMethods_renames proper context regions functions inside renames _
        (resolveFunction_reports { context with function := inMethod first.name } regions functions
          .method inside first state rfl mirrors).2
        recorded.right fresh.right once.2 silent

end

end Walk

end Scope

mutual

/-- What is renamed was declared, and the grammar lets only ordinary names be. -/
theorem Stmt.Renames.ordinary {change : Renaming} {statement renamed : Stmt} :
    Stmt.Renames change statement renamed → statement.IsRegular → IsOrdinary change.old
  | .scope member isOld, regular => by
      rw [← isOld]
      exact Stmt.IsRegularAll.ordinary_of_declaresAll regular _
        (List.mem_flatMap.mpr ⟨_, member, List.mem_singleton_self _⟩)
  | .block renames, regular => renames.ordinary regular
  | @Stmt.Renames.consequence _ _ _ _ none renames, regular => renames.ordinary regular.1
  | @Stmt.Renames.consequence _ _ _ _ (some _) renames, regular => renames.ordinary regular.1.1
  | .alternative renames, regular => renames.ordinary regular.2.1
  | .loop renames, regular => renames.ordinary regular.1
  | .function renames, regular => renames.ordinary regular
  | .classDecl renames, regular => renames.ordinary regular.2

theorem Stmt.RenamesAll.ordinary {change : Renaming} {statements renamed : List Stmt} :
    Stmt.RenamesAll change statements renamed → Stmt.IsRegularAll statements →
      IsOrdinary change.old
  | .head renames, regular => renames.ordinary regular.1
  | .tail renames, regular => renames.ordinary regular.2

theorem Function.Renames.ordinary {change : Renaming} {declaration renamed : Function} :
    Function.Renames change declaration renamed → declaration.IsRegular → IsOrdinary change.old
  | @Function.Renames.scope _ (.mk _ _ _) declares, regular => by
      rcases declares with parameter | ⟨declared, initial, member, isOld⟩
      · obtain ⟨parameter, listed, isOld⟩ := List.mem_map.mp parameter
        rw [← isOld]
        exact regular.2.1 parameter listed
      · rw [← isOld]
        exact Stmt.IsRegularAll.ordinary_of_declaresAll regular.2.2 _
          (List.mem_flatMap.mpr ⟨_, member, List.mem_singleton_self _⟩)
  | .body renames, regular => renames.ordinary regular.2.2

theorem Function.RenamesAll.ordinary {change : Renaming} {declarations renamed : List Function} :
    Function.RenamesAll change declarations renamed → Function.IsRegularAll declarations →
      IsOrdinary change.old
  | .head renames, regular => renames.ordinary regular.1
  | .tail renames, regular => renames.ordinary regular.2

end

/-- A program with one variable renamed is resolved as the program is. -/
theorem resolve_renames {change : Renaming} (proper : change.IsProper)
    {statements renamed : List Stmt} (renames : Stmt.RenamesAll change statements renamed)
    (fresh : change.IsFreshIn (Stmt.tokensAll statements)) {table : Resolution}
    (distinct : ((Stmt.referencesAll statements).map Reference.id).Nodup)
    (unrecorded : ∀ reference ∈ Stmt.referencesAll statements, table[reference.id]? = none)
    (recorded : change.table = (resolve statements table).1)
    (silent : (resolve statements table).2 = []) :
    resolve renamed table = resolve statements table := by
  have atSites : change.IsRecordedAt (Stmt.sitesAll [] statements) := by
    intro site member
    rw [recorded]
    refine (resolve_resolves table distinct).recorded site member (unrecorded _ ?_)
    rw [← Stmt.map_reference_sitesAll []]
    exact List.mem_map_of_mem member
  have same := resolveStmts_renames proper {} [] [] rfl rfl renames ⟨[], table, []⟩ .nil atSites
    fresh (Stmt.declaresOnceAll_of_silent silent) silent
  unfold resolve
  rw [same]

end LoxLang
