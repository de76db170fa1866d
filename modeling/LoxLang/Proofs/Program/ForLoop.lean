import LoxLang.Proofs.Program.Numbering
import LoxLang.Proofs.Program.Relabel
import LoxLang.Proofs.Program.Soundness
import LoxLang.Proofs.Scope.Gap

/-!
The parts of a `for` statement and where they stand.  As it is written, the statement has
one scope of its own if it has an initializer, and its condition, its body and its increment
stand in that scope together.  In the tree that it is read as, a body with an increment
stands in a block of its own.
-/

namespace LoxLang

open Scope

/-- Other labels leave the declared names as they are. -/
@[simp]
theorem Stmt.declares_relabel (labels : Relabelling) :
    ∀ statement : Stmt, (statement.relabel labels).declares = statement.declares
  | .expression _ _ | .print _ | .declare _ _ | .block _ | .leave _ _ | .classDecl _ _ _ => rfl
  | .branch _ consequence none => declares_relabel labels consequence
  | .branch _ consequence (some alternative) => by
      simp only [relabel, declares, declares_relabel labels consequence,
        declares_relabel labels alternative]
  | .loop _ body => declares_relabel labels body
  | .function (.mk _ _ _) => rfl

/-- A `for` statement.  Its body is not a declaration. -/
structure ForLoop where
  initial : Option Stmt
  condition : Option Expr
  increment : Option Expr
  body : Stmt
  quiet : body.declares = []

namespace ForLoop

/-- The tree that the statement is read as. -/
def lowered (loop : ForLoop) : Stmt :=
  Parser.lowerFor loop.initial loop.condition loop.increment loop.body

/-- The statement with other identities. -/
def renumber (ids : RefId → RefId) (loop : ForLoop) : ForLoop where
  initial := loop.initial.map (Stmt.relabel (.renumber ids))
  condition := loop.condition.map (Expr.relabel (.renumber ids))
  increment := loop.increment.map (Expr.relabel (.renumber ids))
  body := loop.body.relabel (.renumber ids)
  quiet := by rw [Stmt.declares_relabel, loop.quiet]

/-- The scopes around the condition, the body and the increment. -/
def scopes (loop : ForLoop) (around : List Region) : List Region :=
  match loop.initial with
  | none => around
  | some initial => declared initial.declares (.block [initial] :: around)

/-- The references of the initializer with the scopes around them. -/
def initialSites (loop : ForLoop) (around : List Region) : List Site :=
  match loop.initial with
  | none => []
  | some initial => initial.sites (.block [initial] :: around)

/-- The references of the statement with the scopes around them, as it is written. -/
def sites (loop : ForLoop) (around : List Region) : List Site :=
  loop.initialSites around ++
    (sitesAt (loop.scopes around) (Expr.referencesOption loop.condition) ++
      (loop.body.sites (loop.scopes around) ++
        sitesAt (loop.scopes around) (Expr.referencesOption loop.increment)))

/-- What the tree tests in every round. -/
def test (loop : ForLoop) : Expr :=
  loop.condition.getD (.literal (.bool true))

/-- What the tree executes in every round. -/
def round (loop : ForLoop) : Stmt :=
  match loop.increment with
  | none => loop.body
  | some increment => .block [loop.body, .expression increment false]

theorem lowered_eq (loop : ForLoop) :
    loop.lowered = match loop.initial with
      | none => .loop loop.test loop.round
      | some initial => .block [initial, .loop loop.test loop.round] := by
  obtain ⟨initial, condition, increment, body, quiet⟩ := loop
  cases initial <;> cases increment <;> rfl

@[simp]
theorem declares_round (loop : ForLoop) : loop.round.declares = [] := by
  unfold round
  split
  · exact loop.quiet
  · rfl

theorem references_test (loop : ForLoop) :
    loop.test.references = Expr.referencesOption loop.condition := by
  obtain ⟨initial, condition, increment, body, quiet⟩ := loop
  cases condition <;> rfl

/-- The references of the tree stand at the places of its parts. -/
theorem sites_lowered (loop : ForLoop) (around : List Region) :
    loop.lowered.sites around =
      loop.initialSites around ++
        (sitesAt (loop.scopes around) (Expr.referencesOption loop.condition) ++
          loop.round.sites (loop.scopes around)) := by
  rw [lowered_eq, ← references_test]
  unfold initialSites scopes
  cases loop.initial with
  | none => rfl
  | some initial =>
      have same : Region.block [initial, .loop loop.test loop.round] = .block [initial] := by
        simp [Region.block, Stmt.declaresAll, Stmt.declares]
      simp only [Stmt.sites, Stmt.sitesAll, same, List.append_nil]

/-- The references of a round stand in a block of their own if there is an increment. -/
theorem sites_round (loop : ForLoop) (around : List Region) :
    loop.round.sites around =
      match loop.increment with
      | none => loop.body.sites around
      | some increment =>
          loop.body.sites (.block [] :: around) ++
            sitesAt (.block [] :: around) increment.references := by
  unfold round
  cases loop.increment with
  | none => rfl
  | some increment =>
      have same : Region.block [loop.body, .expression increment false] = .block [] := by
        simp [Region.block, Stmt.declaresAll, Stmt.declares, loop.quiet]
      simp only [Stmt.sites, Stmt.sitesAll, same, loop.quiet, declared_nil, List.append_nil]

/-- The statement refers to what the tree refers to. -/
theorem map_reference_sites (loop : ForLoop) (around : List Region) :
    (loop.sites around).map Site.reference = (loop.lowered.sites around).map Site.reference := by
  have round (scopes : List Region) : (loop.round.sites scopes).map Site.reference =
      loop.body.references ++ Expr.referencesOption loop.increment := by
    rw [sites_round]
    cases loop.increment with
    | none => simp [Stmt.map_reference_sites, Expr.referencesOption]
    | some increment => simp [Stmt.map_reference_sites, Expr.referencesOption]
  simp only [sites, sites_lowered, List.map_append, round, Stmt.map_reference_sites,
    map_reference_sitesAt]

end ForLoop

namespace Grammar

/-- Tokens are a `for` statement as it is written: its clauses with the marks between them,
then its body. -/
inductive ForStatement (nearest dangling : Bool) : Cursor → ForLoop → Cursor → Prop where
  | intro {word opens semicolon closes : Token} {inside middle rest : List Token}
      {id second third : RefId} {clauses after : Cursor} {loop : ForLoop} :
      word.kind = .forWord → opens.kind = .leftParen →
      Initializer ⟨inside, id⟩ loop.initial clauses →
      Optional clauses loop.condition ⟨semicolon :: middle, second⟩ →
      semicolon.kind = .semicolon →
      Optional ⟨middle, second⟩ loop.increment ⟨closes :: rest, third⟩ →
      closes.kind = .rightParen → Statement nearest dangling ⟨rest, third⟩ loop.body after →
        ForStatement nearest dangling ⟨word :: opens :: inside, id⟩ loop after

/-- A statement that begins with the word `for` is read as the tree of its clauses. -/
theorem Statement.exists_forLoop {nearest dangling : Bool} {word : Token} {inside : List Token}
    {id : RefId} {after : Cursor} {tree : Stmt} (named : Named (word :: inside))
    (derived : Statement nearest dangling ⟨word :: inside, id⟩ tree after)
    (isFor : word.kind = .forWord) :
    ∃ loop : ForLoop, ForStatement nearest dangling ⟨word :: inside, id⟩ loop after ∧
      tree = loop.lowered := by
  cases derived with
  | expression tree =>
      obtain ⟨token, rest, same, starts, -⟩ := tree.begins
      obtain ⟨rfl, -⟩ := List.cons.inj same
      rw [isFor] at starts
      cases starts
  | forLoop _ isOpen initial condition isSemicolon increment isClosed body lowered =>
      have first := (initial.orders named.tail.tail).1
      have third := increment.numbers (condition.numbers first.named).named.tail
      have quiet := (body.orders third.named.tail).2
      exact ⟨⟨_, _, _, _, quiet⟩,
        .intro isFor isOpen initial condition isSemicolon increment isClosed body,
        lowered.trans (Parser.lowerFor_eq ..).symm⟩
  | _ isWord =>
      rw [isFor] at isWord
      cases isWord

end Grammar

end LoxLang
