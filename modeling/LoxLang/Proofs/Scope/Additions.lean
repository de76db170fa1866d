import Mathlib.Data.List.Pairwise
import LoxLang.Proofs.Scope.Records

/-!
What a resolution adds to the record.  Nothing that was recorded before is read, so a
program gets the same records whatever came before it, and resolving it again adds
nothing.  Programs that share no identity leave each other's records alone, so the record
of a session is the union of the records of its programs.
-/

namespace LoxLang

namespace Scope

/-- A resolution that starts from earlier records, beside one that starts from none. -/
structure Overlays (earlier : Resolution) (state alone : State) : Prop where
  scopes : state.scopes = alone.scopes
  table : ∀ id : RefId, state.table[id]? = alone.table[id]?.or earlier[id]?

namespace Overlays

variable {earlier : Resolution} {state alone : State}

/-- Errors play no part. -/
theorem reportIf (overlays : Overlays earlier state alone) (name : Name)
    (cause : Diagnostic.Cause) {test otherTest : Prop} [Decidable test] [Decidable otherTest] :
    Overlays earlier (if test then state.report name cause else state)
      (if otherTest then alone.report name cause else alone) := by
  obtain ⟨scopes, table⟩ := overlays
  split <;> split <;> exact ⟨scopes, table⟩

theorem enter (overlays : Overlays earlier state alone) (names : Names) :
    Overlays earlier (state.enter names) (alone.enter names) :=
  ⟨congrArg (names :: ·) overlays.scopes, overlays.table⟩

theorem leave (overlays : Overlays earlier state alone) :
    Overlays earlier state.leave alone.leave :=
  ⟨congrArg List.tail overlays.scopes, overlays.table⟩

theorem put (overlays : Overlays earlier state alone) (text : Bytes) (complete : Bool) :
    Overlays earlier (state.put text complete) (alone.put text complete) := by
  obtain ⟨scopes, table⟩ := overlays
  unfold State.put
  rw [scopes]
  split
  · exact ⟨scopes, table⟩
  · exact ⟨rfl, table⟩

theorem declare (overlays : Overlays earlier state alone) (name : Name) :
    Overlays earlier (state.declare name) (alone.declare name) := by
  unfold State.declare
  rw [overlays.scopes]
  split
  · exact overlays
  · exact (overlays.reportIf name _).put name.text false

theorem introduce (overlays : Overlays earlier state alone) (name : Name) :
    Overlays earlier (state.introduce name) (alone.introduce name) :=
  (overlays.declare name).put name.text true

theorem introduceAll :
    ∀ (names : List Name) {state alone : State}, Overlays earlier state alone →
      Overlays earlier (names.foldl State.introduce state) (names.foldl State.introduce alone)
  | [], _, _, overlays => overlays
  | name :: rest, _, _, overlays => introduceAll rest (overlays.introduce name)

/-- The distance comes from the open scopes, which are the same. -/
theorem bind (overlays : Overlays earlier state alone) (id : RefId) (text : Bytes) :
    Overlays earlier (state.bind id text) (alone.bind id text) := by
  unfold State.bind
  rw [overlays.scopes]
  split
  · refine ⟨rfl, fun asked => ?_⟩
    simp only [Std.HashMap.getElem?_insert]
    split
    · rfl
    · exact overlays.table asked
  · exact overlays

theorem read (overlays : Overlays earlier state alone) (id : RefId) (name : Name) :
    Overlays earlier (state.read id name) (alone.read id name) :=
  (overlays.reportIf name _).bind id name.text

mutual

theorem resolveExpr (context : Context) :
    ∀ (expression : Expr) {state alone : State}, Overlays earlier state alone →
      Overlays earlier (Scope.resolveExpr context expression state)
        (Scope.resolveExpr context expression alone)
  | .literal _, _, _, overlays => overlays
  | .read id name, _, _, overlays => overlays.read id name
  | .assign id name value, _, _, overlays => (resolveExpr context value overlays).bind id name.text
  | .unary _ _ operand, _, _, overlays => resolveExpr context operand overlays
  | .binary _ _ left right, _, _, overlays =>
      resolveExpr context right (resolveExpr context left overlays)
  | .logical _ left right, _, _, overlays =>
      resolveExpr context right (resolveExpr context left overlays)
  | .group inner, _, _, overlays => resolveExpr context inner overlays
  | .call callee arguments _, _, _, overlays =>
      resolveExprs context arguments (resolveExpr context callee overlays)
  | .get object _, _, _, overlays => resolveExpr context object overlays
  | .set object _ value, _, _, overlays =>
      resolveExpr context object (resolveExpr context value overlays)
  | .self id line, _, _, overlays => by
      unfold Scope.resolveExpr
      split
      · exact ⟨overlays.scopes, overlays.table⟩
      · exact overlays.bind id _
  | .superMethod id line _, _, _, overlays => by
      unfold Scope.resolveExpr
      apply bind
      cases context.inClass with
      | none => exact ⟨overlays.scopes, overlays.table⟩
      | plain => exact ⟨overlays.scopes, overlays.table⟩
      | subclass => exact overlays

theorem resolveExprs (context : Context) :
    ∀ (expressions : List Expr) {state alone : State}, Overlays earlier state alone →
      Overlays earlier (Scope.resolveExprs context expressions state)
        (Scope.resolveExprs context expressions alone)
  | [], _, _, overlays => overlays
  | first :: rest, _, _, overlays => resolveExprs context rest (resolveExpr context first overlays)

end

theorem resolveOption (context : Context) (value : Option Expr)
    (overlays : Overlays earlier state alone) :
    Overlays earlier (Scope.resolveOption context value state)
      (Scope.resolveOption context value alone) := by
  cases value with
  | none => exact overlays
  | some value => exact resolveExpr context value overlays

theorem checkReturn (context : Context) (line : Nat) (hasValue : Bool)
    (overlays : Overlays earlier state alone) :
    Overlays earlier (Scope.checkReturn context line hasValue state)
      (Scope.checkReturn context line hasValue alone) :=
  (overlays.reportIf (returnName line) _).reportIf (returnName line) _

theorem enterSuperclass (name : Name) (id : RefId) (superclass : Name)
    (overlays : Overlays earlier state alone) :
    Overlays earlier (Scope.enterSuperclass name id superclass state)
      (Scope.enterSuperclass name id superclass alone) :=
  ((overlays.reportIf superclass _).read id superclass).enter _

mutual

theorem resolveStmt (context : Context) :
    ∀ (statement : Stmt) {state alone : State}, Overlays earlier state alone →
      Overlays earlier (Scope.resolveStmt context statement state)
        (Scope.resolveStmt context statement alone)
  | .expression value _, _, _, overlays => resolveExpr context value overlays
  | .print value, _, _, overlays => resolveExpr context value overlays
  | .declare name initial, _, _, overlays =>
      (resolveOption context initial (overlays.declare name)).put name.text true
  | .block body, _, _, overlays => (resolveStmts context body (overlays.enter [])).leave
  | .branch condition consequence none, _, _, overlays =>
      resolveStmt context consequence (resolveExpr context condition overlays)
  | .branch condition consequence (some alternative), _, _, overlays =>
      resolveStmt context alternative
        (resolveStmt context consequence (resolveExpr context condition overlays))
  | .loop condition body, _, _, overlays =>
      resolveStmt context body (resolveExpr context condition overlays)
  | .function declaration, _, _, overlays =>
      resolveFunction _ declaration (overlays.introduce declaration.name)
  | .leave line value, _, _, overlays =>
      resolveOption context value (overlays.checkReturn context line value.isSome)
  | .classDecl name none methods, _, _, overlays =>
      (resolveMethods _ methods ((overlays.introduce name).enter _)).leave
  | .classDecl name (some (id, superclass)) methods, _, _, overlays =>
      (resolveMethods _ methods
        (((overlays.introduce name).enterSuperclass name id superclass).enter _)).leave.leave

theorem resolveStmts (context : Context) :
    ∀ (statements : List Stmt) {state alone : State}, Overlays earlier state alone →
      Overlays earlier (Scope.resolveStmts context statements state)
        (Scope.resolveStmts context statements alone)
  | [], _, _, overlays => overlays
  | first :: rest, _, _, overlays => resolveStmts context rest (resolveStmt context first overlays)

theorem resolveFunction (context : Context) :
    ∀ (declaration : Function) {state alone : State}, Overlays earlier state alone →
      Overlays earlier (Scope.resolveFunction context declaration state)
        (Scope.resolveFunction context declaration alone)
  | .mk _ parameters body, _, _, overlays =>
      (resolveStmts context body (introduceAll parameters (overlays.enter []))).leave

theorem resolveMethods (context : Context) :
    ∀ (methods : List Function) {state alone : State}, Overlays earlier state alone →
      Overlays earlier (Scope.resolveMethods context methods state)
        (Scope.resolveMethods context methods alone)
  | [], _, _, overlays => overlays
  | first :: rest, _, _, overlays =>
      resolveMethods context rest (resolveFunction _ first overlays)

end

end Overlays

end Scope

/-- What a program has recorded on its own. -/
def resolutionOf (statements : List Stmt) : Resolution :=
  (resolve statements {}).1

/-- A program's own records are put over those that were there. -/
theorem resolve_getElem?_eq_or (statements : List Stmt) (table : Resolution) (id : RefId) :
    (resolve statements table).1[id]? = (resolutionOf statements)[id]?.or table[id]? := by
  have start : Scope.Overlays table ⟨[], table, []⟩ ⟨[], {}, []⟩ :=
    ⟨rfl, fun id => by rw [Std.HashMap.getElem?_empty, Option.none_or]⟩
  exact (start.resolveStmts {} statements).table id

/-- Only references in the program are recorded for it. -/
theorem mem_references_of_resolutionOf {statements : List Stmt} {id distance : Nat}
    (recorded : (resolutionOf statements)[id]? = some distance) :
    ∃ reference ∈ Stmt.referencesAll statements, reference.id = id := by
  by_contra absent
  have avoids : Avoids id (Stmt.referencesAll statements) :=
    fun reference member same => absent ⟨reference, member, same⟩
  rw [resolutionOf, resolve_getElem?_of_avoids {} avoids, Std.HashMap.getElem?_empty] at recorded
  cases recorded

/-- No reference of one program has the identity of a reference of the other. -/
def Apart (first second : List Stmt) : Prop :=
  ∀ reference ∈ Stmt.referencesAll first, ∀ other ∈ Stmt.referencesAll second,
    reference.id ≠ other.id

theorem Apart.symm {first second : List Stmt} (apart : Apart first second) : Apart second first :=
  fun reference member other otherMember same =>
    apart other otherMember reference member same.symm

/-- Of programs that share no identity, two are the same or apart. -/
theorem eq_or_apart_of_pairwise {programs : List (List Stmt)}
    (distinct : programs.Pairwise Apart) {first second : List Stmt} (member : first ∈ programs)
    (other : second ∈ programs) : first = second ∨ Apart first second := by
  have symmetric : Std.Symm Apart := ⟨fun _ _ => Apart.symm⟩
  by_cases same : first = second
  · exact .inl same
  · exact .inr (distinct.forall member other same)

/-- A record holds what its programs have recorded on their own, and nothing else. -/
def Resolution.IsUnion (table : Resolution) (programs : List (List Stmt)) : Prop :=
  ∀ (id : RefId) (distance : Nat), table[id]? = some distance ↔
    ∃ program ∈ programs, (resolutionOf program)[id]? = some distance

namespace Resolution.IsUnion

variable {table : Resolution} {programs : List (List Stmt)} {program : List Stmt}

theorem empty : IsUnion {} [] :=
  fun id distance => by simp

/-- Whatever the program, what is recorded for it joins the record. -/
theorem resolve (union : table.IsUnion programs)
    (apart : ∀ other ∈ programs, other = program ∨ Apart other program) :
    Resolution.IsUnion (LoxLang.resolve program table).1 (programs ++ [program]) := by
  intro id distance
  rw [resolve_getElem?_eq_or, Option.or_eq_some_iff]
  constructor
  · rintro (own | ⟨-, held⟩)
    · exact ⟨program, List.mem_append_right _ (List.mem_singleton_self _), own⟩
    · obtain ⟨other, member, recorded⟩ := (union id distance).mp held
      exact ⟨other, List.mem_append_left _ member, recorded⟩
  · rintro ⟨other, member, recorded⟩
    rcases List.mem_append.mp member with earlier | last
    · rcases apart other earlier with rfl | separate
      · exact .inl recorded
      · refine .inr ⟨?_, (union id distance).mpr ⟨other, earlier, recorded⟩⟩
        obtain ⟨reference, inOther, rfl⟩ := mem_references_of_resolutionOf recorded
        by_contra shared
        obtain ⟨_, own⟩ := Option.ne_none_iff_exists'.mp shared
        obtain ⟨twin, inProgram, same⟩ := mem_references_of_resolutionOf own
        exact separate reference inOther twin inProgram same.symm
    · obtain rfl := List.mem_singleton.mp last
      exact .inl recorded

/-- For its references a program has in the record what it has on its own. -/
theorem getElem?_eq (union : table.IsUnion programs) (resolved : program ∈ programs)
    (apart : ∀ other ∈ programs, other = program ∨ Apart other program)
    {reference : Reference} (member : reference ∈ Stmt.referencesAll program) :
    table[reference.id]? = (resolutionOf program)[reference.id]? := by
  apply Option.ext
  intro distance
  rw [union]
  constructor
  · rintro ⟨other, inPrograms, recorded⟩
    rcases apart other inPrograms with rfl | separate
    · exact recorded
    · obtain ⟨twin, inOther, same⟩ := mem_references_of_resolutionOf recorded
      exact absurd same (separate twin inOther reference member)
  · exact fun recorded => ⟨program, resolved, recorded⟩

/-- Resolving a program again leaves the record as it is. -/
theorem resolve_again (union : table.IsUnion programs) (resolved : program ∈ programs) :
    (LoxLang.resolve program table).1.Equiv table := by
  apply Std.HashMap.Equiv.of_forall_getElem?_eq
  intro id
  rw [resolve_getElem?_eq_or]
  cases own : (resolutionOf program)[id]? with
  | none => exact Option.none_or
  | some distance => exact ((union id distance).mpr ⟨program, resolved, own⟩).symm

end Resolution.IsUnion

end LoxLang
