import LoxLang.Proofs.Eval.Soundness
import LoxLang.Proofs.Program.Soundness
import LoxLang.Proofs.Token.Words

/-!
Code that joins the code of a session.  What parses without an error is a
program whose references are all new.  Resolution accepts it beside the code
that came before, and a heap that kept to the earlier code keeps to both.
-/

namespace LoxLang

open Scope

/-- Code with more references than another.  The records of the earlier ones
are the same. -/
structure Code.Extends (code earlier : Code) : Prop where
  limit : earlier.limit ≤ code.limit
  table : ∀ id < earlier.limit, code.table[id]? = earlier.table[id]?
  searchable : code.searchable → earlier.searchable

namespace Code.Extends

variable {code earlier : Code} {layout : Layout} {heap : Heap}

theorem acceptsSite {site : Site} (larger : code.Extends earlier)
    (accepts : earlier.AcceptsSite site) : code.AcceptsSite site := by
  have same := larger.table _ accepts.below
  refine ⟨Nat.lt_of_lt_of_le accepts.below larger.limit, ?_, ?_⟩
  · unfold Site.IsSound
    rw [same]
    exact accepts.sound
  · intro searchable isVariable
    unfold Site.IsSearchable
    rw [same]
    exact accepts.searched (larger.searchable searchable) isVariable

theorem acceptsFunction {around : List Region} {declaration : Function}
    (larger : code.Extends earlier) (accepts : earlier.AcceptsFunction around declaration) :
    code.AcceptsFunction around declaration :=
  ⟨accepts.regular, fun site member => larger.acceptsSite (accepts.sites site member)⟩

theorem isValid {value : Value} (larger : code.Extends earlier)
    (valid : IsValid earlier layout heap value) : IsValid code layout heap value := by
  refine ⟨fun id function => ?_, valid.class_lt⟩
  obtain ⟨bound, initializer, around, fits, accepts⟩ := valid.callable id function
  exact ⟨bound, initializer, around, fits, larger.acceptsFunction accepts⟩

theorem isMethod {id : ClosureId} (larger : code.Extends earlier)
    (method : IsMethod earlier layout heap id) : IsMethod code layout heap id := by
  obtain ⟨bound, inherits, around, fits, accepts⟩ := method
  exact ⟨bound, inherits, around, fits, larger.acceptsFunction accepts⟩

/-- A heap that keeps to its layout under some code does so under more code. -/
theorem conforms (larger : code.Extends earlier) (conforms : Conforms earlier layout heap) :
    Conforms code layout heap where
  toIsGrounded := conforms.toIsGrounded
  separate := conforms.separate
  names := conforms.names
  globals := conforms.globals
  receiver := conforms.receiver
  superclass := conforms.superclass
  bound frame name value found := larger.isValid (conforms.bound frame name value found)
  fields place name value found := larger.isValid (conforms.fields place name value found)
  methods type name id found := larger.isMethod (conforms.methods type name id found)

end Code.Extends

/-- A new heap binds nothing but native functions, in its global frame. -/
theorem Heap.native_of_binding?_initial {frame : FrameId} {name : Bytes} {value : Value}
    (found : Heap.initial.frames.binding? frame name = some value) :
    frame = globals ∧ IsOrdinary name ∧ ∃ function, value = .native function := by
  have only : frame = globals :=
    Nat.lt_one_iff.mp (Frames.lt_size_of_binding? (by rw [found]; rfl))
  subst only
  change (if name = _ then some (Value.native .clock) else
    if name = _ then some (Value.native .input) else none) = some value at found
  refine ⟨rfl, ?_⟩
  split at found
  case isTrue isClock =>
      cases found
      exact ⟨by rw [isClock]; decide, _, rfl⟩
  case isFalse =>
      split at found
      case isTrue isInput =>
          cases found
          exact ⟨by rw [isInput]; decide, _, rfl⟩
      case isFalse => cases found

theorem Heap.isGrounded_initial : Heap.initial.IsGrounded where
  rooted := by decide
  ordered frame outer encloses := by
    have only : frame = Heap.globals := Nat.lt_one_iff.mp (Frames.lt_size_of_enclosing? encloses)
    subst only
    cases encloses
  enclosed frame bound outside := absurd (Nat.lt_one_iff.mp bound) outside
  closures id bound := absurd bound (Nat.not_lt_zero id)
  superclasses type parent found := by
    simp [Heap.classOf, Heap.initial] at found

/-- A new heap keeps to every layout. -/
theorem Conforms.initial (code : Code) (layout : Layout) :
    Conforms code layout .initial where
  toIsGrounded := Heap.isGrounded_initial
  separate frame bound outside := absurd (Nat.lt_one_iff.mp bound) outside
  names frame name outside found := by
    obtain ⟨value, bound⟩ := Option.isSome_iff_exists.mp found
    exact absurd (Heap.native_of_binding?_initial bound).1 outside
  globals name found := by
    obtain ⟨value, bound⟩ := Option.isSome_iff_exists.mp found
    exact (Heap.native_of_binding?_initial bound).2.1
  receiver frame value found :=
    absurd rfl (Heap.native_of_binding?_initial found).2.1.1
  superclass frame value found :=
    absurd rfl (Heap.native_of_binding?_initial found).2.1.2
  bound frame name value found := by
    obtain ⟨-, -, native, rfl⟩ := Heap.native_of_binding?_initial found
    exact Value.IsPlain.isValid ⟨by simp, by simp⟩
  fields place name value found := by
    simp [Heap.object, Heap.initial, Bindings.get?] at found
  methods type name id found := by
    simp [Heap.classOf, Heap.initial, Bindings.get?] at found

/-- What parses without an error is a program with references of its own. -/
theorem isProgram_of_parse {tokens : List Token} {nextId : RefId}
    (named : Grammar.Named tokens) (silent : (parse tokens nextId).errors = []) :
    IsProgram (parse tokens nextId).statements ∧
      ∀ reference ∈ Stmt.referencesAll (parse tokens nextId).statements,
        nextId ≤ reference.id ∧ reference.id < (parse tokens nextId).nextId := by
  obtain ⟨_, _, _, _, _, derived⟩ := Parser.derivation_of_parse silent
  obtain ⟨numbers, regular⟩ := derived.orders named
  exact ⟨⟨numbers.distinct, numbers.regular, regular⟩, numbers.range⟩

/-- No reference from an identity on has a record. -/
def IsFresh (table : Resolution) (nextId : RefId) : Prop :=
  ∀ id, nextId ≤ id → table[id]? = none

section Accepted

variable {tokens : List Token} {nextId : RefId} {table : Resolution}

theorem resolve_getElem?_eq (named : Grammar.Named tokens)
    (silent : (parse tokens nextId).errors = []) {id : RefId}
    (outside : id < nextId ∨ (parse tokens nextId).nextId ≤ id) :
    (resolve (parse tokens nextId).statements table).1[id]? = table[id]? := by
  obtain ⟨program, range⟩ := isProgram_of_parse named silent
  apply (resolve_resolves table program.distinct).kept id
  intro site member
  have bounds := range _ (IsProgram.mem_references member)
  rcases outside with below | above
  · exact Nat.ne_of_gt (Nat.lt_of_lt_of_le below bounds.1)
  · exact Nat.ne_of_lt (Nat.lt_of_lt_of_le bounds.2 above)

theorem isFresh_resolve (fresh : IsFresh table nextId) (named : Grammar.Named tokens)
    (silent : (parse tokens nextId).errors = []) :
    IsFresh (resolve (parse tokens nextId).statements table).1 (parse tokens nextId).nextId := by
  intro id later
  rw [resolve_getElem?_eq named silent (.inr later)]
  exact fresh id (Nat.le_trans (Parser.nextId_le_parse tokens nextId) later)

/-- Code goes on as it was when more is resolved beside it. -/
theorem Code.extends_resolve (named : Grammar.Named tokens)
    (silent : (parse tokens nextId).errors = []) (searchable : Prop) :
    Code.Extends
      ⟨(resolve (parse tokens nextId).statements table).1, (parse tokens nextId).nextId, searchable⟩
      ⟨table, nextId, searchable⟩ :=
  ⟨Parser.nextId_le_parse tokens nextId,
    fun _ earlier => resolve_getElem?_eq named silent (.inl earlier), id⟩

/-- A program that is parsed and resolved without an error can be executed. -/
theorem Code.acceptsAll_resolve (fresh : IsFresh table nextId) (named : Grammar.Named tokens)
    (silent : (parse tokens nextId).errors = [])
    (permitted : (resolve (parse tokens nextId).statements table).2 = []) (searchable : Prop)
    (settled : searchable →
      ∀ site ∈ Stmt.sitesAll [] (parse tokens nextId).statements, site.IsSettled) :
    Code.AcceptsAll
      ⟨(resolve (parse tokens nextId).statements table).1, (parse tokens nextId).nextId, searchable⟩
      [] (parse tokens nextId).statements := by
  obtain ⟨program, range⟩ := isProgram_of_parse named silent
  have unrecorded : ∀ reference ∈ Stmt.referencesAll (parse tokens nextId).statements,
      table[reference.id]? = none :=
    fun reference member => fresh _ (range reference member).1
  refine ⟨program.statements, by simp [Allows], fun site member => ⟨?_, ?_, ?_⟩⟩
  · exact (range _ (IsProgram.mem_references member)).2
  · exact program.isSound unrecorded permitted site member
  · exact fun isSearchable => program.isSearchable unrecorded (settled isSearchable) site member

end Accepted

end LoxLang
