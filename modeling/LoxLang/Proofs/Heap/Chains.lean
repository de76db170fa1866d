import LoxLang.Proofs.Heap.Grounded

/-!
Walks along links.  In a grounded heap the links from a frame outward and from a class to
its superclass come to an end, so a search along them that knows no bound ends too, and it
gives the answer of the search within a bound.
-/

namespace LoxLang

/-- Everything on the way along links, from a place up to one without a link. -/
inductive Walk (next : Nat → Option Nat) : Nat → List Nat → Prop where
  | last {place} : next place = none → Walk next place [place]
  | onward {place further path} :
      next place = some further → Walk next further path → Walk next place (place :: path)

/-- A search along links that knows no bound.  It ends where something is found, or where
the links end. -/
inductive Search {α : Type} (found : Nat → Option α) (next : Nat → Option Nat) :
    Nat → Option α → Prop where
  | here {place value} : found place = some value → Search found next place (some value)
  | onward {place further result} : found place = none → next place = some further →
      Search found next further result → Search found next place result
  | nowhere {place} : found place = none → next place = none → Search found next place none

/-- Where a walk ends, a search ends with the first that the walk meets. -/
theorem Walk.search_iff {α : Type} {found : Nat → Option α} {next : Nat → Option Nat}
    {place : Nat} {path : List Nat} {result : Option α} (walk : Walk next place path) :
    Search found next place result ↔ path.findSome? found = result := by
  induction walk with
  | @last place ends =>
      rw [List.findSome?_cons, List.findSome?_nil]
      constructor
      · intro search
        cases search with
        | here held => rw [held]
        | onward absent linked _ =>
            rw [ends] at linked
            cases linked
        | nowhere absent _ => rw [absent]
      · intro same
        cases held : found place with
        | some value =>
            rw [held] at same
            rw [← same]
            exact .here held
        | none =>
            rw [held] at same
            rw [← same]
            exact .nowhere held ends
  | @onward place further path linked _ inductionHypothesis =>
      rw [List.findSome?_cons]
      constructor
      · intro search
        cases search with
        | here held => rw [held]
        | onward absent again later =>
            obtain rfl := Option.some.inj (linked.symm.trans again)
            rw [absent]
            exact inductionHypothesis.mp later
        | nowhere _ ends =>
            rw [ends] at linked
            cases linked
      · intro same
        cases held : found place with
        | some value =>
            rw [held] at same
            rw [← same]
            exact .here held
        | none =>
            rw [held] at same
            exact .onward held linked (inductionHypothesis.mpr same)

namespace Frames

variable {frames : Frames}

theorem IsOrdered.walk_chainWithin (ordered : frames.IsOrdered) :
    ∀ {bound : Nat} {frame : FrameId}, frame < bound →
      Walk frames.enclosing? frame (frames.chainWithin bound frame)
  | 0, _, room => absurd room (Nat.not_lt_zero _)
  | bound + 1, frame, room => by
      unfold chainWithin
      cases encloses : frames.enclosing? frame with
      | none => exact .last encloses
      | some outer =>
          have older := ordered frame outer encloses
          exact .onward encloses
            (ordered.walk_chainWithin (Nat.lt_of_lt_of_le older (Nat.le_of_lt_succ room)))

/-- A chain goes on up to a frame that nothing encloses. -/
theorem IsOrdered.walk_chain (ordered : frames.IsOrdered) (frame : FrameId) :
    Walk frames.enclosing? frame (frames.chain frame) :=
  ordered.walk_chainWithin (Nat.lt_succ_self frame)

/-- Reading a name is a search for the first frame that binds it. -/
theorem IsOrdered.get_eq (ordered : frames.IsOrdered) (frame : FrameId) (name : Bytes) :
    ∃ result, Search (fun candidate => frames.binding? candidate name) frames.enclosing? frame
        result ∧
      frames.get frame name = match result with
        | some value => .ok value
        | none => .error (.undefinedVariable name) :=
  ⟨_, (ordered.walk_chain frame).search_iff.mpr rfl, rfl⟩

/-- Whether a frame binds a name, for a search that wants the frame. -/
def holds? (frames : Frames) (name : Bytes) (frame : FrameId) : Option FrameId :=
  if (frames.binding? frame name).isSome then some frame else none

theorem findSome?_holds? (frames : Frames) (name : Bytes) (path : List FrameId) :
    path.findSome? (frames.holds? name) =
      path.find? fun candidate => (frames.binding? candidate name).isSome := by
  induction path with
  | nil => rfl
  | cons first rest inductionHypothesis =>
      rw [List.findSome?_cons, List.find?_cons, holds?]
      cases (frames.binding? first name).isSome with
      | true => rfl
      | false => exact inductionHypothesis

/-- The frame that an assignment changes is the first that binds the name. -/
theorem IsOrdered.holder?_iff (ordered : frames.IsOrdered) {frame : FrameId} {name : Bytes}
    {result : Option FrameId} :
    Search (frames.holds? name) frames.enclosing? frame result ↔
      frames.holder? frame name = result := by
  rw [(ordered.walk_chain frame).search_iff, findSome?_holds?]
  rfl

end Frames

namespace Heap

/-- The links from classes to their superclasses. -/
def superclass? (heap : Heap) (type : ClassId) : Option ClassId :=
  (heap.classOf type).superclass

/-- A method that a class declares itself. -/
def ownMethod? (heap : Heap) (name : Bytes) (type : ClassId) : Option ClosureId :=
  (heap.classOf type).methods.get? name

namespace IsGrounded

variable {heap : Heap}

theorem enclosing?_globals (grounded : heap.IsGrounded) :
    heap.frames.enclosing? globals = none := by
  cases encloses : heap.frames.enclosing? globals with
  | none => rfl
  | some outer => exact absurd (grounded.ordered _ _ encloses) (Nat.not_lt_zero outer)

/-- The chain of every frame ends at the globals. -/
theorem chain_eq (grounded : heap.IsGrounded) {frame : FrameId}
    (bound : frame < heap.frames.size) :
    ∃ path, heap.frames.chain frame = path ++ [globals] := by
  induction frame using Nat.strongRecOn with
  | ind frame inductionHypothesis =>
      by_cases isGlobal : frame = globals
      · subst isGlobal
        refine ⟨[], ?_⟩
        unfold Frames.chain Frames.chainWithin
        rw [grounded.enclosing?_globals]
        rfl
      · obtain ⟨outer, encloses⟩ := grounded.enclosed frame bound isGlobal
        have older := grounded.ordered frame outer encloses
        obtain ⟨path, walked⟩ := inductionHypothesis outer older (Nat.lt_trans older bound)
        refine ⟨frame :: path, ?_⟩
        rw [grounded.ordered.chain_of_enclosing? encloses, walked]
        rfl

theorem walk_lineageWithin (grounded : heap.IsGrounded) :
    ∀ {bound : Nat} {type : ClassId}, type < bound →
      Walk heap.superclass? type (heap.lineageWithin bound type)
  | 0, _, room => absurd room (Nat.not_lt_zero _)
  | bound + 1, type, room => by
      unfold lineageWithin
      cases inherits : (heap.classOf type).superclass with
      | none => exact .last inherits
      | some parent =>
          have older := grounded.superclasses type parent inherits
          exact .onward inherits
            (grounded.walk_lineageWithin (Nat.lt_of_lt_of_le older (Nat.le_of_lt_succ room)))

/-- The lineage of a class goes on up to a class without a superclass. -/
theorem walk_lineage (grounded : heap.IsGrounded) (type : ClassId) :
    Walk heap.superclass? type (heap.lineage type) :=
  grounded.walk_lineageWithin (Nat.lt_succ_self type)

/-- The method of the nearest class that declares the name is found. -/
theorem findMethod?_iff (grounded : heap.IsGrounded) {type : ClassId} {name : Bytes}
    {result : Option ClosureId} :
    Search (heap.ownMethod? name) heap.superclass? type result ↔
      heap.findMethod? type name = result :=
  (grounded.walk_lineage type).search_iff

end IsGrounded

end Heap

end LoxLang
