import LoxLang.Proofs.Eval.Pieces
import LoxLang.Proofs.Eval.Restores
import LoxLang.Proofs.Eval.Trace
import LoxLang.Proofs.Scope.Supers

/-!
Lexical containment at run time.  Code that refers to a superclass runs inside the frame of
a receiver, and the function that stands in that frame contains the code.
-/

namespace LoxLang

open Scope

/-- References to a superclass stand in the function of the nearest receiver outward from a
frame, unless a superclass or no receiver at all comes first. -/
inductive Heap.Covers (heap : Heap) (ids : List RefId) : FrameId → Prop where
  | receiver {frame : FrameId} {id : ClosureId} :
      (heap.frames.binding? frame (thisName 0).text).isSome → id < heap.closures.size →
      (heap.closure id).frame = frame → ids ⊆ (heap.closure id).declaration.supers →
        Covers heap ids frame
  | superclass {frame : FrameId} :
      (heap.frames.binding? frame (superName 0).text).isSome → Covers heap ids frame
  | outward {frame outer : FrameId} :
      (∀ name, ¬ IsOrdinary name → heap.frames.binding? frame name = none) →
      heap.frames.enclosing? frame = some outer → Covers heap ids outer → Covers heap ids frame
  | globals : Covers heap ids Heap.globals

namespace Heap.Covers

variable {heap later : Heap} {ids : List RefId} {frame : FrameId}

theorem subset {fewer : List RefId} (covers : heap.Covers ids frame) (subset : fewer ⊆ ids) :
    heap.Covers fewer frame := by
  induction covers with
  | receiver bound exists_ stands contains =>
      exact .receiver bound exists_ stands (List.Subset.trans subset contains)
  | superclass bound => exact .superclass bound
  | outward absent encloses _ inductionHypothesis =>
      exact .outward absent encloses inductionHypothesis
  | globals => exact .globals

theorem persists (covers : heap.Covers ids frame) (persists : heap.Persists later) :
    later.Covers ids frame := by
  induction covers with
  | receiver bound exists_ stands contains =>
      have same := persists.closure _ exists_
      refine .receiver (persists.names _ _ bound)
        (Nat.lt_of_lt_of_le exists_ persists.closures) ?_ ?_
      · rw [same]
        exact stands
      · rw [same]
        exact contains
  | superclass bound => exact .superclass (persists.names _ _ bound)
  | @outward frame outer absent encloses _ inductionHypothesis =>
      have within := Frames.lt_size_of_enclosing? encloses
      refine .outward (fun name reserved => ?_) ?_ inductionHypothesis
      · rw [persists.reserved frame within name reserved]
        exact absent name reserved
      · rw [persists.enclosing frame within]
        exact encloses
  | globals => exact .globals

/-- What a frame covers, a new frame inside it with ordinary names covers. -/
theorem addFrame {outer : FrameId} {bindings : Bindings Value}
    (covers : (heap.addFrame ⟨some outer, bindings⟩).Covers ids outer)
    (ordinary : ∀ name, (bindings.get? name).isSome → IsOrdinary name) :
    (heap.addFrame ⟨some outer, bindings⟩).Covers ids heap.frames.size := by
  refine .outward (fun name reserved => ?_) ?_ covers
  · rw [Heap.addFrame, Frames.binding?_push, if_pos rfl, ← Option.not_isSome_iff_eq_none]
    exact fun bound => reserved (ordinary name bound)
  · rw [Heap.addFrame, Frames.enclosing?_push, if_pos rfl]

end Heap.Covers

/-- The references to a superclass in the code of a task. -/
def Task.supers : Task → List RefId
  | .evaluate expression => Reference.supers expression.references
  | .evaluateAll expressions => Reference.supers (Expr.referencesAll expressions)
  | .execute statement => statement.supers
  | .executeAll statements => Stmt.supersAll statements
  | .executeLoop condition body => Reference.supers condition.references ++ body.supers
  | _ => []

namespace Task

/-- A piece of code makes no other references to a superclass. -/
theorem supers_subset (task : Task) : ∀ piece ∈ task.pieces, piece.supers ⊆ task.supers := by
  cases task with
  | evaluate expression =>
      cases expression <;> simp [pieces, Expr.pieces, supers, Expr.references]
  | evaluateAll expressions => cases expressions <;> simp [pieces, supers, Expr.referencesAll]
  | execute statement =>
      cases statement with
      | declare name initial => cases initial <;> simp [pieces, Stmt.pieces, supers, Stmt.supers, Expr.referencesOption]
      | branch condition consequence alternative =>
          cases alternative <;> simp [pieces, Stmt.pieces, supers, Stmt.supers]
      | leave line value => cases value <;> simp [pieces, Stmt.pieces, supers, Stmt.supers, Expr.referencesOption]
      | _ => simp [pieces, Stmt.pieces, supers, Stmt.supers]
  | executeAll statements => cases statements <;> simp [pieces, supers, Stmt.supersAll]
  | executeLoop condition body => simp [pieces, supers]
  | _ => simp [pieces]

theorem supers_of_isCall {task : Task} (isCall : task.isCall = true) : task.supers = [] := by
  cases task <;> first | rfl | cases isCall

end Task

/-- A method of a class without a superclass refers to no superclass. -/
theorem Code.AcceptsFunction.supers_eq_nil {code : Code} {around : List Region}
    {declaration : Function}
    (accepts : code.AcceptsFunction (.receiver false :: around) declaration) :
    declaration.supers = [] := by
  apply List.eq_nil_iff_forall_not_mem.mpr
  intro id member
  obtain ⟨site, listed, isSuper, -, inside⟩ := Function.exists_site member
  have sound := (accepts.sites site listed).sound
  unfold Site.IsSound at sound
  rw [isSuper] at sound
  obtain ⟨distance, -, -, -, -, inSubclass⟩ := sound
  have inPlain : classAround site.regions = .plain := inside
  rw [inPlain] at inSubclass
  cases inSubclass

theorem Access.Inherits.eq_none {access : Access} {machine : Machine}
    {superclass : Option (RefId × Name)} (inherits : access.Inherits machine superclass none) :
    superclass = none := by
  cases superclass with
  | none => rfl
  | some superclass =>
      obtain ⟨parent, isNone, -⟩ := inherits
      cases isNone

/-- The references to a superclass in every function are covered where it stands. -/
def Heap.IsCovered (heap : Heap) : Prop :=
  ∀ id < heap.closures.size, heap.Covers (heap.closure id).declaration.supers (heap.closure id).frame

/-- The references to a superclass in the code of a task are covered where it is carried
out. -/
def Activity.IsCovered (activity : Activity) : Prop :=
  activity.machine.heap.Covers activity.task.supers activity.machine.active

/-- Functions stay covered, so only new ones matter. -/
theorem Heap.IsCovered.grow {earlier later : Heap} (covered : earlier.IsCovered)
    (persists : earlier.Persists later)
    (new : ∀ id, earlier.closures.size ≤ id → id < later.closures.size →
      later.Covers (later.closure id).declaration.supers (later.closure id).frame) :
    later.IsCovered := by
  intro id exists_
  by_cases old : id < earlier.closures.size
  · rw [persists.closure id old]
    exact (covered id old).persists persists
  · exact new id (Nat.not_lt.mp old) exists_

namespace Activity

variable {code : Code} {activity : Activity}

/-- The methods of a class without a superclass refer to no superclass. -/
theorem IsSound.supers_eq_nil (sound : activity.IsSound code) {name : Name}
    {methods : List Function} {method : Function}
    (task : activity.task = .execute (.classDecl name none methods))
    (listed : method ∈ methods) : method.supers = [] := by
  obtain ⟨-, layout, -, sound⟩ := sound
  rw [task] at sound
  obtain ⟨around, -, accepts⟩ := sound
  exact (Code.accepts_of_sitesAll accepts.regular.2 accepts.sites method listed).supers_eq_nil

/-- What a maker makes is covered. -/
theorem IsSound.isCovered_final (sound : activity.IsSound code)
    (isMaker : activity.task.isMaker = true) (covers : activity.IsCovered)
    (held : activity.machine.heap.IsCovered) : activity.final.heap.IsCovered := by
  have persists := sound.persists_of_maker isMaker
  refine held.grow persists fun id absent present => ?_
  have makes := sound.makes isMaker
  generalize activity.final.heap = heap at persists present makes
  cases makes with
  | nothing => exact absurd present (Nat.not_lt.mpr absent)
  | bound task =>
      have made := Heap.closure_eq_of_push _ rfl absent present
      refine .receiver ?_ present rfl (List.Subset.refl _)
      rw [made, Heap.binding?_bindMethod]
      rfl
  | function task =>
      rw [Heap.closure_eq_of_push _ rfl absent present]
      unfold IsCovered at covers
      rw [task] at covers
      exact covers.persists persists
  | @classDecl name superclass methods parent task inherits =>
      obtain ⟨method, numbered⟩ := Heap.exists_numbered _ _ _ _ _ absent present
      rw [Heap.closure_declareClass _ _ _ _ _ numbered]
      cases parent with
      | some parent =>
          refine .superclass ?_
          have within := (sound.ordinary_active task (List.mem_singleton_self _)).1
          refine Eq.trans (congrArg _ (Heap.binding?_declareClass _ _ _ within parent _)) ?_
          rfl
      | none =>
          have listed := List.fst_mem_of_mem_zipIdx numbered
          obtain rfl := inherits.eq_none
          have plain := sound.supers_eq_nil task listed
          exact (covers.persists persists).subset (by simp [Function.asMethod, plain])

/-- The parts of a covered task are covered. -/
theorem IsSound.isCovered_inner (sound : activity.IsSound code) (covers : activity.IsCovered)
    {part : Part} (member : part ∈ activity.parts) (held : part.before.heap.IsCovered) :
    (activity.inner part).IsCovered := by
  have carried := covers.persists (sound.persists_before member)
  cases activity.arises member with
  | here yields stays =>
      have active : (activity.inner part).machine.active = activity.machine.active :=
        (Entrance.active_enter stays part.before).trans (activity.restores_before member).active
      unfold IsCovered
      rw [inner_heap, active]
      refine carried.subset ?_
      rcases yields with piece | isCall
      · exact activity.task.supers_subset _ piece
      · exact (Task.supers_of_isCall isCall).symm ▸ List.nil_subset _
  | binding type name receiver found =>
      have active := (activity.restores_before member).active
      unfold IsCovered
      rw [inner_heap]
      exact active ▸ carried.subset (List.nil_subset _)
  | block task =>
      rw [task] at carried
      exact carried.addFrame fun _ bound => Bool.noConfusion bound
  | @body id arguments task =>
      have ordinary (name : Bytes) (bound : ((Bindings.insertAll []
          (((activity.machine.heap.closure id).declaration.parameters.map Name.text).zip
            arguments)).get? name).isSome) : IsOrdinary name := by
        apply sound.ordinary
        rw [task]
        exact Bindings.mem_of_insertAll_zip bound
      obtain ⟨-, layout, -, invokes⟩ := sound
      rw [task] at invokes
      have stands := held id invokes.1.1
      rw [Function.supers_eq] at stands
      exact Heap.Covers.addFrame stands ordinary

end Activity

/-- Every function stays covered as long as the tasks under way are. -/
theorem keeps_isCovered : Keeps Heap.IsCovered Activity.IsCovered where
  change change held := by
    have same := Heap.Changes.closures_eq (.single change)
    refine held.grow (change.persists fun _ => id) fun id absent present => ?_
    rw [same] at present
    exact absurd present (Nat.not_lt.mpr absent)
  makes sound isMaker covers held := sound.isCovered_final isMaker covers held
  inner sound covers _ member held := sound.isCovered_inner covers member held

end LoxLang
