import LoxLang.Proofs.Eval.Completions
import LoxLang.Proofs.Eval.Pieces
import LoxLang.Proofs.Eval.Trace

/-!
Initializers at run time.  The methods of all classes go by the names that they are declared
with, and those named `init` are the initializers.  Their bodies return no value, and
calling one that was bound yields its receiver.
-/

namespace LoxLang

open Scope

namespace Heap

/-- Functions return where they may, and exactly the methods named `init` are initializers. -/
structure ReturnsWell (heap : Heap) : Prop where
  bodies : ∀ id < heap.closures.size, ∃ form, (heap.closure id).declaration.ReturnsIn form ∧
    ((heap.closure id).isInitializer = true → form = .initializer)
  methods : ∀ type name id, heap.ownMethod? name type = some id →
    id < heap.closures.size ∧ (heap.closure id).declaration.name.text = name ∧
      ((heap.closure id).isInitializer = true ↔ name = initializerName)

namespace ReturnsWell

variable {heap earlier later : Heap}

theorem initial : Heap.initial.ReturnsWell where
  bodies id present := absurd present (Nat.not_lt_zero id)
  methods type name id found := by
    simp [ownMethod?, classOf, Heap.initial, Bindings.get?] at found

/-- What a search for a method finds is an initializer exactly if its name says so. -/
theorem of_findMethod? (returns : heap.ReturnsWell) {type : ClassId} {name : Bytes}
    {id : ClosureId} (found : heap.findMethod? type name = some id) :
    (heap.closure id).isInitializer = true ↔
      (heap.closure id).declaration.name.text = initializerName := by
  obtain ⟨candidate, held⟩ := exists_of_findMethod? found
  obtain ⟨-, named, initializes⟩ := returns.methods candidate name id held
  rw [named]
  exact initializes

/-- Functions and classes stay, so only new ones matter. -/
theorem grow (returns : earlier.ReturnsWell) (grows : earlier.GrowsTo later)
    (bodies : ∀ id, earlier.closures.size ≤ id → id < later.closures.size →
      ∃ form, (later.closure id).declaration.ReturnsIn form ∧
        ((later.closure id).isInitializer = true → form = .initializer))
    (methods : ∀ type name id, later.classOf type ≠ earlier.classOf type →
      later.ownMethod? name type = some id →
        id < later.closures.size ∧ (later.closure id).declaration.name.text = name ∧
          ((later.closure id).isInitializer = true ↔ name = initializerName)) :
    later.ReturnsWell where
  bodies id present := by
    by_cases old : id < earlier.closures.size
    · rw [grows.closure id old]
      exact returns.bodies id old
    · exact bodies id (Nat.not_lt.mp old) present
  methods type name id found := by
    by_cases same : later.classOf type = earlier.classOf type
    · unfold ownMethod? at found
      rw [same] at found
      obtain ⟨old, named⟩ := returns.methods type name id found
      rw [grows.closure id old]
      exact ⟨Nat.lt_of_lt_of_le old grows.closures, named⟩
    · exact methods type name id same found

end ReturnsWell

/-- Plain changes make no class. -/
theorem Change.classes_eq {earlier later : Heap} (change : Change .plain earlier later) :
    later.classes = earlier.classes := by
  cases change with
  | addClass made never => cases never
  | _ => rfl

theorem classOf_eq_of_classes {earlier later : Heap} (same : later.classes = earlier.classes)
    (type : ClassId) : later.classOf type = earlier.classOf type := by
  unfold classOf
  rw [same]

/-- The class that a declaration makes is the only one that changes. -/
theorem classOf_declareClass_of_ne (heap : Heap) (active : FrameId) (name : Bytes)
    (parent : Option ClassId) (methods : List Function) {type : ClassId}
    (other : type ≠ heap.classes.size) :
    (heap.declareClass active name parent methods).classOf type = heap.classOf type := by
  unfold classOf
  rw [classes_declareClass, Array.getD_eq_getD_getElem?, Array.getD_eq_getD_getElem?,
    Array.getElem?_push, if_neg other]

end Heap

/-- Code returns where it may, and a method that is bound is an initializer exactly if it is
named so. -/
def Task.ReturnsWell (heap : Heap) : Task → Prop
  | .execute statement => ∃ form, statement.ReturnsIn form
  | .executeAll statements => ∃ form, Stmt.AllReturnIn form statements
  | .executeLoop _ body => ∃ form, body.ReturnsIn form
  | .bind method _ => (heap.closure method).isInitializer = true ↔
      (heap.closure method).declaration.name.text = initializerName
  | _ => True

def Activity.ReturnsWell (activity : Activity) : Prop :=
  activity.task.ReturnsWell activity.machine.heap

theorem Task.ReturnsWell.piece {heap other : Heap} {task : Task}
    (returns : task.ReturnsWell heap) :
    ∀ piece ∈ task.pieces, piece.ReturnsWell other := by
  cases task with
  | evaluate expression => cases expression <;> simp [pieces, Expr.pieces, ReturnsWell]
  | evaluateAll expressions => cases expressions <;> simp [pieces, ReturnsWell]
  | execute statement =>
      obtain ⟨form, returns⟩ := returns
      cases statement with
      | declare name initial => cases initial <;> simp [pieces, Stmt.pieces, ReturnsWell]
      | leave line value => cases value <;> simp [pieces, Stmt.pieces, ReturnsWell]
      | block body => simpa [pieces, Stmt.pieces, ReturnsWell] using ⟨form, returns⟩
      | loop condition body => simpa [pieces, Stmt.pieces, ReturnsWell] using ⟨form, returns⟩
      | branch condition consequence alternative =>
          cases alternative with
          | none => simpa [pieces, Stmt.pieces, ReturnsWell] using ⟨form, returns⟩
          | some alternative =>
              simpa [pieces, Stmt.pieces, ReturnsWell] using
                ⟨⟨form, returns.1⟩, ⟨form, returns.2⟩⟩
      | _ => simp [pieces, Stmt.pieces, ReturnsWell]
  | executeAll statements =>
      obtain ⟨form, returns⟩ := returns
      cases statements with
      | nil => simp [pieces]
      | cons first rest =>
          simpa [pieces, ReturnsWell] using ⟨⟨form, returns.1⟩, ⟨form, returns.2⟩⟩
  | executeLoop condition body => simpa [pieces, ReturnsWell] using returns
  | _ => simp [pieces]

theorem Task.returnsWell_of_isCall {heap : Heap} {task : Task} (isCall : task.isCall = true) :
    task.ReturnsWell heap := by
  cases task <;> trivial

namespace Activity

variable {code : Code} {activity : Activity}

/-- What a maker makes returns where it may. -/
theorem IsSound.returnsWell_final (sound : activity.IsSound code)
    (isMaker : activity.task.isMaker = true) (suits : activity.ReturnsWell)
    (held : activity.machine.heap.ReturnsWell) : activity.final.heap.ReturnsWell := by
  have grows := activity.growsTo
  have makes := sound.makes isMaker
  generalize activity.final.heap = heap at grows makes
  cases makes with
  | nothing => exact held
  | @bound method receiver task =>
      have exists_ : method < activity.machine.heap.closures.size := by
        obtain ⟨-, layout, -, isMethod⟩ := sound
        rw [task] at isMethod
        exact isMethod.1
      refine held.grow grows (fun id absent present => ?_) fun type _ _ changed => ?_
      · rw [Heap.closure_eq_of_push _ rfl absent present]
        exact held.bodies method exists_
      · exact absurd (Heap.classOf_eq_of_classes rfl type) changed
  | @function declaration task =>
      refine held.grow grows (fun id absent present => ?_) fun type _ _ changed => ?_
      · unfold ReturnsWell at suits
        rw [task] at suits
        obtain ⟨form, returns⟩ := suits
        rw [Heap.closure_eq_of_push _ rfl absent present]
        exact ⟨.function, returns, fun wrong => Bool.noConfusion wrong⟩
      · exact absurd (Heap.classOf_eq_of_classes rfl type) changed
  | @classDecl name superclass methods parent task inherits =>
      unfold ReturnsWell at suits
      rw [task] at suits
      obtain ⟨form, returns⟩ := suits
      refine held.grow grows (fun id absent present => ?_) fun type wanted id changed found => ?_
      · obtain ⟨method, numbered⟩ := Heap.exists_numbered _ _ _ _ _ absent present
        rw [Heap.closure_declareClass _ _ _ _ _ numbered]
        refine ⟨_, returns.returnsIn (List.fst_mem_of_mem_zipIdx numbered), fun initializes => ?_⟩
        exact if_pos (eq_of_beq initializes)
      · obtain rfl : type = activity.machine.heap.classes.size := by
          by_contra other
          exact changed (Heap.classOf_declareClass_of_ne _ _ _ _ _ other)
        rw [Heap.ownMethod?, Heap.classOf_declareClass, Function.get?_methodTable,
          Option.map_eq_some_iff] at found
        obtain ⟨⟨method, number⟩, isFound, rfl⟩ := found
        have numbered := List.mem_reverse.mp (List.mem_of_find?_eq_some isFound)
        have named : method.name.text = wanted := by simpa using List.find?_some isFound
        refine ⟨?_, ?_⟩
        · obtain ⟨later, listed⟩ := List.mk_mem_zipIdx_iff_le_and_getElem?_sub.mp numbered
          have room := (List.getElem?_eq_some_iff.mp listed).1
          have size : (activity.machine.heap.declareClass activity.machine.active name.text parent
              methods).closures.size = activity.machine.heap.closures.size + methods.length := by
            simp [Heap.closures_declareClass]
          rw [size]
          exact (Nat.sub_lt_iff_lt_add' later).mp room
        · rw [Heap.closure_declareClass _ _ _ _ _ numbered]
          refine ⟨named, ?_⟩
          rw [← named]
          exact beq_iff_eq

/-- The parts of a task return where they may. -/
theorem IsSound.returnsWell_inner (sound : activity.IsSound code) (suits : activity.ReturnsWell)
    {part : Part} (member : part ∈ activity.parts) (held : part.before.heap.ReturnsWell) :
    (activity.inner part).ReturnsWell := by
  cases activity.arises member with
  | here yields stays =>
      rcases yields with piece | isCall
      · exact Task.ReturnsWell.piece suits _ piece
      · exact Task.returnsWell_of_isCall isCall
  | binding type name receiver found =>
      unfold ReturnsWell
      rw [inner_heap]
      exact held.of_findMethod? found
  | @block body task =>
      unfold ReturnsWell at suits
      rw [task] at suits
      exact suits
  | @body id arguments task =>
      have exists_ : id < activity.machine.heap.closures.size := by
        obtain ⟨-, layout, -, invokes⟩ := sound
        rw [task] at invokes
        exact invokes.1.1
      obtain ⟨form, returns, -⟩ := held.bodies id exists_
      exact ⟨form, Function.returnsIn_iff.mp returns⟩

end Activity

/-- Functions return where they may as long as the code that runs does. -/
theorem keeps_returnsWell : Keeps Heap.ReturnsWell Activity.ReturnsWell where
  change change held := by
    have same := Heap.Changes.closures_eq (.single change)
    refine held.grow change.growsTo (fun id absent present => ?_) fun type _ _ changed => ?_
    · rw [same] at present
      exact absurd present (Nat.not_lt.mpr absent)
    · exact absurd (Heap.classOf_eq_of_classes change.classes_eq type) changed
  makes sound isMaker suits held := sound.returnsWell_final isMaker suits held
  inner sound suits _ member held := sound.returnsWell_inner suits member held

namespace Eval

variable {access : Access} {fuel : Nat} {machine after : Machine} {value : Value}

/-- What a call yields, the function yielded that was entered. -/
theorem apply_of_call {function : Value} {arguments : List Value} {line : Nat}
    (yields : call access fuel function arguments line machine = .ok value after) :
    ∃ remaining entered left,
      apply access remaining function arguments entered = .ok value left ∧
        entered.heap = machine.heap ∧ left.heap = after.heap := by
  cases fuel with
  | zero => cases yields
  | succ fuel =>
      obtain ⟨_, _, ⟨⟩, yields⟩ := bind_eq_ok.mp yields
      cases takes : machine.heap.arity? function with
      | none =>
          simp only [takes] at yields
          cases yields
      | some arity =>
          simp only [takes] at yields
          split at yields
          · cases yields
          · split at yields
            · cases yields
            · obtain ⟨left, applied, rfl⟩ := counted_eq_ok.mp yields
              exact ⟨fuel, _, left, applied, rfl, rfl⟩

/-- What is invoked yields the receiver in the frame of an initializer. -/
theorem binding?_of_invoke {id : ClosureId} {arguments : List Value}
    (initializes : (machine.heap.closure id).isInitializer = true)
    (yields : invoke access fuel id arguments machine = .ok value after) :
    after.heap.frames.binding? (machine.heap.closure id).frame (thisName 0).text = some value := by
  cases fuel with
  | zero => cases yields
  | succ fuel =>
      obtain ⟨_, _, ⟨⟩, yields⟩ := bind_eq_ok.mp yields
      simp only [initializes, if_true] at yields
      split at yields
      · cases yields
      · obtain ⟨_, _, ⟨⟩, yields⟩ := bind_eq_ok.mp yields
        obtain ⟨completion, between, -, yields⟩ := bind_eq_ok.mp yields
        obtain ⟨_, _, ⟨⟩, yields⟩ := bind_eq_ok.mp yields
        obtain ⟨found, rfl⟩ := ofDesync_eq_ok.mp yields
        simp only [Frames.getAt, Frames.ancestor, Frames.ancestorFrom, Bind.bind, Except.bind,
          Int.toNat_zero] at found
        split at found
        · next held bound =>
            rw [bound, Except.ok.inj found]
        · cases found

/-- Calling an initializer yields the receiver in its frame. -/
theorem binding?_of_call {id : ClosureId} {arguments : List Value} {line : Nat}
    (initializes : (machine.heap.closure id).isInitializer = true)
    (yields : call access fuel (.function id) arguments line machine = .ok value after) :
    after.heap.frames.binding? (machine.heap.closure id).frame (thisName 0).text = some value := by
  obtain ⟨remaining, entered, left, applied, before, same⟩ := apply_of_call yields
  rw [← before] at initializes ⊢
  rw [← same]
  cases remaining with
  | zero => cases applied
  | succ remaining => exact binding?_of_invoke initializes applied

theorem growsTo_of_invoke {id : ClosureId} {arguments : List Value}
    (yields : invoke access fuel id arguments machine = .ok value after) :
    machine.heap.GrowsTo after.heap := by
  have grows := Activity.growsTo ⟨access, fuel, .invoke id arguments, machine⟩
  simp only [Activity.final, yields] at grows
  exact grows

/-- Calling a class yields a new instance of it. -/
theorem object_of_apply {type : ClassId} {arguments : List Value}
    (yields : apply access fuel (.classRef type) arguments machine = .ok value after) :
    value = .object machine.heap.objects.size ∧
      machine.heap.objects.size < after.heap.objects.size ∧
        (after.heap.object machine.heap.objects.size).type = type := by
  have made : machine.heap.objects.size < (machine.heap.addObject ⟨type, []⟩).objects.size := by
    simp [Heap.addObject]
  have typed : ((machine.heap.addObject ⟨type, []⟩).object machine.heap.objects.size).type =
      type := by
    simp [Heap.object, Heap.addObject]
  have lasts {later : Heap} (grows : (machine.heap.addObject ⟨type, []⟩).GrowsTo later) :
      machine.heap.objects.size < later.objects.size ∧
        (later.object machine.heap.objects.size).type = type :=
    ⟨Nat.lt_of_lt_of_le made grows.objects, by rw [grows.type _ made, typed]⟩
  cases fuel with
  | zero => cases yields
  | succ fuel =>
      obtain ⟨object, created, isNew, yields⟩ := bind_eq_ok.mp yields
      rw [newObject_apply, EStateM.Result.ok.injEq] at isNew
      obtain ⟨rfl, rfl⟩ := isNew
      obtain ⟨_, _, ⟨⟩, yields⟩ := bind_eq_ok.mp yields
      cases found : (machine.withHeap (machine.heap.addObject ⟨type, []⟩)).heap.initializer?
          type with
      | some method =>
          simp only [found] at yields
          obtain ⟨bound, received, ⟨⟩, yields⟩ := bind_eq_ok.mp yields
          obtain ⟨ignored, between, invoked, ⟨⟩⟩ := bind_eq_ok.mp yields
          have grows := growsTo_of_invoke invoked
          exact ⟨rfl, lasts (.trans (.trans (.addFrame _ _) (.addClosure _ _)) grows)⟩
      | none =>
          simp only [found] at yields
          cases yields
          exact ⟨rfl, lasts (.refl _)⟩

theorem object_of_call {type : ClassId} {arguments : List Value} {line : Nat}
    (yields : call access fuel (.classRef type) arguments line machine = .ok value after) :
    ∃ place, value = .object place ∧ machine.heap.objects.size ≤ place ∧
      place < after.heap.objects.size ∧ (after.heap.object place).type = type := by
  obtain ⟨remaining, entered, between, applied, same, final⟩ := apply_of_call yields
  obtain ⟨isObject, fits, typed⟩ := object_of_apply applied
  rw [same] at isObject fits typed
  rw [final] at fits typed
  exact ⟨_, isObject, Nat.le_refl _, fits, typed⟩

end Eval

end LoxLang
