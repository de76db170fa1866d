import LoxLang.Heap.Basic
import LoxLang.Proofs.Heap.Frames

/-!
What is read from a heap.  Every search that finds something finds it in some frame or in
some class, and heaps with the same classes and instances show their values alike.
-/

namespace LoxLang

/-- A frame with one binding. -/
theorem Bindings.of_get?_single {name key : Bytes} {value held : Value}
    (found : Bindings.get? [(key, held)] name = some value) : name = key ∧ value = held := by
  by_cases same : name = key
  · refine ⟨same, ?_⟩
    simpa [get?, same] using found.symm
  · simp [get?, same] at found

namespace Frames

variable {frames : Frames} {frame : FrameId} {name : Bytes} {value : Value}

/-- A search finds the name in some frame. -/
theorem exists_of_get (found : frames.get frame name = .ok value) :
    ∃ holder, frames.binding? holder name = some value := by
  unfold get at found
  split at found
  · next held reached =>
      obtain ⟨candidate, -, bound⟩ := List.exists_of_findSome?_eq_some reached
      exact ⟨candidate, bound.trans (congrArg some (Except.ok.inj found))⟩
  · cases found

/-- A read at a distance finds the name in the frame there. -/
theorem exists_of_getAt {distance : Int} (read : frames.getAt frame distance name = .ok value) :
    ∃ holder, frames.ancestor frame distance = .ok holder ∧
      frames.binding? holder name = some value := by
  unfold getAt at read
  cases walked : frames.ancestor frame distance with
  | error cause =>
      rw [walked] at read
      cases read
  | ok holder =>
      simp only [walked, bind, Except.bind] at read
      cases found : frames.binding? holder name with
      | none =>
          rw [found] at read
          cases read
      | some held =>
          rw [found] at read
          exact ⟨holder, rfl, found.trans (congrArg some (Except.ok.inj read))⟩

/-- The outermost frame is searched on its own. -/
theorem chain_zero (frames : Frames) : frames.chain 0 = [0] := by
  unfold chain chainWithin
  split <;> rfl

theorem get_zero (frames : Frames) (name : Bytes) :
    frames.get 0 name = match frames.binding? 0 name with
      | some value => .ok value
      | none => .error (.undefinedVariable name) := by
  unfold get
  rw [chain_zero, List.findSome?_cons]
  cases frames.binding? 0 name <;> rfl

theorem holder?_zero (frames : Frames) (name : Bytes) :
    frames.holder? 0 name = if (frames.binding? 0 name).isSome then some 0 else none := by
  unfold holder?
  rw [chain_zero, List.find?_cons]
  cases (frames.binding? 0 name).isSome <;> rfl

theorem eq_globals_of_holder? {held : FrameId}
    (found : frames.holder? Heap.globals name = some held) : held = Heap.globals := by
  have chained := List.mem_of_find?_eq_some found
  rw [Heap.globals, chain_zero] at chained
  exact List.mem_singleton.mp chained

end Frames

namespace Heap

variable {heap other : Heap}

/-- A method that is found belongs to some class. -/
theorem exists_of_findMethod? {type : ClassId} {name : Bytes} {id : ClosureId}
    (found : heap.findMethod? type name = some id) :
    ∃ candidate, (heap.classOf candidate).methods.get? name = some id := by
  unfold findMethod? at found
  obtain ⟨candidate, -, held⟩ := List.exists_of_findSome?_eq_some found
  exact ⟨candidate, held⟩

/-- Heaps with the same classes have the same methods. -/
theorem findMethod?_congr (classes : other.classes = heap.classes) (type : ClassId)
    (name : Bytes) : other.findMethod? type name = heap.findMethod? type name := by
  have classOf (type : ClassId) : other.classOf type = heap.classOf type := by
    simp only [Heap.classOf, classes]
  have lineage (bound : Nat) (type : ClassId) :
      other.lineageWithin bound type = heap.lineageWithin bound type := by
    induction bound generalizing type with
    | zero => rfl
    | succ bound inductionHypothesis =>
        simp only [lineageWithin, classOf, inductionHypothesis]
  simp only [findMethod?, Heap.lineage, lineage, classOf]

/-- Heaps with the same classes and instances show the values alike whose functions have the
same names. -/
theorem display_congr (classes : other.classes = heap.classes)
    (objects : other.objects = heap.objects) {value : Value}
    (named : ∀ id, value = .function id →
      (other.closure id).declaration.name.text = (heap.closure id).declaration.name.text) :
    other.display value = heap.display value := by
  cases value with
  | function id => simp only [display, named id rfl]
  | classRef id => simp only [display, classOf, classes]
  | object id => simp only [display, classOf, object, classes, objects]
  | _ => rfl

/-- Values take as many arguments in heaps with the same classes, if functions and methods
do. -/
theorem arity?_congr (classes : other.classes = heap.classes) {value : Value}
    (functions : ∀ id, value = .function id →
      (other.closure id).declaration.parameters.length =
        (heap.closure id).declaration.parameters.length)
    (methods : ∀ type name id, heap.findMethod? type name = some id →
      (other.closure id).declaration.parameters.length =
        (heap.closure id).declaration.parameters.length) :
    other.arity? value = heap.arity? value := by
  cases value with
  | function id => simp only [arity?, functions id rfl]
  | classRef id =>
      simp only [arity?, initializer?, findMethod?_congr classes]
      cases found : heap.findMethod? id (Bytes.ofString "init") with
      | none => rfl
      | some method => simp only [methods id _ method found]
  | _ => rfl

end Heap

end LoxLang
