import LoxLang.Proofs.Eval.Changes

/-!
A heap only grows.  Frames, functions, classes and instances keep their numbers, frames
keep their enclosing frames and their names, and functions, classes and the types of
instances never change.
-/

namespace LoxLang

namespace Heap

/-- A later heap still has everything that an earlier one has. -/
structure GrowsTo (earlier later : Heap) : Prop where
  frames : earlier.frames.size ≤ later.frames.size
  enclosing : ∀ frame < earlier.frames.size,
    later.frames.enclosing? frame = earlier.frames.enclosing? frame
  names : ∀ frame name, (earlier.frames.binding? frame name).isSome →
    (later.frames.binding? frame name).isSome
  closures : earlier.closures.size ≤ later.closures.size
  closure : ∀ id < earlier.closures.size, later.closure id = earlier.closure id
  classes : earlier.classes.size ≤ later.classes.size
  classOf : ∀ id < earlier.classes.size, later.classOf id = earlier.classOf id
  objects : earlier.objects.size ≤ later.objects.size
  type : ∀ id < earlier.objects.size, (later.object id).type = (earlier.object id).type

theorem classOf_addClass_of_lt {heap : Heap} {id : ClassId} (made : Class)
    (bound : id < heap.classes.size) : (heap.addClass made).classOf id = heap.classOf id := by
  have room : id < heap.classes.size + 1 := Nat.lt_succ_of_lt bound
  simp [classOf, addClass, Array.getD, bound, room, Array.getElem_push_lt]

theorem object_addObject_of_lt {heap : Heap} {id : ObjectId} (made : Object)
    (bound : id < heap.objects.size) : (heap.addObject made).object id = heap.object id := by
  have room : id < heap.objects.size + 1 := Nat.lt_succ_of_lt bound
  simp [object, addObject, Array.getD, bound, room, Array.getElem_push_lt]

@[simp]
theorem type_bindField (heap : Heap) (id : ObjectId) (name : Bytes) (value : Value)
    (other : ObjectId) : ((heap.bindField id name value).object other).type =
      (heap.object other).type := by
  simp only [object, bindField, Array.getD_eq_getD_getElem?, Array.getElem?_modify]
  split
  · cases heap.objects[other]? <;> rfl
  · rfl

namespace GrowsTo

variable {earlier between later : Heap}

theorem refl (heap : Heap) : heap.GrowsTo heap :=
  ⟨Nat.le_refl _, fun _ _ => rfl, fun _ _ found => found, Nat.le_refl _, fun _ _ => rfl,
    Nat.le_refl _, fun _ _ => rfl, Nat.le_refl _, fun _ _ => rfl⟩

theorem trans (first : earlier.GrowsTo between) (second : between.GrowsTo later) :
    earlier.GrowsTo later where
  frames := Nat.le_trans first.frames second.frames
  enclosing frame bound := by
    rw [second.enclosing frame (Nat.lt_of_lt_of_le bound first.frames),
      first.enclosing frame bound]
  names frame name found := second.names frame name (first.names frame name found)
  closures := Nat.le_trans first.closures second.closures
  closure id bound := by
    rw [second.closure id (Nat.lt_of_lt_of_le bound first.closures), first.closure id bound]
  classes := Nat.le_trans first.classes second.classes
  classOf id bound := by
    rw [second.classOf id (Nat.lt_of_lt_of_le bound first.classes), first.classOf id bound]
  objects := Nat.le_trans first.objects second.objects
  type id bound := by
    rw [second.type id (Nat.lt_of_lt_of_le bound first.objects), first.type id bound]

theorem addFrame (heap : Heap) (made : Frame) : heap.GrowsTo (heap.addFrame made) :=
  { refl heap with
    frames := by simp [Heap.addFrame]
    enclosing := fun frame bound => by
      rw [Heap.addFrame, Frames.enclosing?_push, if_neg (Nat.ne_of_lt bound)]
    names := fun frame name found => by
      rw [Heap.addFrame, Frames.binding?_push,
        if_neg (Nat.ne_of_lt (Frames.lt_size_of_binding? found))]
      exact found }

theorem bindName (heap : Heap) (frame : FrameId) (name : Bytes) (value : Value) :
    heap.GrowsTo (heap.bindName frame name value) :=
  { refl heap with
    frames := by simp [Heap.bindName]
    enclosing := fun other _ => Frames.enclosing?_define heap.frames frame name value other
    names := fun _ _ found => Frames.binding?_define_isSome value found }

theorem addClosure (heap : Heap) (made : Closure) : heap.GrowsTo (heap.addClosure made) :=
  { refl heap with
    closures := by simp [Heap.addClosure]
    closure := fun _ bound => Heap.closure_addClosure_of_lt made bound }

theorem addClass (heap : Heap) (made : Class) : heap.GrowsTo (heap.addClass made) :=
  { refl heap with
    classes := by simp [Heap.addClass]
    classOf := fun _ bound => Heap.classOf_addClass_of_lt made bound }

theorem addObject (heap : Heap) (made : Object) : heap.GrowsTo (heap.addObject made) :=
  { refl heap with
    objects := by simp [Heap.addObject]
    type := fun _ bound => by rw [Heap.object_addObject_of_lt made bound] }

theorem bindField (heap : Heap) (id : ObjectId) (name : Bytes) (value : Value) :
    heap.GrowsTo (heap.bindField id name value) :=
  { refl heap with
    objects := by simp [Heap.bindField]
    type := fun other _ => type_bindField heap id name value other }

end GrowsTo

theorem Change.growsTo {licence : Licence} {earlier later : Heap}
    (change : Change licence earlier later) : earlier.GrowsTo later := by
  cases change with
  | addFrame outer bindings _ => exact .addFrame _ _
  | bindName frame value _ => exact .bindName _ _ _ _
  | addClosure made _ => exact .addClosure _ _
  | addClass made _ => exact .addClass _ _
  | addObject type => exact .addObject _ _
  | bindField id name value => exact .bindField _ _ _ _

theorem Changes.growsTo {licence : Licence} {earlier later : Heap}
    (changes : Changes licence earlier later) : earlier.GrowsTo later := by
  induction changes with
  | refl => exact .refl _
  | tail _ change inductionHypothesis => exact inductionHypothesis.trans change.growsTo

end Heap

namespace Activity

/-- From the beginning of a task to each of its parts, from there to its end, and from its
beginning to its end the heap only grows. -/
theorem growsTo_parts {activity : Activity}
    (kept : ∀ part ∈ activity.parts,
      (activity.inner part).machine.heap.GrowsTo (activity.inner part).final.heap) :
    activity.machine.heap.GrowsTo activity.final.heap ∧
      ∀ part ∈ activity.parts, activity.machine.heap.GrowsTo part.before.heap ∧
        (activity.inner part).final.heap.GrowsTo activity.final.heap := by
  obtain ⟨whole, inside⟩ := activity.linked.relates
    (fun before after => before.heap.GrowsTo after.heap) .trans
    (fun moves => Heap.Changes.growsTo moves.heap)
    fun part member => by
      have grows := kept part member
      rw [Part.after, Entrance.heap_leave]
      rw [inner, Part.activity, Entrance.heap_enter] at grows
      exact grows
  refine ⟨whole, fun part member => ?_⟩
  obtain ⟨reached, ends⟩ := inside part member
  rw [Part.after, Entrance.heap_leave] at ends
  exact ⟨reached, ends⟩

theorem growsTo (activity : Activity) :
    activity.machine.heap.GrowsTo activity.final.heap := by
  induction activity using Activity.induction with
  | step activity inductionHypothesis => exact (growsTo_parts inductionHypothesis).1

/-- A part runs while the heap grows from the beginning of the task to its end. -/
theorem growsTo_of_mem_parts (activity : Activity) {part : Part}
    (member : part ∈ activity.parts) :
    activity.machine.heap.GrowsTo part.before.heap ∧
      part.before.heap.GrowsTo activity.final.heap := by
  obtain ⟨reached, ends⟩ :=
    (growsTo_parts fun part _ => (activity.inner part).growsTo).2 part member
  have through := (activity.inner part).growsTo
  rw [inner, Part.activity, Entrance.heap_enter] at through
  exact ⟨reached, through.trans ends⟩

end Activity

end LoxLang
