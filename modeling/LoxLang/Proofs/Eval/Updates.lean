import LoxLang.Proofs.Eval.Layout

/-!
The updates of a heap that an execution makes, one by one.  Each keeps the heap
to its layout under a condition on what is put into it, and what was there
before keeps its place.
-/

namespace LoxLang

open Scope

namespace Heap

/-- A heap with one more frame. -/
def addFrame (heap : Heap) (made : Frame) : Heap :=
  { heap with frames := Array.push heap.frames made }

/-- A heap in which a frame binds a name. -/
def bindName (heap : Heap) (frame : FrameId) (name : Bytes) (value : Value) : Heap :=
  { heap with frames := heap.frames.define frame name value }

/-- A heap with one more function. -/
def addClosure (heap : Heap) (made : Closure) : Heap :=
  { heap with closures := heap.closures.push made }

/-- A heap with one more class. -/
def addClass (heap : Heap) (made : Class) : Heap :=
  { heap with classes := heap.classes.push made }

/-- A heap with one more instance. -/
def addObject (heap : Heap) (made : Object) : Heap :=
  { heap with objects := heap.objects.push made }

/-- A heap in which a field of an instance has a value. -/
def bindField (heap : Heap) (id : ObjectId) (name : Bytes) (value : Value) : Heap :=
  { heap with objects := heap.objects.modify id fun object =>
    { object with fields := object.fields.insert name value } }

end Heap

namespace Machine

/-- The machine with another heap. -/
def withHeap (machine : Machine) (heap : Heap) : Machine :=
  { machine with heap := heap }

end Machine

namespace Eval

variable (machine : Machine)

theorem get_apply : (get : Eval Machine) machine = .ok machine machine := rfl

theorem modify_apply (change : Machine → Machine) :
    (modify change : Eval PUnit) machine = .ok ⟨⟩ (change machine) := rfl

theorem modifyGet_apply {α : Type} (change : Machine → α × Machine) :
    (modifyGet change : Eval α) machine = .ok (change machine).1 (change machine).2 := rfl

theorem newFrame_apply (outer : FrameId) (bindings : Bindings Value) :
    newFrame outer bindings machine = .ok machine.heap.frames.size
      (machine.withHeap (machine.heap.addFrame ⟨some outer, bindings⟩)) := rfl

theorem define_apply (name : Bytes) (value : Value) :
    define name value machine =
      .ok () (machine.withHeap (machine.heap.bindName machine.active name value)) := rfl

theorem newClosure_apply (made : Closure) :
    newClosure made machine =
      .ok machine.heap.closures.size (machine.withHeap (machine.heap.addClosure made)) := rfl

theorem newClass_apply (made : Class) :
    newClass made machine =
      .ok machine.heap.classes.size (machine.withHeap (machine.heap.addClass made)) := rfl

theorem newObject_apply (type : ClassId) :
    newObject type machine =
      .ok machine.heap.objects.size (machine.withHeap (machine.heap.addObject ⟨type, []⟩)) := rfl

theorem setField_apply (id : ObjectId) (name : Bytes) (value : Value) :
    setField id name value machine =
      .ok () (machine.withHeap (machine.heap.bindField id name value)) := rfl

theorem assignFrom_of_holder? {frame holder : FrameId} {name : Name} (value : Value)
    (found : machine.heap.frames.holder? frame name.text = some holder) :
    assignFrom frame name value machine =
      .ok () (machine.withHeap (machine.heap.bindName holder name.text value)) := by
  simp only [assignFrom, Bind.bind, EStateM.bind, get_apply, found]
  rfl

theorem assignFrom_of_none {frame : FrameId} {name : Name} (value : Value)
    (found : machine.heap.frames.holder? frame name.text = none) :
    assignFrom frame name value machine =
      .error (.fault ⟨.undefinedVariable name.text, name.token⟩) machine := by
  simp only [assignFrom, Bind.bind, EStateM.bind, get_apply, found]
  rfl

theorem assignAt_of_ancestor {distance : Nat} {holder : FrameId} (name : Bytes) (value : Value)
    (walked : machine.heap.frames.ancestor machine.active distance = .ok holder) :
    assignAt distance name value machine =
      .ok () (machine.withHeap (machine.heap.bindName holder name value)) := by
  simp only [assignAt, Bind.bind, EStateM.bind, get_apply, walked]
  rfl

theorem readAt_apply (distance : Int) (name : Bytes) :
    readAt distance name machine =
      ofDesync (machine.heap.frames.getAt machine.active distance name) machine := rfl

end Eval

namespace Heap

theorem lt_size_addClosure (heap : Heap) (made : Closure) :
    heap.closures.size < (heap.addClosure made).closures.size := by
  simp [addClosure]

theorem closure_addClosure_of_lt {heap : Heap} {id : ClosureId} (made : Closure)
    (bound : id < heap.closures.size) : (heap.addClosure made).closure id = heap.closure id := by
  have room : id < heap.closures.size + 1 := Nat.lt_succ_of_lt bound
  simp [closure, addClosure, Array.getD, bound, room, Array.getElem_push_lt]

@[simp]
theorem closure_addClosure_size (heap : Heap) (made : Closure) :
    (heap.addClosure made).closure heap.closures.size = made := by
  simp [closure, addClosure, Array.getD]

theorem methods_addClass_inv {heap : Heap} {made : Class} {type : ClassId} {name : Bytes}
    {id : ClosureId} (found : ((heap.addClass made).classOf type).methods.get? name = some id) :
    (heap.classOf type).methods.get? name = some id ∨ made.methods.get? name = some id := by
  simp only [classOf, addClass, Array.getD_eq_getD_getElem?, Array.getElem?_push] at found ⊢
  split at found
  · exact .inr found
  · exact .inl found

theorem fields_addObject_inv {heap : Heap} {made : Object} {place : ObjectId} {name : Bytes}
    {value : Value}
    (found : ((heap.addObject made).object place).fields.get? name = some value) :
    (heap.object place).fields.get? name = some value ∨ made.fields.get? name = some value := by
  simp only [object, addObject, Array.getD_eq_getD_getElem?, Array.getElem?_push] at found ⊢
  split at found
  · exact .inr found
  · exact .inl found

theorem lineageWithin_addObject (heap : Heap) (made : Object) (bound : Nat) (type : ClassId) :
    (heap.addObject made).lineageWithin bound type = heap.lineageWithin bound type := by
  induction bound generalizing type with
  | zero => rfl
  | succ bound inductionHypothesis =>
      have same : (heap.addObject made).classOf type = heap.classOf type := rfl
      simp only [lineageWithin, same, inductionHypothesis]

/-- A new instance changes no class. -/
@[simp]
theorem initializer?_addObject (heap : Heap) (made : Object) (type : ClassId) :
    (heap.addObject made).initializer? type = heap.initializer? type := by
  simp only [initializer?, findMethod?, lineage, lineageWithin_addObject]
  rfl

theorem fields_bindField_inv {heap : Heap} {id place : ObjectId} {field name : Bytes}
    {given value : Value}
    (found : ((heap.bindField id field given).object place).fields.get? name = some value) :
    (heap.object place).fields.get? name = some value ∨ value = given := by
  simp only [object, bindField, Array.getD_eq_getD_getElem?, Array.getElem?_modify] at found ⊢
  split at found
  · cases held : heap.objects[place]? with
    | none => simp [held, Bindings.get?] at found
    | some object =>
        simp only [held, Option.map_some, Option.getD_some] at found ⊢
        by_cases same : name = field
        · subst same
          rw [Bindings.get?_insert_self] at found
          exact .inr (Option.some.inj found).symm
        · rw [Bindings.get?_insert_of_ne _ _ same] at found
          exact .inl found
  · exact .inl found

end Heap

namespace Heap.IsGrounded

variable {heap : Heap}

theorem addFrame (grounded : heap.IsGrounded) {outer : FrameId} (bindings : Bindings Value)
    (within : outer < heap.frames.size) : (heap.addFrame ⟨some outer, bindings⟩).IsGrounded where
  rooted := by simp [Heap.addFrame]
  ordered frame enclosing found := by
    rw [Heap.addFrame, Frames.enclosing?_push] at found
    split at found
    · next same =>
        obtain rfl := Option.some.inj found
        rw [same]
        exact within
    · exact grounded.ordered frame enclosing found
  enclosed frame bound inside := by
    rw [Heap.addFrame, Frames.enclosing?_push]
    split
    · exact ⟨outer, rfl⟩
    · next other =>
        have room : frame < heap.frames.size + 1 := by simpa [Heap.addFrame] using bound
        exact grounded.enclosed frame (Nat.lt_of_le_of_ne (Nat.le_of_lt_succ room) other) inside
  closures id bound := by
    have size : (heap.addFrame ⟨some outer, bindings⟩).frames.size = heap.frames.size + 1 :=
      Array.size_push _
    rw [size]
    exact Nat.lt_succ_of_lt (grounded.closures id bound)
  superclasses := grounded.superclasses

theorem bindName (grounded : heap.IsGrounded) (frame : FrameId) (name : Bytes) (value : Value) :
    (heap.bindName frame name value).IsGrounded where
  rooted := by simpa [Heap.bindName] using grounded.rooted
  ordered other outer found := by
    rw [Heap.bindName, Frames.enclosing?_define] at found
    exact grounded.ordered other outer found
  enclosed other bound inside := by
    rw [Heap.bindName, Frames.enclosing?_define]
    exact grounded.enclosed other (by simpa [Heap.bindName] using bound) inside
  closures id bound := by
    have size : (heap.bindName frame name value).frames.size = heap.frames.size :=
      Frames.size_define heap.frames frame name value
    rw [size]
    exact grounded.closures id bound
  superclasses := grounded.superclasses

theorem addClosure (grounded : heap.IsGrounded) {made : Closure}
    (within : made.frame < heap.frames.size) : (heap.addClosure made).IsGrounded :=
  { grounded with
    closures := fun id bound => by
      have room : id < heap.closures.size + 1 := by simpa [Heap.addClosure] using bound
      rcases Nat.lt_succ_iff_lt_or_eq.mp room with older | rfl
      · rw [closure_addClosure_of_lt made older]
        exact grounded.closures id older
      · rw [closure_addClosure_size]
        exact within }

theorem addClass (grounded : heap.IsGrounded) {made : Class}
    (older : ∀ parent, made.superclass = some parent → parent < heap.classes.size) :
    (heap.addClass made).IsGrounded :=
  { grounded with
    superclasses := fun type parent found => by
      simp only [Heap.classOf, Heap.addClass, Array.getD_eq_getD_getElem?,
        Array.getElem?_push] at found
      split at found
      · next same =>
          rw [same]
          exact older parent found
      · apply grounded.superclasses type parent
        simpa only [Heap.classOf, Array.getD_eq_getD_getElem?] using found }

/-- Instances do not matter. -/
theorem ofObjects (grounded : heap.IsGrounded) (objects : Array Object) :
    { heap with objects := objects }.IsGrounded :=
  ⟨grounded.rooted, grounded.ordered, grounded.enclosed, grounded.closures,
    grounded.superclasses⟩

end Heap.IsGrounded

/-- A layout in which a new frame has names. -/
def Layout.extend (layout : Layout) (frame : FrameId) (names : List Bytes) : Layout :=
  fun other => if other = frame then names else layout other

namespace Conforms

variable {code : Code} {layout : Layout} {heap : Heap}

/-- What a later heap with the same frames, fields and methods has to show. -/
theorem grow {layout' : Layout} {heap' : Heap} (conforms : Conforms code layout heap)
    (grows : Grows layout heap layout' heap') (grounded : heap'.IsGrounded)
    (separate : ∀ frame < heap'.frames.size, frame ≠ Heap.globals → IsSeparate (layout' frame))
    (names : ∀ frame name, frame ≠ Heap.globals → (heap'.frames.binding? frame name).isSome →
      name ∈ layout' frame)
    (globals : ∀ name, (heap'.frames.binding? Heap.globals name).isSome → IsOrdinary name)
    (bound : ∀ frame name value, heap'.frames.binding? frame name = some value →
      heap.frames.binding? frame name = some value ∨
        (IsValid code layout' heap' value ∧
          (name = (thisName 0).text → ∃ place, value = .object place) ∧
          (name = (superName 0).text → ∃ type, value = .classRef type)))
    (fields : ∀ place name value, (heap'.object place).fields.get? name = some value →
      (heap.object place).fields.get? name = some value ∨ IsValid code layout' heap' value)
    (methods : ∀ type name id, (heap'.classOf type).methods.get? name = some id →
      (heap.classOf type).methods.get? name = some id ∨ IsMethod code layout' heap' id) :
    Conforms code layout' heap' where
  toIsGrounded := grounded
  separate := separate
  names := names
  globals := globals
  receiver frame value found := by
    rcases bound frame _ value found with old | ⟨_, receiver, _⟩
    · exact conforms.receiver frame value old
    · exact receiver rfl
  superclass frame value found := by
    rcases bound frame _ value found with old | ⟨_, _, superclass⟩
    · exact conforms.superclass frame value old
    · exact superclass rfl
  bound frame name value found := by
    rcases bound frame name value found with old | ⟨valid, _⟩
    · exact grows.isValid (conforms.bound frame name value old)
    · exact valid
  fields place name value found := by
    rcases fields place name value found with old | valid
    · exact grows.isValid (conforms.fields place name value old)
    · exact valid
  methods type name id found := by
    rcases methods type name id found with old | method
    · exact grows.isMethod (conforms.methods type name id old)
    · exact method

/-- What may be bound when a frame is made for a scope that declares `names`. -/
structure Admits (code : Code) (layout : Layout) (heap : Heap) (names : List Bytes)
    (bindings : Bindings Value) : Prop where
  separate : IsSeparate names
  names : ∀ name, (bindings.get? name).isSome → name ∈ names
  valid : ∀ name value, bindings.get? name = some value → IsValid code layout heap value
  receiver : ∀ value, bindings.get? (thisName 0).text = some value →
    ∃ place, value = .object place
  superclass : ∀ value, bindings.get? (superName 0).text = some value →
    ∃ type, value = .classRef type

theorem grows_addFrame (layout : Layout) (heap : Heap) (made : Frame) (names : List Bytes) :
    Grows layout heap (layout.extend heap.frames.size names) (heap.addFrame made) where
  layout frame bound := if_neg (Nat.ne_of_lt bound)
  enclosing frame bound := by
    rw [Heap.addFrame, Frames.enclosing?_push, if_neg (Nat.ne_of_lt bound)]
  binds frame name found := by
    rw [Heap.addFrame, Frames.binding?_push,
      if_neg (Nat.ne_of_lt (Frames.lt_size_of_binding? found))]
    exact found
  frames := by simp [Heap.addFrame]
  closures := Nat.le_refl _
  closure _ _ := rfl
  classes := Nat.le_refl _

theorem addFrame (conforms : Conforms code layout heap) {outer : FrameId} {names : List Bytes}
    {bindings : Bindings Value} (within : outer < heap.frames.size)
    (admits : Admits code layout heap names bindings) :
    Conforms code (layout.extend heap.frames.size names)
      (heap.addFrame ⟨some outer, bindings⟩) := by
  have grows := grows_addFrame layout heap ⟨some outer, bindings⟩ names
  refine conforms.grow grows (conforms.toIsGrounded.addFrame bindings within) ?_ ?_ ?_ ?_
    (fun _ _ _ => .inl) (fun _ _ _ => .inl)
  · intro frame bound inside
    unfold Layout.extend
    split
    · exact admits.separate
    · next old =>
        have room : frame < heap.frames.size + 1 := by simpa [Heap.addFrame] using bound
        exact conforms.separate frame (Nat.lt_of_le_of_ne (Nat.le_of_lt_succ room) old) inside
  · intro frame name inside found
    rw [Heap.addFrame, Frames.binding?_push] at found
    unfold Layout.extend
    split at found
    · next same =>
        rw [if_pos same]
        exact admits.names name found
    · next old =>
        rw [if_neg old]
        exact conforms.names frame name inside found
  · intro name found
    have old : Heap.globals ≠ heap.frames.size := Nat.ne_of_lt conforms.rooted
    rw [Heap.addFrame, Frames.binding?_push, if_neg old] at found
    exact conforms.globals name found
  · intro frame name value found
    rw [Heap.addFrame, Frames.binding?_push] at found
    split at found
    · refine .inr ⟨grows.isValid (admits.valid name value found), ?_, ?_⟩
      · rintro rfl
        exact admits.receiver value found
      · rintro rfl
        exact admits.superclass value found
    · exact .inl found

theorem grows_bindName (layout : Layout) (heap : Heap) (frame : FrameId) (name : Bytes)
    (value : Value) : Grows layout heap layout (heap.bindName frame name value) where
  layout _ _ := rfl
  enclosing other _ := Frames.enclosing?_define heap.frames frame name value other
  binds _ _ found := Frames.binding?_define_isSome value found
  frames := by simp [Heap.bindName]
  closures := Nat.le_refl _
  closure _ _ := rfl
  classes := Nat.le_refl _

theorem bindName (conforms : Conforms code layout heap) {frame : FrameId} {name : Bytes}
    {value : Value} (ordinary : IsOrdinary name)
    (declared : frame ≠ Heap.globals → name ∈ layout frame)
    (valid : IsValid code layout (heap.bindName frame name value) value) :
    Conforms code layout (heap.bindName frame name value) := by
  refine conforms.grow (grows_bindName layout heap frame name value)
    (conforms.toIsGrounded.bindName frame name value) ?_ ?_ ?_ ?_
    (fun _ _ _ => .inl) (fun _ _ _ => .inl)
  · intro other bound
    exact conforms.separate other (by simpa [Heap.bindName] using bound)
  · intro other text inside found
    obtain ⟨held, reached⟩ := Option.isSome_iff_exists.mp found
    rcases Frames.binding?_define_inv reached with old | ⟨rfl, rfl, -⟩
    · exact conforms.names other text inside (by rw [old]; rfl)
    · exact declared inside
  · intro text found
    obtain ⟨held, reached⟩ := Option.isSome_iff_exists.mp found
    rcases Frames.binding?_define_inv reached with old | ⟨-, rfl, -⟩
    · exact conforms.globals text (by rw [old]; rfl)
    · exact ordinary
  · intro other text held reached
    rcases Frames.binding?_define_inv reached with old | ⟨rfl, rfl, rfl⟩
    · exact .inl old
    · exact .inr ⟨valid, fun this => absurd this ordinary.1, fun super => absurd super ordinary.2⟩

theorem grows_addClosure (layout : Layout) (heap : Heap) (made : Closure) :
    Grows layout heap layout (heap.addClosure made) where
  layout _ _ := rfl
  enclosing _ _ := rfl
  binds _ _ found := found
  frames := Nat.le_refl _
  closures := by simp [Heap.addClosure]
  closure _ bound := Heap.closure_addClosure_of_lt made bound
  classes := Nat.le_refl _

theorem addClosure (conforms : Conforms code layout heap) {made : Closure}
    (within : made.frame < heap.frames.size) : Conforms code layout (heap.addClosure made) :=
  conforms.grow (grows_addClosure layout heap made) (conforms.toIsGrounded.addClosure within)
    conforms.separate conforms.names conforms.globals
    (fun _ _ _ => .inl) (fun _ _ _ => .inl) (fun _ _ _ => .inl)

theorem grows_of_frames_closures {heap' : Heap} (frames : heap'.frames = heap.frames)
    (closures : heap'.closures = heap.closures)
    (classes : heap.classes.size ≤ heap'.classes.size) : Grows layout heap layout heap' where
  layout _ _ := rfl
  enclosing _ _ := by rw [frames]
  binds _ _ found := by rw [frames]; exact found
  frames := Nat.le_of_eq (by rw [frames])
  closures := Nat.le_of_eq (by rw [closures])
  closure _ _ := by simp only [Heap.closure, closures]
  classes := classes

theorem grows_addClass (layout : Layout) (heap : Heap) (made : Class) :
    Grows layout heap layout (heap.addClass made) :=
  grows_of_frames_closures rfl rfl (by simp [Heap.addClass])

theorem addClass (conforms : Conforms code layout heap) {made : Class}
    (older : ∀ parent, made.superclass = some parent → parent < heap.classes.size)
    (methods : ∀ name id, made.methods.get? name = some id → IsMethod code layout heap id) :
    Conforms code layout (heap.addClass made) := by
  have grows := grows_addClass layout heap made
  refine conforms.grow grows (conforms.toIsGrounded.addClass older) conforms.separate
    conforms.names conforms.globals (fun _ _ _ => .inl) (fun _ _ _ => .inl) ?_
  intro type name id found
  rcases Heap.methods_addClass_inv found with old | new
  · exact .inl old
  · exact .inr (grows.isMethod (methods name id new))

theorem addObject (conforms : Conforms code layout heap) (type : ClassId) :
    Conforms code layout (heap.addObject ⟨type, []⟩) := by
  refine conforms.grow (grows_of_frames_closures rfl rfl (Nat.le_refl _))
    (conforms.toIsGrounded.ofObjects _) conforms.separate conforms.names conforms.globals
    (fun _ _ _ => .inl) ?_ (fun _ _ _ => .inl)
  intro place name value found
  rcases Heap.fields_addObject_inv found with old | new
  · exact .inl old
  · simp [Bindings.get?] at new

theorem bindField (conforms : Conforms code layout heap) {id : ObjectId} {name : Bytes}
    {value : Value} (valid : IsValid code layout heap value) :
    Conforms code layout (heap.bindField id name value) := by
  have grows : Grows layout heap layout (heap.bindField id name value) :=
    grows_of_frames_closures rfl rfl (Nat.le_refl _)
  refine conforms.grow grows (conforms.toIsGrounded.ofObjects _) conforms.separate conforms.names
    conforms.globals (fun _ _ _ => .inl) ?_ (fun _ _ _ => .inl)
  intro place field held found
  rcases Heap.fields_bindField_inv found with old | rfl
  · exact .inl old
  · exact .inr (grows.isValid valid)

end Conforms

end LoxLang
