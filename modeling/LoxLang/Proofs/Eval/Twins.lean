import LoxLang.Proofs.Eval.Steps
import LoxLang.Proofs.Heap.Spelling

/-!
Two heaps side by side.  They have the same frames up to spelling, the same classes
and instances, and functions that are alike.  Each update made on both sides keeps
that, and what was alike before stays so.
-/

namespace LoxLang

/-- Two heaps, with the spelling of every frame. -/
structure Twins where
  spellings : FrameId → Spelling
  left : Heap
  right : Heap

namespace Twins

/-- The spellings of a frame and of the frames around it. -/
def around (twins : Twins) (frame : FrameId) : Spellings :=
  twins.left.frames.spellingsAt twins.spellings frame

/-- A function on both sides.  Its code is alike inside the scopes that `inner` adds
to those of its frame. -/
structure Holds (like : Likeness) (twins : Twins) (inner : Spellings → Spellings)
    (id : ClosureId) : Prop where
  bound : id < twins.left.closures.size
  within : (twins.left.closure id).frame < twins.left.frames.size
  frame : (twins.right.closure id).frame = (twins.left.closure id).frame
  initializer : (twins.right.closure id).isInitializer = (twins.left.closure id).isInitializer
  declaration : Function.Alike like (inner (twins.around (twins.left.closure id).frame))
    (twins.left.closure id).declaration (twins.right.closure id).declaration

/-- A function that can be called on both sides. -/
def IsCallable (like : Likeness) (twins : Twins) (id : ClosureId) : Prop :=
  twins.Holds like (fun around => around) id

/-- A function that needs a receiver first. -/
def IsMethod (like : Likeness) (twins : Twins) (id : ClosureId) : Prop :=
  twins.Holds like (fun around => around.enter .same) id

/-- A value that stands for the same on both sides. -/
def IsValid (like : Likeness) (twins : Twins) (value : Value) : Prop :=
  ∀ id, value = .function id → twins.IsCallable like id

structure Correspond (like : Likeness) (twins : Twins) : Prop where
  frames : Frames.Agree twins.spellings twins.left.frames twins.right.frames
  ordered : twins.left.frames.IsOrdered
  rooted : Heap.globals < twins.left.frames.size
  global : twins.spellings Heap.globals = .same
  closures : twins.right.closures.size = twins.left.closures.size
  classes : twins.right.classes = twins.left.classes
  objects : twins.right.objects = twins.left.objects
  bound : ∀ frame name value, twins.left.frames.binding? frame name = some value →
    twins.IsValid like value
  fields : ∀ place name value, (twins.left.object place).fields.get? name = some value →
    twins.IsValid like value
  methods : ∀ type name id, (twins.left.classOf type).methods.get? name = some id →
    twins.IsMethod like id

/-- Only a function among the values has to be alike. -/
theorem isValid_of_ne {like : Likeness} {twins : Twins} {value : Value}
    (plain : ∀ id, value ≠ .function id) : twins.IsValid like value :=
  fun id function => absurd function (plain id)

theorem isValid_function {like : Likeness} {twins : Twins} {id : ClosureId}
    (callable : twins.IsCallable like id) : twins.IsValid like (.function id) := by
  intro other same
  obtain rfl := Value.function.inj same
  exact callable

/-- Later heaps in which what was there keeps its place. -/
structure Grows (before after : Twins) : Prop where
  frames : before.left.frames.size ≤ after.left.frames.size
  around : ∀ frame < before.left.frames.size, after.around frame = before.around frame
  binds : ∀ frame name, (before.left.frames.binding? frame name).isSome →
    (after.left.frames.binding? frame name).isSome
  closures : before.left.closures.size ≤ after.left.closures.size
  closure : ∀ id < before.left.closures.size,
    after.left.closure id = before.left.closure id ∧
      after.right.closure id = before.right.closure id

namespace Grows

variable {like : Likeness} {before middle after : Twins}

theorem refl (twins : Twins) : Grows twins twins :=
  ⟨Nat.le_refl _, fun _ _ => rfl, fun _ _ found => found, Nat.le_refl _, fun _ _ => ⟨rfl, rfl⟩⟩

theorem trans (first : Grows before middle) (second : Grows middle after) :
    Grows before after where
  frames := Nat.le_trans first.frames second.frames
  around frame bound :=
    (second.around frame (Nat.lt_of_lt_of_le bound first.frames)).trans (first.around frame bound)
  binds frame name found := second.binds frame name (first.binds frame name found)
  closures := Nat.le_trans first.closures second.closures
  closure id bound := by
    have later := second.closure id (Nat.lt_of_lt_of_le bound first.closures)
    rw [later.1, later.2]
    exact first.closure id bound

theorem holds {inner : Spellings → Spellings} {id : ClosureId} (grows : Grows before after)
    (held : before.Holds like inner id) : after.Holds like inner id := by
  obtain ⟨left, right⟩ := grows.closure id held.bound
  refine ⟨Nat.lt_of_lt_of_le held.bound grows.closures, ?_, ?_, ?_, ?_⟩
  · rw [left]
    exact Nat.lt_of_lt_of_le held.within grows.frames
  · rw [left, right]
    exact held.frame
  · rw [left, right]
    exact held.initializer
  · rw [left, right, grows.around _ held.within]
    exact held.declaration

theorem isValid {value : Value} (grows : Grows before after) (valid : before.IsValid like value) :
    after.IsValid like value :=
  fun id function => grows.holds (valid id function)

end Grows

/-- Both sides find the same methods. -/
theorem Correspond.findMethod? {like : Likeness} {twins : Twins} (same : twins.Correspond like)
    (type : ClassId) (name : Bytes) :
    twins.right.findMethod? type name = twins.left.findMethod? type name :=
  Heap.findMethod?_congr same.classes type name

namespace Correspond

variable {like : Likeness} {twins : Twins}

/-- What the heaps after an update have to show. -/
theorem grow {after : Twins} (same : twins.Correspond like) (grows : Grows twins after)
    (frames : Frames.Agree after.spellings after.left.frames after.right.frames)
    (ordered : after.left.frames.IsOrdered) (global : after.spellings Heap.globals = .same)
    (closures : after.right.closures.size = after.left.closures.size)
    (classes : after.right.classes = after.left.classes)
    (objects : after.right.objects = after.left.objects)
    (bound : ∀ frame name value, after.left.frames.binding? frame name = some value →
      twins.left.frames.binding? frame name = some value ∨ after.IsValid like value)
    (fields : ∀ place name value, (after.left.object place).fields.get? name = some value →
      (twins.left.object place).fields.get? name = some value ∨ after.IsValid like value)
    (methods : ∀ type name id, (after.left.classOf type).methods.get? name = some id →
      (twins.left.classOf type).methods.get? name = some id ∨ after.IsMethod like id) :
    after.Correspond like where
  frames := frames
  ordered := ordered
  rooted := Nat.lt_of_lt_of_le same.rooted grows.frames
  global := global
  closures := closures
  classes := classes
  objects := objects
  bound frame name value found := by
    rcases bound frame name value found with old | valid
    · exact grows.isValid (same.bound frame name value old)
    · exact valid
  fields place name value found := by
    rcases fields place name value found with old | valid
    · exact grows.isValid (same.fields place name value old)
    · exact valid
  methods type name id found := by
    rcases methods type name id found with old | method
    · exact grows.holds (same.methods type name id old)
    · exact method

end Correspond

/-- A frame made on both sides. -/
def addFrame (twins : Twins) (outer : FrameId) (inner : Spelling)
    (bindings others : Bindings Value) : Twins where
  spellings := Frames.extend twins.spellings twins.left.frames.size inner
  left := twins.left.addFrame ⟨some outer, bindings⟩
  right := twins.right.addFrame ⟨some outer, others⟩

/-- A name bound on both sides, as the frame spells it. -/
def bindName (twins : Twins) (frame : FrameId) (name : Bytes) (value : Value) : Twins where
  spellings := twins.spellings
  left := twins.left.bindName frame name value
  right := twins.right.bindName frame ((twins.spellings frame).spell name) value

def addClosure (twins : Twins) (made other : Closure) : Twins :=
  ⟨twins.spellings, twins.left.addClosure made, twins.right.addClosure other⟩

def addClass (twins : Twins) (made : Class) : Twins :=
  ⟨twins.spellings, twins.left.addClass made, twins.right.addClass made⟩

def addObject (twins : Twins) (made : Object) : Twins :=
  ⟨twins.spellings, twins.left.addObject made, twins.right.addObject made⟩

def bindField (twins : Twins) (id : ObjectId) (name : Bytes) (value : Value) : Twins :=
  ⟨twins.spellings, twins.left.bindField id name value, twins.right.bindField id name value⟩

namespace Correspond

variable {like : Likeness} {twins : Twins}

theorem grows_addFrame (same : twins.Correspond like) (outer : FrameId) (inner : Spelling)
    (bindings others : Bindings Value) :
    Grows twins (twins.addFrame outer inner bindings others) where
  frames := by simp [addFrame, Heap.addFrame]
  around frame bound := by
    apply same.ordered.spellingsAt_eq _ _ bound
    · intro other older
      exact (Frames.enclosing?_push ..).trans (if_neg (Nat.ne_of_lt older))
    · intro other older
      exact if_neg (Nat.ne_of_lt older)
  binds frame name found := by
    simp only [Twins.addFrame, Heap.addFrame, Frames.binding?_push]
    rw [if_neg (Nat.ne_of_lt (Frames.lt_size_of_binding? found))]
    exact found
  closures := Nat.le_refl _
  closure _ _ := ⟨rfl, rfl⟩

theorem addFrame (same : twins.Correspond like) {outer : FrameId} {inner : Spelling}
    {bindings others : Bindings Value} (within : outer < twins.left.frames.size)
    (spelled : ∀ name, others.get? (inner.spell name) = bindings.get? name)
    (valid : ∀ name value, bindings.get? name = some value → twins.IsValid like value) :
    (twins.addFrame outer inner bindings others).Correspond like := by
  have grows := same.grows_addFrame outer inner bindings others
  refine same.grow grows (same.frames.push spelled) ?_ ?_ same.closures same.classes same.objects
    ?_ (fun _ _ _ => .inl) (fun _ _ _ => .inl)
  · intro frame enclosing found
    simp only [Twins.addFrame, Heap.addFrame, Frames.enclosing?_push] at found
    split at found
    · next newest =>
        obtain rfl := Option.some.inj found
        rw [newest]
        exact within
    · exact same.ordered frame enclosing found
  · exact (if_neg (Nat.ne_of_lt same.rooted)).trans same.global
  · intro frame name value found
    simp only [Twins.addFrame, Heap.addFrame, Frames.binding?_push] at found
    split at found
    · exact .inr (grows.isValid (valid name value found))
    · exact .inl found

/-- The scopes around a new frame are one more than those around the frame it is
enclosed by. -/
theorem around_addFrame (same : twins.Correspond like) {outer : FrameId} (inner : Spelling)
    (bindings others : Bindings Value) (within : outer < twins.left.frames.size) :
    (twins.addFrame outer inner bindings others).around twins.left.frames.size =
      (twins.around outer).enter inner := by
  have grows := same.grows_addFrame outer inner bindings others
  have encloses : (twins.addFrame outer inner bindings others).left.frames.enclosing?
      twins.left.frames.size = some outer :=
    (Frames.enclosing?_push ..).trans (if_pos rfl)
  have newest : (twins.addFrame outer inner bindings others).spellings twins.left.frames.size =
      inner := if_pos rfl
  rw [Twins.around, Frames.spellingsAt_of_enclosing? encloses, newest]
  exact congrArg (Spellings.enter · inner) (grows.around outer within)

theorem grows_bindName (twins : Twins) (frame : FrameId) (name : Bytes) (value : Value)
    (ordered : twins.left.frames.IsOrdered) :
    Grows twins (twins.bindName frame name value) where
  frames := by simp [Twins.bindName, Heap.bindName]
  around other bound := by
    apply ordered.spellingsAt_eq _ _ bound
    · intro other _
      exact Frames.enclosing?_define ..
    · exact fun _ _ => rfl
  binds _ _ found := Frames.binding?_define_isSome value found
  closures := Nat.le_refl _
  closure _ _ := ⟨rfl, rfl⟩

theorem bindName (same : twins.Correspond like) (frame : FrameId) (name : Bytes) {value : Value}
    (valid : twins.IsValid like value) : (twins.bindName frame name value).Correspond like := by
  have grows := grows_bindName twins frame name value same.ordered
  refine same.grow grows (same.frames.define frame name value) ?_ same.global same.closures
    same.classes same.objects ?_ (fun _ _ _ => .inl) (fun _ _ _ => .inl)
  · intro other outer found
    simp only [Twins.bindName, Heap.bindName, Frames.enclosing?_define] at found
    exact same.ordered other outer found
  · intro other text held found
    rcases Frames.binding?_define_inv found with old | ⟨-, -, rfl⟩
    · exact .inl old
    · exact .inr (grows.isValid valid)

theorem grows_addClosure (same : twins.Correspond like) (made other : Closure) :
    Grows twins (twins.addClosure made other) where
  frames := Nat.le_refl _
  around _ _ := rfl
  binds _ _ found := found
  closures := Nat.le_of_lt (Heap.lt_size_addClosure twins.left made)
  closure id bound := ⟨Heap.closure_addClosure_of_lt made bound,
    Heap.closure_addClosure_of_lt other (by rw [same.closures]; exact bound)⟩

theorem addClosure (same : twins.Correspond like) (made other : Closure) :
    (twins.addClosure made other).Correspond like := by
  refine same.grow (same.grows_addClosure made other) same.frames same.ordered same.global ?_
    same.classes same.objects (fun _ _ _ => .inl) (fun _ _ _ => .inl) (fun _ _ _ => .inl)
  simp [Twins.addClosure, Heap.addClosure, same.closures]

/-- A function made on both sides in one frame. -/
theorem holds_addClosure (same : twins.Correspond like) {inner : Spellings → Spellings}
    {frame : FrameId} {declaration other : Function} (initializer : Bool)
    (within : frame < twins.left.frames.size)
    (alike : Function.Alike like (inner (twins.around frame)) declaration other) :
    (twins.addClosure ⟨declaration, frame, initializer⟩ ⟨other, frame, initializer⟩).Holds like
      inner twins.left.closures.size := by
  have left : (twins.addClosure ⟨declaration, frame, initializer⟩
      ⟨other, frame, initializer⟩).left.closure twins.left.closures.size =
      ⟨declaration, frame, initializer⟩ := Heap.closure_addClosure_size ..
  have right : (twins.addClosure ⟨declaration, frame, initializer⟩
      ⟨other, frame, initializer⟩).right.closure twins.left.closures.size =
      ⟨other, frame, initializer⟩ := by
    rw [← same.closures]
    exact Heap.closure_addClosure_size ..
  refine ⟨Heap.lt_size_addClosure twins.left _, ?_, ?_, ?_, ?_⟩
  · rw [left]
    exact within
  · rw [left, right]
  · rw [left, right]
  · rw [left, right]
    exact alike

theorem grows_of_frames_closures {after : Twins} (spellings : after.spellings = twins.spellings)
    (frames : after.left.frames = twins.left.frames)
    (closures : after.left.closures = twins.left.closures)
    (others : after.right.closures = twins.right.closures) : Grows twins after where
  frames := Nat.le_of_eq (by rw [frames])
  around _ _ := by simp only [around, frames, spellings]
  binds _ _ found := by rw [frames]; exact found
  closures := Nat.le_of_eq (by rw [closures])
  closure _ _ := by simp only [Heap.closure, closures, others, and_self]

theorem addClass (same : twins.Correspond like) {made : Class}
    (methods : ∀ name id, made.methods.get? name = some id → twins.IsMethod like id) :
    (twins.addClass made).Correspond like := by
  have grows : Grows twins (twins.addClass made) := grows_of_frames_closures rfl rfl rfl rfl
  refine same.grow grows same.frames same.ordered same.global same.closures ?_ same.objects
    (fun _ _ _ => .inl) (fun _ _ _ => .inl) ?_
  · simp [Twins.addClass, Heap.addClass, same.classes]
  · intro type name id found
    rcases Heap.methods_addClass_inv found with old | new
    · exact .inl old
    · exact .inr (grows.holds (methods name id new))

theorem addObject (same : twins.Correspond like) (type : ClassId) :
    (twins.addObject ⟨type, []⟩).Correspond like := by
  have grows : Grows twins (twins.addObject ⟨type, []⟩) := grows_of_frames_closures rfl rfl rfl rfl
  refine same.grow grows same.frames same.ordered same.global same.closures same.classes ?_
    (fun _ _ _ => .inl) ?_ (fun _ _ _ => .inl)
  · simp [Twins.addObject, Heap.addObject, same.objects]
  · intro place name value found
    rcases Heap.fields_addObject_inv found with old | new
    · exact .inl old
    · simp [Bindings.get?] at new

theorem bindField (same : twins.Correspond like) (id : ObjectId) (name : Bytes) {value : Value}
    (valid : twins.IsValid like value) : (twins.bindField id name value).Correspond like := by
  have grows : Grows twins (twins.bindField id name value) :=
    grows_of_frames_closures rfl rfl rfl rfl
  refine same.grow grows same.frames same.ordered same.global same.closures same.classes ?_
    (fun _ _ _ => .inl) ?_ (fun _ _ _ => .inl)
  · simp [Twins.bindField, Heap.bindField, same.objects]
  · intro place field held found
    rcases Heap.fields_bindField_inv found with old | rfl
    · exact .inl old
    · exact .inr (grows.isValid valid)

/-- A method that is found belongs to some class. -/
theorem isMethod_of_findMethod? (same : twins.Correspond like) {type : ClassId} {name : Bytes}
    {method : ClosureId} (found : twins.left.findMethod? type name = some method) :
    twins.IsMethod like method := by
  obtain ⟨candidate, held⟩ := Heap.exists_of_findMethod? found
  exact same.methods candidate name method held

/-- Both sides show a value in the same way. -/
theorem display (same : twins.Correspond like) {value : Value} (valid : twins.IsValid like value) :
    twins.right.display value = twins.left.display value :=
  Heap.display_congr same.classes same.objects fun id function =>
    (valid id function).declaration.name_text

/-- A value takes as many arguments on both sides. -/
theorem arity? (same : twins.Correspond like) {value : Value} (valid : twins.IsValid like value) :
    twins.right.arity? value = twins.left.arity? value :=
  Heap.arity?_congr same.classes
    (fun id function => (valid id function).declaration.length_parameters)
    fun _ _ _ found => (same.isMethod_of_findMethod? found).declaration.length_parameters

end Correspond

end Twins

end LoxLang
