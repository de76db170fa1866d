import LoxLang.Proofs.Eval.Steps
import LoxLang.Proofs.Heap.Hidden
import LoxLang.Proofs.Program.Relabel

/-!
The heap of an execution laid over that of another which makes fewer frames.  Classes and
instances are the same, frames that are not hidden bind the same values, and every function
has a copy that does without the hidden frame around it.  Each update made on both sides
keeps that, and so does a hidden frame.
-/

namespace LoxLang

open Scope

open Projection (Hides Relates)

/-- A heap over another, with what becomes of its frames. -/
structure Overlay where
  projection : Projection
  upper : Heap
  lower : Heap

namespace Overlay

/-- A function and its copy.  The code of the function stands inside the scopes that fit its
frame, and `added` inside them. -/
def Holds (table other : Resolution) (overlay : Overlay) (added : List Region)
    (id : ClosureId) : Prop :=
  id < overlay.upper.closures.size ∧ ∃ (passage : Passage) (around : List Region),
    passage.Reaches around ∧
      Hides overlay.projection overlay.upper.frames (passage.gap around)
        (overlay.upper.closure id).frame ∧
      overlay.lower.closure id =
        ⟨(overlay.upper.closure id).declaration.relabel (.renumber passage.ids),
          overlay.projection.image (overlay.upper.closure id).frame,
          (overlay.upper.closure id).isInitializer⟩ ∧
      ∀ site ∈ (overlay.upper.closure id).declaration.sites (added ++ around),
        passage.Links table other site

/-- A function that can be called. -/
def IsCallable (table other : Resolution) (overlay : Overlay) (id : ClosureId) : Prop :=
  overlay.Holds table other [] id

/-- A function that needs a receiver first. -/
def IsMethod (table other : Resolution) (overlay : Overlay) (id : ClosureId) : Prop :=
  ∃ inherits, overlay.Holds table other [.receiver inherits] id

/-- A value that stands for the same in both heaps. -/
def IsValid (table other : Resolution) (overlay : Overlay) (value : Value) : Prop :=
  ∀ id, value = .function id → overlay.IsCallable table other id

structure Corresponds (table other : Resolution) (overlay : Overlay) : Prop where
  frames : overlay.projection.Relates overlay.upper.frames overlay.lower.frames
  rooted : Heap.globals < overlay.upper.frames.size
  plain : ¬ overlay.projection.hidden Heap.globals
  global : overlay.projection.image Heap.globals = Heap.globals
  closures : overlay.lower.closures.size = overlay.upper.closures.size
  classes : overlay.lower.classes = overlay.upper.classes
  objects : overlay.lower.objects = overlay.upper.objects
  bound : ∀ frame name value, overlay.upper.frames.binding? frame name = some value →
    overlay.IsValid table other value
  fields : ∀ place name value, (overlay.upper.object place).fields.get? name = some value →
    overlay.IsValid table other value
  methods : ∀ type name id, (overlay.upper.classOf type).methods.get? name = some id →
    overlay.IsMethod table other id

/-- Later heaps in which what was there keeps its place. -/
structure Grows (before after : Overlay) : Prop where
  frames : before.upper.frames.size ≤ after.upper.frames.size
  projection : before.projection.Extends before.upper.frames.size after.projection
  enclosing : ∀ frame < before.upper.frames.size,
    after.upper.frames.enclosing? frame = before.upper.frames.enclosing? frame
  binds : ∀ frame name, (before.upper.frames.binding? frame name).isSome →
    (after.upper.frames.binding? frame name).isSome
  closures : before.upper.closures.size ≤ after.upper.closures.size
  closure : ∀ id < before.upper.closures.size,
    after.upper.closure id = before.upper.closure id ∧
      after.lower.closure id = before.lower.closure id

variable {table other : Resolution}

/-- Only a function among the values has a copy. -/
theorem isValid_of_ne {overlay : Overlay} {value : Value} (plain : ∀ id, value ≠ .function id) :
    overlay.IsValid table other value :=
  fun id function => absurd function (plain id)

theorem isValid_function {overlay : Overlay} {id : ClosureId}
    (callable : overlay.IsCallable table other id) :
    overlay.IsValid table other (.function id) := by
  rintro _ ⟨⟩
  exact callable

namespace Grows

variable {before middle after : Overlay}

theorem refl (overlay : Overlay) : Grows overlay overlay :=
  ⟨Nat.le_refl _, .refl _ _, fun _ _ => rfl, fun _ _ found => found, Nat.le_refl _,
    fun _ _ => ⟨rfl, rfl⟩⟩

theorem trans (first : Grows before middle) (second : Grows middle after) :
    Grows before after where
  frames := Nat.le_trans first.frames second.frames
  projection := first.projection.trans second.projection first.frames
  enclosing frame bound :=
    (second.enclosing frame (Nat.lt_of_lt_of_le bound first.frames)).trans
      (first.enclosing frame bound)
  binds frame name found := second.binds frame name (first.binds frame name found)
  closures := Nat.le_trans first.closures second.closures
  closure id bound := by
    have later := second.closure id (Nat.lt_of_lt_of_le bound first.closures)
    rw [later.1, later.2]
    exact first.closure id bound

theorem hides {gap : Option Nat} {frame : FrameId} (grows : Grows before after)
    (hides : Hides before.projection before.upper.frames gap frame) :
    Hides after.projection after.upper.frames gap frame :=
  hides.extend grows.projection grows.frames grows.enclosing

theorem holds {added : List Region} {id : ClosureId} (grows : Grows before after)
    (held : before.Holds table other added id) : after.Holds table other added id := by
  obtain ⟨bound, passage, around, reaches, hides, copied, links⟩ := held
  obtain ⟨upper, lower⟩ := grows.closure id bound
  refine ⟨Nat.lt_of_lt_of_le bound grows.closures, passage, around, reaches, ?_, ?_, ?_⟩
  · rw [upper]
    exact grows.hides hides
  · rw [upper, lower, grows.projection.image _ hides.lt_size]
    exact copied
  · rw [upper]
    exact links

theorem isMethod {id : ClosureId} (grows : Grows before after)
    (method : before.IsMethod table other id) : after.IsMethod table other id := by
  obtain ⟨inherits, held⟩ := method
  exact ⟨inherits, grows.holds held⟩

theorem isValid {value : Value} (grows : Grows before after)
    (valid : before.IsValid table other value) : after.IsValid table other value :=
  fun id function => grows.holds (valid id function)

end Grows

namespace Corresponds

variable {overlay : Overlay}

/-- What the heaps after an update have to show. -/
theorem grow {after : Overlay} (same : overlay.Corresponds table other)
    (grows : Grows overlay after)
    (frames : after.projection.Relates after.upper.frames after.lower.frames)
    (closures : after.lower.closures.size = after.upper.closures.size)
    (classes : after.lower.classes = after.upper.classes)
    (objects : after.lower.objects = after.upper.objects)
    (bound : ∀ frame name value, after.upper.frames.binding? frame name = some value →
      overlay.upper.frames.binding? frame name = some value ∨ after.IsValid table other value)
    (fields : ∀ place name value, (after.upper.object place).fields.get? name = some value →
      (overlay.upper.object place).fields.get? name = some value ∨
        after.IsValid table other value)
    (methods : ∀ type name id, (after.upper.classOf type).methods.get? name = some id →
      (overlay.upper.classOf type).methods.get? name = some id ∨
        after.IsMethod table other id) :
    after.Corresponds table other where
  frames := frames
  rooted := Nat.lt_of_lt_of_le same.rooted grows.frames
  plain := fun hidden => same.plain ((grows.projection.hidden _ same.rooted).mp hidden)
  global := (grows.projection.image _ same.rooted).trans same.global
  closures := closures
  classes := classes
  objects := objects
  bound frame name value found := by
    rcases bound frame name value found with old | valid
    · exact grows.isValid (same.bound frame name value old)
    · exact valid
  fields place name value found := by
    rcases fields place name value found with old | valid
    · exact grows.isValid (same.fields place name value old)
    · exact valid
  methods type name id found := by
    rcases methods type name id found with old | method
    · exact grows.isMethod (same.methods type name id old)
    · exact method

/-- Both heaps have the same methods. -/
theorem findMethod? (same : overlay.Corresponds table other) (type : ClassId) (name : Bytes) :
    overlay.lower.findMethod? type name = overlay.upper.findMethod? type name :=
  Heap.findMethod?_congr same.classes type name

theorem isMethod_of_findMethod? (same : overlay.Corresponds table other) {type : ClassId}
    {name : Bytes} {method : ClosureId}
    (found : overlay.upper.findMethod? type name = some method) :
    overlay.IsMethod table other method := by
  obtain ⟨candidate, held⟩ := Heap.exists_of_findMethod? found
  exact same.methods candidate name method held

end Corresponds

/-- A copy has the name and the parameters of the function. -/
theorem Holds.declaration {overlay : Overlay} {added : List Region} {id : ClosureId}
    (held : overlay.Holds table other added id) :
    (overlay.lower.closure id).declaration.name = (overlay.upper.closure id).declaration.name ∧
      (overlay.lower.closure id).declaration.parameters =
        (overlay.upper.closure id).declaration.parameters := by
  obtain ⟨-, passage, around, -, -, copied, -⟩ := held
  rw [copied]
  cases (overlay.upper.closure id).declaration with
  | mk name parameters body =>
      exact ⟨rfl, List.map_id parameters⟩

namespace Corresponds

variable {overlay : Overlay}

/-- A value is shown alike. -/
theorem display (same : overlay.Corresponds table other) {value : Value}
    (valid : overlay.IsValid table other value) :
    overlay.lower.display value = overlay.upper.display value :=
  Heap.display_congr same.classes same.objects fun id function => by
    rw [(valid id function).declaration.1]

/-- A value takes as many arguments. -/
theorem arity? (same : overlay.Corresponds table other) {value : Value}
    (valid : overlay.IsValid table other value) :
    overlay.lower.arity? value = overlay.upper.arity? value := by
  apply Heap.arity?_congr same.classes
  · intro id function
    rw [(valid id function).declaration.2]
  · intro type name id found
    obtain ⟨inherits, held⟩ := same.isMethod_of_findMethod? found
    rw [held.declaration.2]

end Corresponds

/-- A frame made in both heaps. -/
def addFrame (overlay : Overlay) (outer : FrameId) (bindings : Bindings Value) : Overlay where
  projection := overlay.projection.addFrame overlay.upper.frames.size overlay.lower.frames.size
  upper := overlay.upper.addFrame ⟨some outer, bindings⟩
  lower := overlay.lower.addFrame ⟨some (overlay.projection.image outer), bindings⟩

/-- A hidden frame. -/
def hideFrame (overlay : Overlay) (outer : FrameId) : Overlay where
  projection := overlay.projection.hideFrame overlay.upper.frames.size outer
  upper := overlay.upper.addFrame ⟨some outer, []⟩
  lower := overlay.lower

/-- A name bound in both heaps. -/
def bindName (overlay : Overlay) (frame : FrameId) (name : Bytes) (value : Value) : Overlay where
  projection := overlay.projection
  upper := overlay.upper.bindName frame name value
  lower := overlay.lower.bindName (overlay.projection.image frame) name value

def addClosure (overlay : Overlay) (made image : Closure) : Overlay :=
  ⟨overlay.projection, overlay.upper.addClosure made, overlay.lower.addClosure image⟩

def addClass (overlay : Overlay) (made : Class) : Overlay :=
  ⟨overlay.projection, overlay.upper.addClass made, overlay.lower.addClass made⟩

def addObject (overlay : Overlay) (made : Object) : Overlay :=
  ⟨overlay.projection, overlay.upper.addObject made, overlay.lower.addObject made⟩

def bindField (overlay : Overlay) (id : ObjectId) (name : Bytes) (value : Value) : Overlay :=
  ⟨overlay.projection, overlay.upper.bindField id name value,
    overlay.lower.bindField id name value⟩

namespace Corresponds

variable {overlay : Overlay}

/-- More frames leave everything else as it is. -/
theorem grows_push {after : Overlay} {made : Frame}
    (projection : overlay.projection.Extends overlay.upper.frames.size after.projection)
    (upper : after.upper = overlay.upper.addFrame made)
    (closures : after.lower.closures = overlay.lower.closures) : Grows overlay after where
  frames := by simp [upper, Heap.addFrame]
  projection := projection
  enclosing frame bound := by
    rw [upper]
    exact (Frames.enclosing?_push ..).trans (if_neg (Nat.ne_of_lt bound))
  binds frame name found := by
    rw [upper]
    simp only [Heap.addFrame, Frames.binding?_push]
    rw [if_neg (Nat.ne_of_lt (Frames.lt_size_of_binding? found))]
    exact found
  closures := by simp [upper, Heap.addFrame]
  closure id _ := by
    rw [upper]
    exact ⟨rfl, by simp only [Heap.closure, closures]⟩

theorem grows_addFrame (overlay : Overlay) (outer : FrameId) (bindings : Bindings Value) :
    Grows overlay (overlay.addFrame outer bindings) :=
  grows_push (overlay.projection.extends_addFrame _ _) rfl rfl

theorem grows_hideFrame (overlay : Overlay) (outer : FrameId) :
    Grows overlay (overlay.hideFrame outer) :=
  grows_push (overlay.projection.extends_hideFrame _ _) rfl rfl

theorem addFrame (same : overlay.Corresponds table other) {outer : FrameId}
    {bindings : Bindings Value} (within : outer < overlay.upper.frames.size)
    (valid : ∀ name value, bindings.get? name = some value →
      overlay.IsValid table other value) :
    (overlay.addFrame outer bindings).Corresponds table other := by
  have grows := grows_addFrame overlay outer bindings
  refine same.grow grows (same.frames.addFrame within bindings) same.closures same.classes
    same.objects ?_ (fun _ _ _ => .inl) (fun _ _ _ => .inl)
  intro frame name value found
  simp only [Overlay.addFrame, Heap.addFrame, Frames.binding?_push] at found
  split at found
  · exact .inr (grows.isValid (valid name value found))
  · exact .inl found

theorem hideFrame (same : overlay.Corresponds table other) {outer : FrameId}
    (within : outer < overlay.upper.frames.size) :
    (overlay.hideFrame outer).Corresponds table other := by
  refine same.grow (grows_hideFrame overlay outer) (same.frames.hideFrame within) same.closures
    same.classes same.objects ?_ (fun _ _ _ => .inl) (fun _ _ _ => .inl)
  intro frame name value found
  simp only [Overlay.hideFrame, Heap.addFrame, Frames.binding?_push] at found
  split at found
  · cases found
  · exact .inl found

/-- A new frame stands one further in than the frame around it. -/
theorem hides_addFrame (same : overlay.Corresponds table other) {outer : FrameId}
    {gap : Option Nat} (bindings : Bindings Value)
    (hides : Hides overlay.projection overlay.upper.frames gap outer) :
    Hides (overlay.addFrame outer bindings).projection
      (overlay.addFrame outer bindings).upper.frames (gap.map (· + 1))
      overlay.upper.frames.size := by
  refine .outward ?_ ((Frames.enclosing?_push ..).trans (if_pos rfl))
    ((grows_addFrame overlay outer bindings).hides hides)
  exact fun hidden => Nat.lt_irrefl _ (same.frames.fresh _ hidden)

theorem hides_hideFrame {outer : FrameId}
    (hides : Hides overlay.projection overlay.upper.frames none outer) :
    Hides (overlay.hideFrame outer).projection (overlay.hideFrame outer).upper.frames (some 0)
      overlay.upper.frames.size :=
  .here (.inl rfl) ((Frames.enclosing?_push ..).trans (if_pos rfl))
    ((grows_hideFrame overlay outer).hides hides)

theorem grows_bindName (overlay : Overlay) (frame : FrameId) (name : Bytes) (value : Value) :
    Grows overlay (overlay.bindName frame name value) where
  frames := by simp [Overlay.bindName, Heap.bindName]
  projection := .refl _ _
  enclosing _ _ := Frames.enclosing?_define ..
  binds _ _ found := Frames.binding?_define_isSome value found
  closures := Nat.le_refl _
  closure _ _ := ⟨rfl, rfl⟩

theorem bindName (same : overlay.Corresponds table other) {frame : FrameId} (name : Bytes)
    {value : Value} (within : frame < overlay.upper.frames.size)
    (plain : ¬ overlay.projection.hidden frame) (valid : overlay.IsValid table other value) :
    (overlay.bindName frame name value).Corresponds table other := by
  have grows := grows_bindName overlay frame name value
  refine same.grow grows (same.frames.define within plain name value) same.closures same.classes
    same.objects ?_ (fun _ _ _ => .inl) (fun _ _ _ => .inl)
  intro held text found reached
  rcases Frames.binding?_define_inv reached with old | ⟨-, -, rfl⟩
  · exact .inl old
  · exact .inr (grows.isValid valid)

theorem grows_addClosure (same : overlay.Corresponds table other) (made image : Closure) :
    Grows overlay (overlay.addClosure made image) where
  frames := Nat.le_refl _
  projection := .refl _ _
  enclosing _ _ := rfl
  binds _ _ found := found
  closures := Nat.le_of_lt (Heap.lt_size_addClosure overlay.upper made)
  closure id bound := ⟨Heap.closure_addClosure_of_lt made bound,
    Heap.closure_addClosure_of_lt image (by rw [same.closures]; exact bound)⟩

theorem addClosure (same : overlay.Corresponds table other) (made image : Closure) :
    (overlay.addClosure made image).Corresponds table other := by
  refine same.grow (same.grows_addClosure made image) same.frames ?_ same.classes same.objects
    (fun _ _ _ => .inl) (fun _ _ _ => .inl) (fun _ _ _ => .inl)
  simp [Overlay.addClosure, Heap.addClosure, same.closures]

/-- A function made in both heaps. -/
theorem holds_addClosure (same : overlay.Corresponds table other) {added around : List Region}
    {passage : Passage} {frame : FrameId} {declaration : Function} (initializer : Bool)
    (reaches : passage.Reaches around)
    (hides : Hides overlay.projection overlay.upper.frames (passage.gap around) frame)
    (links : ∀ site ∈ declaration.sites (added ++ around), passage.Links table other site) :
    (overlay.addClosure ⟨declaration, frame, initializer⟩
      ⟨declaration.relabel (.renumber passage.ids), overlay.projection.image frame,
        initializer⟩).Holds table other added overlay.upper.closures.size := by
  generalize stands : (⟨declaration.relabel (.renumber passage.ids),
    overlay.projection.image frame, initializer⟩ : Closure) = image
  have upper : (overlay.addClosure ⟨declaration, frame, initializer⟩ image).upper.closure
      overlay.upper.closures.size = ⟨declaration, frame, initializer⟩ :=
    Heap.closure_addClosure_size ..
  have lower : (overlay.addClosure ⟨declaration, frame, initializer⟩ image).lower.closure
      overlay.upper.closures.size = image := by
    rw [← same.closures]
    exact Heap.closure_addClosure_size ..
  refine ⟨Heap.lt_size_addClosure overlay.upper _, passage, around, reaches, ?_, ?_, ?_⟩
  · rw [upper]
    exact hides
  · rw [upper, lower]
    exact stands.symm
  · rw [upper]
    exact links

theorem grows_of_frames_closures {after : Overlay}
    (projection : after.projection = overlay.projection)
    (frames : after.upper.frames = overlay.upper.frames)
    (closures : after.upper.closures = overlay.upper.closures)
    (others : after.lower.closures = overlay.lower.closures) : Grows overlay after where
  frames := Nat.le_of_eq (by rw [frames])
  projection := by
    rw [projection]
    exact .refl _ _
  enclosing _ _ := by rw [frames]
  binds _ _ found := by rw [frames]; exact found
  closures := Nat.le_of_eq (by rw [closures])
  closure _ _ := by simp only [Heap.closure, closures, others, and_self]

theorem addClass (same : overlay.Corresponds table other) {made : Class}
    (methods : ∀ name id, made.methods.get? name = some id →
      overlay.IsMethod table other id) :
    (overlay.addClass made).Corresponds table other := by
  have grows : Grows overlay (overlay.addClass made) := grows_of_frames_closures rfl rfl rfl rfl
  refine same.grow grows same.frames same.closures ?_ same.objects (fun _ _ _ => .inl)
    (fun _ _ _ => .inl) ?_
  · simp [Overlay.addClass, Heap.addClass, same.classes]
  · intro type name id found
    rcases Heap.methods_addClass_inv found with old | new
    · exact .inl old
    · exact .inr (grows.isMethod (methods name id new))

theorem addObject (same : overlay.Corresponds table other) (type : ClassId) :
    (overlay.addObject ⟨type, []⟩).Corresponds table other := by
  have grows : Grows overlay (overlay.addObject ⟨type, []⟩) :=
    grows_of_frames_closures rfl rfl rfl rfl
  refine same.grow grows same.frames same.closures same.classes ?_ (fun _ _ _ => .inl) ?_
    (fun _ _ _ => .inl)
  · simp [Overlay.addObject, Heap.addObject, same.objects]
  · intro place name value found
    rcases Heap.fields_addObject_inv found with old | new
    · exact .inl old
    · simp [Bindings.get?] at new

theorem bindField (same : overlay.Corresponds table other) (id : ObjectId) (name : Bytes)
    {value : Value} (valid : overlay.IsValid table other value) :
    (overlay.bindField id name value).Corresponds table other := by
  have grows : Grows overlay (overlay.bindField id name value) :=
    grows_of_frames_closures rfl rfl rfl rfl
  refine same.grow grows same.frames same.closures same.classes ?_ (fun _ _ _ => .inl) ?_
    (fun _ _ _ => .inl)
  · simp [Overlay.bindField, Heap.bindField, same.objects]
  · intro place field held found
    rcases Heap.fields_bindField_inv found with old | rfl
    · exact .inl old
    · exact .inr (grows.isValid valid)

end Corresponds

end Overlay

end LoxLang
