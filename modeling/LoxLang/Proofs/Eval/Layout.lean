import LoxLang.Eval.Basic
import LoxLang.Proofs.Heap.Grounded
import LoxLang.Proofs.Heap.Reads
import LoxLang.Proofs.Scope.Sound

/-!
The shape of a heap under resolved code.  A layout tells for every frame which
names its scope declares, as a store typing does for cells.  Frames keep to
their layout, chains of frames fit the scopes of the code that runs in them, and
everything that can be called carries a body that was accepted for its scopes.
-/

namespace LoxLang

open Scope

/-- The names that the scope of each frame declares. -/
abbrev Layout := FrameId → List Bytes

/-- What is known about the code of a session before it runs: the recorded
distances, a bound on the identities of its references, and whether variables
can be searched for as well. -/
structure Code where
  table : Resolution
  limit : RefId
  searchable : Prop

namespace Code

/-- A reference can be evaluated where it stands. -/
structure AcceptsSite (code : Code) (site : Site) : Prop where
  below : site.reference.id < code.limit
  sound : site.IsSound code.table
  searched : code.searchable → site.reference.IsVariable → site.IsSearchable code.table

/-- A function can be run inside these scopes. -/
structure AcceptsFunction (code : Code) (around : List Region) (declaration : Function) :
    Prop where
  regular : declaration.IsRegular
  sites : ∀ site ∈ declaration.sites around, code.AcceptsSite site

end Code

/-- The chain of frames from one outward fits a list of scopes: it is as long,
each frame is laid out for its scope, and it binds what the scope is certain to
bind. -/
def Fits (layout : Layout) (frames : Frames) : FrameId → List Region → Prop
  | frame, [] => frame = Heap.globals
  | frame, region :: around =>
      ∃ outer, frames.enclosing? frame = some outer ∧ layout frame = region.all ∧
        (∀ name ∈ region.complete, (frames.binding? frame name).isSome) ∧
          Fits layout frames outer around

/-- A function value: its body is accepted for the scopes that its frame fits,
and an initializer has its instance at hand. -/
def IsCallable (code : Code) (layout : Layout) (heap : Heap) (id : ClosureId) : Prop :=
  id < heap.closures.size ∧
    ((heap.closure id).isInitializer = true →
      (heap.frames.binding? (heap.closure id).frame (thisName 0).text).isSome) ∧
    ∃ around, Fits layout heap.frames (heap.closure id).frame around ∧
      code.AcceptsFunction around (heap.closure id).declaration

/-- A method of a class: its body is accepted for the scopes that its frame fits
with a receiver inside them. -/
def IsMethod (code : Code) (layout : Layout) (heap : Heap) (id : ClosureId) : Prop :=
  id < heap.closures.size ∧
    ∃ inherits around, Fits layout heap.frames (heap.closure id).frame around ∧
      code.AcceptsFunction (.receiver inherits :: around) (heap.closure id).declaration

/-- A function among the values can be called, and a class exists. -/
structure IsValid (code : Code) (layout : Layout) (heap : Heap) (value : Value) : Prop where
  callable : ∀ id, value = .function id → IsCallable code layout heap id
  class_lt : ∀ type, value = .classRef type → type < heap.classes.size

/-- A value that is neither a function nor a class. -/
structure Value.IsPlain (value : Value) : Prop where
  function : ∀ id, value ≠ .function id
  isClass : ∀ type, value ≠ .classRef type

theorem Value.IsPlain.isValid {code : Code} {layout : Layout} {heap : Heap} {value : Value}
    (plain : value.IsPlain) : IsValid code layout heap value :=
  ⟨fun id isFunction => absurd isFunction (plain.function id),
    fun type isClass => absurd isClass (plain.isClass type)⟩

/-- A scope that declares a receiver or a superclass declares nothing else. -/
structure IsSeparate (names : List Bytes) : Prop where
  receiver : (thisName 0).text ∈ names → names = [(thisName 0).text]
  superclass : (superName 0).text ∈ names → names = [(superName 0).text]

theorem IsSeparate.ofOrdinary {names : List Bytes} (ordinary : ∀ name ∈ names, IsOrdinary name) :
    IsSeparate names :=
  ⟨fun member => absurd rfl (ordinary _ member).1, fun member => absurd rfl (ordinary _ member).2⟩

theorem IsSeparate.single (name : Bytes) : IsSeparate [name] :=
  ⟨fun member => by rw [List.mem_singleton.mp member],
    fun member => by rw [List.mem_singleton.mp member]⟩

/-- A heap keeps to a layout. -/
structure Conforms (code : Code) (layout : Layout) (heap : Heap) : Prop
    extends heap.IsGrounded where
  separate : ∀ frame < heap.frames.size, frame ≠ Heap.globals → IsSeparate (layout frame)
  names : ∀ frame name, frame ≠ Heap.globals → (heap.frames.binding? frame name).isSome →
    name ∈ layout frame
  globals : ∀ name, (heap.frames.binding? Heap.globals name).isSome → IsOrdinary name
  receiver : ∀ frame value, heap.frames.binding? frame (thisName 0).text = some value →
    ∃ place, value = .object place
  superclass : ∀ frame value, heap.frames.binding? frame (superName 0).text = some value →
    ∃ type, value = .classRef type
  bound : ∀ frame name value, heap.frames.binding? frame name = some value →
    IsValid code layout heap value
  fields : ∀ place name value, (heap.object place).fields.get? name = some value →
    IsValid code layout heap value
  methods : ∀ type name id, (heap.classOf type).methods.get? name = some id →
    IsMethod code layout heap id

/-- A later heap: frames and functions keep their places, and frames lose no
name. -/
structure Grows (layout : Layout) (heap : Heap) (layout' : Layout) (heap' : Heap) : Prop where
  layout : ∀ frame < heap.frames.size, layout' frame = layout frame
  enclosing : ∀ frame < heap.frames.size,
    heap'.frames.enclosing? frame = heap.frames.enclosing? frame
  binds : ∀ frame name, (heap.frames.binding? frame name).isSome →
    (heap'.frames.binding? frame name).isSome
  frames : heap.frames.size ≤ heap'.frames.size
  closures : heap.closures.size ≤ heap'.closures.size
  closure : ∀ id < heap.closures.size, heap'.closure id = heap.closure id
  classes : heap.classes.size ≤ heap'.classes.size

namespace Grows

variable {layout middle layout' : Layout} {heap between heap' : Heap}

theorem refl (layout : Layout) (heap : Heap) : Grows layout heap layout heap :=
  ⟨fun _ _ => rfl, fun _ _ => rfl, fun _ _ found => found, Nat.le_refl _, Nat.le_refl _,
    fun _ _ => rfl, Nat.le_refl _⟩

theorem trans (first : Grows layout heap middle between)
    (second : Grows middle between layout' heap') : Grows layout heap layout' heap' where
  layout frame bound := by
    rw [second.layout frame (Nat.lt_of_lt_of_le bound first.frames), first.layout frame bound]
  enclosing frame bound := by
    rw [second.enclosing frame (Nat.lt_of_lt_of_le bound first.frames),
      first.enclosing frame bound]
  binds frame name found := second.binds frame name (first.binds frame name found)
  frames := Nat.le_trans first.frames second.frames
  closures := Nat.le_trans first.closures second.closures
  closure id bound := by
    rw [second.closure id (Nat.lt_of_lt_of_le bound first.closures), first.closure id bound]
  classes := Nat.le_trans first.classes second.classes

theorem fits (grows : Grows layout heap layout' heap') :
    ∀ {around : List Region} {frame : FrameId}, Fits layout heap.frames frame around →
      Fits layout' heap'.frames frame around
  | [], _, fits => fits
  | _ :: _, frame, ⟨outer, encloses, laid, binds, rest⟩ => by
      have bound := Frames.lt_size_of_enclosing? encloses
      refine ⟨outer, ?_, ?_, ?_, grows.fits rest⟩
      · rw [grows.enclosing frame bound]
        exact encloses
      · rw [grows.layout frame bound]
        exact laid
      · exact fun name complete => grows.binds frame name (binds name complete)

theorem isCallable {code : Code} {id : ClosureId} (grows : Grows layout heap layout' heap')
    (callable : IsCallable code layout heap id) : IsCallable code layout' heap' id := by
  obtain ⟨bound, initializer, around, fits, accepted⟩ := callable
  refine ⟨Nat.lt_of_lt_of_le bound grows.closures, ?_, around, ?_, ?_⟩
  · rw [grows.closure id bound]
    exact fun isInitializer => grows.binds _ _ (initializer isInitializer)
  · rw [grows.closure id bound]
    exact grows.fits fits
  · rw [grows.closure id bound]
    exact accepted

theorem isMethod {code : Code} {id : ClosureId} (grows : Grows layout heap layout' heap')
    (method : IsMethod code layout heap id) : IsMethod code layout' heap' id := by
  obtain ⟨bound, inherits, around, fits, accepted⟩ := method
  refine ⟨Nat.lt_of_lt_of_le bound grows.closures, inherits, around, ?_, ?_⟩
  · rw [grows.closure id bound]
    exact grows.fits fits
  · rw [grows.closure id bound]
    exact accepted

theorem isValid {code : Code} {value : Value} (grows : Grows layout heap layout' heap')
    (valid : IsValid code layout heap value) : IsValid code layout' heap' value where
  callable id function := grows.isCallable (valid.callable id function)
  class_lt type isClass := Nat.lt_of_lt_of_le (valid.class_lt type isClass) grows.classes

end Grows

/-- A frame at some distance in a chain, as the scope there describes it. -/
structure Serves (layout : Layout) (frames : Frames) (region : Region) (holder : FrameId) :
    Prop where
  enclosed : ∃ outer, frames.enclosing? holder = some outer
  laid : layout holder = region.all
  binds : ∀ name ∈ region.complete, (frames.binding? holder name).isSome

namespace Fits

variable {layout : Layout} {frames : Frames}

theorem ancestorFrom (distance : Int) :
    ∀ {around : List Region} {frame : FrameId} {region : Region} (left walked : Nat),
      Fits layout frames frame around → around[left]? = some region →
        ∃ holder, frames.ancestorFrom distance left walked frame = .ok holder ∧
          Serves layout frames region holder
  | [], _, _, _, _, _, found => by simp at found
  | head :: _, frame, region, 0, _, ⟨outer, encloses, laid, binds, _⟩, found => by
      simp only [List.getElem?_cons_zero, Option.some.injEq] at found
      subst found
      exact ⟨frame, rfl, ⟨outer, encloses⟩, laid, binds⟩
  | _ :: _, frame, region, left + 1, walked, ⟨outer, encloses, _, _, rest⟩, found => by
      unfold Frames.ancestorFrom
      simp only [encloses]
      exact ancestorFrom distance left (walked + 1) rest (by simpa using found)

/-- Walking as far out as a scope stands arrives at a frame of that scope. -/
theorem ancestor {around : List Region} {frame : FrameId} {region : Region} {distance : Nat}
    (fits : Fits layout frames frame around) (found : around[distance]? = some region) :
    ∃ holder, frames.ancestor frame distance = .ok holder ∧
      Serves layout frames region holder := by
  unfold Frames.ancestor
  rw [Int.toNat_natCast]
  exact fits.ancestorFrom distance distance 0 found

/-- A name that the scope at a distance is certain to bind is found there. -/
theorem getAt {around : List Region} {frame : FrameId} {distance : Nat} {name : Bytes}
    (fits : Fits layout frames frame around) (binds : BindsAt around distance name) :
    ∃ holder value, frames.ancestor frame distance = .ok holder ∧
      frames.binding? holder name = some value ∧
        frames.getAt frame distance name = .ok value := by
  obtain ⟨region, found, complete⟩ := binds
  obtain ⟨holder, walked, serves⟩ := fits.ancestor found
  obtain ⟨value, reached⟩ := Option.isSome_iff_exists.mp (serves.binds name complete)
  refine ⟨holder, value, walked, reached, ?_⟩
  simp [Frames.getAt, walked, reached, bind, Except.bind]

end Fits

namespace Conforms

variable {code : Code} {layout : Layout} {heap : Heap}

/-- A frame of a scope that never declares a name does not bind it. -/
theorem binding?_eq_none (conforms : Conforms code layout heap) {frame outer : FrameId}
    {name : Bytes} (encloses : heap.frames.enclosing? frame = some outer)
    (absent : name ∉ layout frame) : heap.frames.binding? frame name = none := by
  rw [← Option.not_isSome_iff_eq_none]
  intro found
  have inside : frame ≠ Heap.globals := by
    rintro rfl
    exact absurd (conforms.ordered _ _ encloses) (Nat.not_lt_zero outer)
  exact absent (conforms.names frame name inside found)

/-- A search for a name that nearer scopes never declare arrives where the
recorded distance leads. -/
theorem search (conforms : Conforms code layout heap) {name : Bytes} {holder : FrameId}
    {value : Value} (bound : heap.frames.binding? holder name = some value) (distance : Int) :
    ∀ {around : List Region} {frame : FrameId} (left walked : Nat),
      Fits layout heap.frames frame around →
      heap.frames.ancestorFrom distance left walked frame = .ok holder →
      (∀ nearer < left, ∀ region, around[nearer]? = some region → name ∉ region.all) →
      left < around.length →
        heap.frames.get frame name = .ok value ∧ heap.frames.holder? frame name = some holder
  | [], _, _, _, _, _, _, room => absurd room (Nat.not_lt_zero _)
  | _ :: _, frame, 0, _, _, walked, _, _ => by
      simp only [Frames.ancestorFrom, Except.ok.injEq] at walked
      subst walked
      exact ⟨Frames.get_of_binding? bound, Frames.holder?_of_binding? (by rw [bound]; rfl)⟩
  | region :: around, frame, left + 1, walked, ⟨outer, encloses, laid, _, rest⟩, arrived,
      nearest, room => by
      have absent : heap.frames.binding? frame name = none := by
        apply conforms.binding?_eq_none encloses
        rw [laid]
        exact nearest 0 (Nat.succ_pos left) region rfl
      unfold Frames.ancestorFrom at arrived
      simp only [encloses] at arrived
      rw [conforms.ordered.get_of_enclosing? encloses absent,
        conforms.ordered.holder?_of_enclosing? encloses absent]
      apply conforms.search bound distance left (walked + 1) rest arrived
      · intro nearer closer other found
        exact nearest (nearer + 1) (Nat.succ_lt_succ closer) other (by simpa using found)
      · simpa using room

/-- A search for a name that no scope around declares goes on at the globals. -/
theorem search_globals (conforms : Conforms code layout heap) {name : Bytes} :
    ∀ {around : List Region} {frame : FrameId}, Fits layout heap.frames frame around →
      (∀ region ∈ around, name ∉ region.all) →
        heap.frames.get frame name = heap.frames.get Heap.globals name ∧
          heap.frames.holder? frame name = heap.frames.holder? Heap.globals name
  | [], frame, fits, _ => by
      obtain rfl : frame = Heap.globals := fits
      exact ⟨rfl, rfl⟩
  | region :: around, frame, ⟨outer, encloses, laid, _, rest⟩, absent => by
      have unbound : heap.frames.binding? frame name = none := by
        apply conforms.binding?_eq_none encloses
        rw [laid]
        exact absent region List.mem_cons_self
      rw [conforms.ordered.get_of_enclosing? encloses unbound,
        conforms.ordered.holder?_of_enclosing? encloses unbound]
      exact conforms.search_globals rest fun other member =>
        absent other (List.mem_cons_of_mem _ member)

end Conforms

end LoxLang
