import LoxLang.Heap.Frames

/-!
How the frames change and how they are searched.  A frame is found where it was
put, a definition changes one binding, and a search outward from a frame goes on
from its enclosing frame exactly when the frame itself lacks the name.
-/

namespace LoxLang

namespace Frames

theorem lt_size_of_enclosing? {frames : Frames} {frame outer : FrameId}
    (found : frames.enclosing? frame = some outer) : frame < frames.size := by
  unfold enclosing? at found
  cases held : frames[frame]? with
  | none => simp [held] at found
  | some _ => exact (Array.getElem?_eq_some_iff.mp held).1

theorem lt_size_of_binding? {frames : Frames} {frame : FrameId} {name : Bytes}
    (found : (frames.binding? frame name).isSome) : frame < frames.size := by
  unfold binding? at found
  cases held : frames[frame]? with
  | none => simp [held] at found
  | some _ => exact (Array.getElem?_eq_some_iff.mp held).1

theorem enclosing?_push (frames : Frames) (made : Frame) (frame : FrameId) :
    enclosing? (Array.push frames made) frame =
      if frame = frames.size then made.enclosing else frames.enclosing? frame := by
  unfold enclosing?
  rw [Array.getElem?_push]
  split <;> rfl

theorem binding?_push (frames : Frames) (made : Frame) (frame : FrameId) (name : Bytes) :
    binding? (Array.push frames made) frame name =
      if frame = frames.size then made.bindings.get? name else frames.binding? frame name := by
  unfold binding?
  rw [Array.getElem?_push]
  split <;> rfl

@[simp]
theorem size_define (frames : Frames) (frame : FrameId) (name : Bytes) (value : Value) :
    Array.size (frames.define frame name value) = Array.size frames :=
  Array.size_modify

@[simp]
theorem enclosing?_define (frames : Frames) (frame : FrameId) (name : Bytes) (value : Value)
    (other : FrameId) :
    (frames.define frame name value).enclosing? other = frames.enclosing? other := by
  unfold enclosing? define
  rw [Array.getElem?_modify]
  split
  · cases frames[other]? <;> rfl
  · rfl

theorem binding?_define_self {frames : Frames} {frame : FrameId} (name : Bytes) (value : Value)
    (bound : frame < frames.size) :
    (frames.define frame name value).binding? frame name = some value := by
  unfold binding? define
  rw [Array.getElem?_modify, if_pos rfl, Array.getElem?_eq_getElem bound]
  simp

theorem binding?_define_of_ne (frames : Frames) {frame other : FrameId} {name text : Bytes}
    (value : Value) (apart : ¬ (other = frame ∧ text = name)) :
    (frames.define frame name value).binding? other text = frames.binding? other text := by
  unfold binding? define
  rw [Array.getElem?_modify]
  split
  · next same =>
      have differs : text ≠ name := fun equal => apart ⟨same.symm, equal⟩
      cases frames[other]? with
      | none => rfl
      | some held => simp [Bindings.get?_insert_of_ne _ _ differs]
  · rfl

/-- What is found after a definition was found before or is the new value. -/
theorem binding?_define_inv {frames : Frames} {frame other : FrameId} {name text : Bytes}
    {value found : Value}
    (reached : (frames.define frame name value).binding? other text = some found) :
    frames.binding? other text = some found ∨
      (other = frame ∧ text = name ∧ found = value) := by
  by_cases same : other = frame ∧ text = name
  · obtain ⟨rfl, rfl⟩ := same
    have present : ((frames.define other text value).binding? other text).isSome := by
      rw [reached]
      rfl
    have bound : other < frames.size := by simpa using lt_size_of_binding? present
    rw [binding?_define_self _ _ bound] at reached
    exact .inr ⟨rfl, rfl, (Option.some.inj reached).symm⟩
  · rw [binding?_define_of_ne frames value same] at reached
    exact .inl reached

theorem binding?_define_isSome {frames : Frames} {frame other : FrameId} {name text : Bytes}
    (value : Value) (found : (frames.binding? other text).isSome) :
    ((frames.define frame name value).binding? other text).isSome := by
  by_cases same : other = frame ∧ text = name
  · obtain ⟨rfl, rfl⟩ := same
    rw [binding?_define_self _ _ (lt_size_of_binding? found)]
    rfl
  · rw [binding?_define_of_ne frames value same]
    exact found

/-- Every frame is enclosed by one that was made before it. -/
def IsOrdered (frames : Frames) : Prop :=
  ∀ frame outer, frames.enclosing? frame = some outer → outer < frame

/-- A walk outward that has room for every older frame sees the whole chain. -/
theorem IsOrdered.chainWithin_eq {frames : Frames} (ordered : frames.IsOrdered) :
    ∀ {bound other : Nat} {frame : FrameId}, frame < bound → frame < other →
      frames.chainWithin bound frame = frames.chainWithin other frame
  | 0, _, _, room, _ => absurd room (Nat.not_lt_zero _)
  | _, 0, _, _, room => absurd room (Nat.not_lt_zero _)
  | bound + 1, other + 1, frame, room, otherRoom => by
      unfold chainWithin
      cases found : frames.enclosing? frame with
      | none => rfl
      | some outer =>
          have older := ordered frame outer found
          exact congrArg (frame :: ·) (ordered.chainWithin_eq
            (Nat.lt_of_lt_of_le older (Nat.le_of_lt_succ room))
            (Nat.lt_of_lt_of_le older (Nat.le_of_lt_succ otherRoom)))

theorem IsOrdered.chain_of_enclosing? {frames : Frames} (ordered : frames.IsOrdered)
    {frame outer : FrameId} (found : frames.enclosing? frame = some outer) :
    frames.chain frame = frame :: frames.chain outer := by
  have older := ordered frame outer found
  unfold chain
  rw [chainWithin]
  simp only [found]
  rw [ordered.chainWithin_eq older (Nat.lt_succ_self outer)]

theorem IsOrdered.get_of_enclosing? {frames : Frames} (ordered : frames.IsOrdered)
    {frame outer : FrameId} {name : Bytes} (found : frames.enclosing? frame = some outer)
    (absent : frames.binding? frame name = none) :
    frames.get frame name = frames.get outer name := by
  unfold get
  rw [ordered.chain_of_enclosing? found, List.findSome?_cons, absent]

theorem IsOrdered.holder?_of_enclosing? {frames : Frames} (ordered : frames.IsOrdered)
    {frame outer : FrameId} {name : Bytes} (found : frames.enclosing? frame = some outer)
    (absent : frames.binding? frame name = none) :
    frames.holder? frame name = frames.holder? outer name := by
  unfold holder?
  rw [ordered.chain_of_enclosing? found, List.find?_cons, absent]
  rfl

/-- A chain starts at the frame it is walked from. -/
theorem chain_eq_cons (frames : Frames) (frame : FrameId) :
    ∃ rest, frames.chain frame = frame :: rest := by
  unfold chain chainWithin
  cases frames.enclosing? frame with
  | none => exact ⟨[], rfl⟩
  | some outer => exact ⟨_, rfl⟩

theorem get_of_binding? {frames : Frames} {frame : FrameId} {name : Bytes} {value : Value}
    (found : frames.binding? frame name = some value) : frames.get frame name = .ok value := by
  obtain ⟨rest, walked⟩ := frames.chain_eq_cons frame
  unfold get
  rw [walked, List.findSome?_cons, found]

theorem holder?_of_binding? {frames : Frames} {frame : FrameId} {name : Bytes}
    (found : (frames.binding? frame name).isSome) :
    frames.holder? frame name = some frame := by
  obtain ⟨rest, walked⟩ := frames.chain_eq_cons frame
  unfold holder?
  rw [walked, List.find?_cons, found]

end Frames

end LoxLang
