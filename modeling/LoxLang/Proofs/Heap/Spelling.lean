import LoxLang.Proofs.Heap.Reads
import LoxLang.Proofs.Program.Alike

/-!
Frames under two spellings.  Each frame of one side binds what the frame of the same
number binds on the other, under names that the frame's own spelling relates.  Frames
made on both sides and names bound on both sides keep to that.
-/

namespace LoxLang

namespace Frames

/-- The spellings of a frame and of the frames around it. -/
def spellingsAt (spellings : FrameId → Spelling) (frames : Frames) (frame : FrameId) : Spellings
  | 0 => spellings frame
  | distance + 1 =>
      match frames.enclosing? frame with
      | none => .same
      | some outer => spellingsAt spellings frames outer distance

variable {spellings : FrameId → Spelling} {frames others : Frames}

/-- A frame inside another has its own spelling, then those of the other. -/
theorem spellingsAt_of_enclosing? {frame outer : FrameId}
    (encloses : frames.enclosing? frame = some outer) :
    frames.spellingsAt spellings frame =
      (frames.spellingsAt spellings outer).enter (spellings frame) := by
  funext distance
  cases distance with
  | zero => rfl
  | succ distance => simp only [spellingsAt, encloses, Spellings.enter]

theorem spellingsAt_of_ancestorFrom (distance : Int) :
    ∀ {left walked : Nat} {frame holder : FrameId},
      frames.ancestorFrom distance left walked frame = .ok holder →
        frames.spellingsAt spellings frame left = spellings holder
  | 0, _, _, _, arrived => by
      simp only [ancestorFrom, Except.ok.injEq] at arrived
      rw [← arrived]
      rfl
  | left + 1, _, frame, _, arrived => by
      simp only [ancestorFrom] at arrived
      cases encloses : frames.enclosing? frame with
      | none => simp [encloses] at arrived
      | some outer =>
          simp only [encloses] at arrived
          simp only [spellingsAt, encloses]
          exact spellingsAt_of_ancestorFrom distance arrived

/-- The frame at a distance has the spelling of that distance. -/
theorem spellingsAt_of_ancestor {frame holder : FrameId} {distance : Nat}
    (arrived : frames.ancestor frame distance = .ok holder) :
    frames.spellingsAt spellings frame distance = spellings holder := by
  unfold ancestor at arrived
  rw [Int.toNat_natCast] at arrived
  exact spellingsAt_of_ancestorFrom distance arrived

/-- The spellings around a frame depend on older frames only. -/
theorem IsOrdered.spellingsAt_eq {later : FrameId → Spelling} {bound : Nat}
    (ordered : frames.IsOrdered)
    (enclosing : ∀ frame < bound, others.enclosing? frame = frames.enclosing? frame)
    (spelling : ∀ frame < bound, later frame = spellings frame) {frame : FrameId}
    (older : frame < bound) :
    others.spellingsAt later frame = frames.spellingsAt spellings frame := by
  funext distance
  induction distance generalizing frame with
  | zero => exact spelling frame older
  | succ distance inductionHypothesis =>
      simp only [spellingsAt, enclosing frame older]
      cases encloses : frames.enclosing? frame with
      | none => rfl
      | some outer =>
          exact inductionHypothesis (Nat.lt_trans (ordered frame outer encloses) older)

theorem ancestorFrom_congr
    (enclosing : ∀ frame, others.enclosing? frame = frames.enclosing? frame) (distance : Int) :
    ∀ (left walked : Nat) (frame : FrameId),
      others.ancestorFrom distance left walked frame =
        frames.ancestorFrom distance left walked frame
  | 0, _, _ => rfl
  | left + 1, walked, frame => by
      simp only [ancestorFrom, enclosing]
      cases frames.enclosing? frame with
      | none => rfl
      | some outer => exact ancestorFrom_congr enclosing distance left (walked + 1) outer

/-- The outermost frame has none around it. -/
theorem IsOrdered.enclosing?_zero (ordered : frames.IsOrdered) : frames.enclosing? 0 = none := by
  cases encloses : frames.enclosing? 0 with
  | none => rfl
  | some outer => exact absurd (ordered 0 outer encloses) (Nat.not_lt_zero outer)

/-- Two sides with the same frames, whose names the spellings relate. -/
structure Agree (spellings : FrameId → Spelling) (left right : Frames) : Prop where
  size : Array.size right = Array.size left
  enclosing : ∀ frame, right.enclosing? frame = left.enclosing? frame
  binding : ∀ frame name,
    right.binding? frame ((spellings frame).spell name) = left.binding? frame name

/-- Frame spellings with one more. -/
def extend (spellings : FrameId → Spelling) (frame : FrameId) (inner : Spelling) :
    FrameId → Spelling :=
  fun other => if other = frame then inner else spellings other

namespace Agree

variable {left right : Frames}

theorem ancestor (agree : Agree spellings left right) (frame : FrameId) (distance : Int) :
    right.ancestor frame distance = left.ancestor frame distance :=
  ancestorFrom_congr agree.enclosing distance _ _ frame

/-- A new frame on both sides. -/
theorem push (agree : Agree spellings left right) {inner : Spelling}
    {enclosing : Option FrameId} {bindings others : Bindings Value}
    (bound : ∀ name, others.get? (inner.spell name) = bindings.get? name) :
    Agree (extend spellings (Array.size left) inner) (Array.push left ⟨enclosing, bindings⟩)
      (Array.push right ⟨enclosing, others⟩) where
  size := by simp [agree.size]
  enclosing frame := by
    rw [enclosing?_push, enclosing?_push, agree.size, agree.enclosing]
  binding frame name := by
    rw [binding?_push, binding?_push, agree.size]
    unfold extend
    split
    · exact bound name
    · exact agree.binding frame name

/-- A name bound on both sides, as the frame spells it. -/
theorem define (agree : Agree spellings left right) (frame : FrameId) (name : Bytes)
    (value : Value) :
    Agree spellings (left.define frame name value)
      (right.define frame ((spellings frame).spell name) value) where
  size := by simp [agree.size]
  enclosing other := by rw [enclosing?_define, enclosing?_define, agree.enclosing]
  binding other text := by
    by_cases same : other = frame ∧ text = name
    · obtain ⟨rfl, rfl⟩ := same
      by_cases bound : other < Array.size left
      · rw [binding?_define_self _ _ bound,
          binding?_define_self _ _ (Nat.lt_of_lt_of_eq bound agree.size.symm)]
      · have absent {frames : Frames} (outside : ¬ other < Array.size frames) (text : Bytes) :
            frames.binding? other text = none := by
          simp [binding?, Array.getElem?_eq_none (Nat.not_lt.mp outside)]
        rw [absent (by rw [size_define, agree.size]; exact bound),
          absent (by rw [size_define]; exact bound)]
    · have apart : ¬ (other = frame ∧
          (spellings other).spell text = (spellings frame).spell name) := by
        rintro ⟨rfl, equal⟩
        exact same ⟨rfl, (spellings other).distinct equal⟩
      rw [binding?_define_of_ne left value same, binding?_define_of_ne right value apart]
      exact agree.binding other text

theorem binding?_globals (agree : Agree spellings left right)
    (global : spellings Heap.globals = .same) (name : Bytes) :
    right.binding? Heap.globals name = left.binding? Heap.globals name := by
  have found := agree.binding Heap.globals name
  rw [global] at found
  exact found

theorem get_globals (agree : Agree spellings left right)
    (global : spellings Heap.globals = .same) (name : Bytes) :
    right.get Heap.globals name = left.get Heap.globals name := by
  have found := agree.binding?_globals global name
  unfold Heap.globals at found ⊢
  rw [get_zero, get_zero, found]

theorem holder?_globals (agree : Agree spellings left right)
    (global : spellings Heap.globals = .same) (name : Bytes) :
    right.holder? Heap.globals name = left.holder? Heap.globals name := by
  have found := agree.binding?_globals global name
  unfold Heap.globals at found ⊢
  rw [holder?_zero, holder?_zero, found]

end Agree

end Frames

end LoxLang
