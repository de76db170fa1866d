import LoxLang.Proofs.Heap.Reads
import LoxLang.Proofs.Scope.Gap

/-!
Frames that only one of two executions makes.  Such a frame binds nothing, so it is hidden:
a walk outward that steps over it passes the same bindings on both sides.
-/

namespace LoxLang

open Scope

/-- The frames of one execution beside those of another.  A hidden frame has no counterpart
of its own and shares that of the frame around it. -/
structure Projection where
  image : FrameId → FrameId
  hidden : FrameId → Prop

namespace Projection

/-- Every frame is there on both sides. -/
def same : Projection :=
  ⟨id, fun _ => False⟩

/-- The frames in `others` are those in `frames` that are not hidden. -/
structure Relates (projection : Projection) (frames others : Frames) : Prop where
  ordered : frames.IsOrdered
  bound : ∀ frame < frames.size, projection.image frame < others.size
  enclosing : ∀ frame < frames.size, ¬ projection.hidden frame →
    others.enclosing? (projection.image frame) =
      (frames.enclosing? frame).map projection.image
  binding : ∀ frame < frames.size, ¬ projection.hidden frame → ∀ name,
    others.binding? (projection.image frame) name = frames.binding? frame name
  distinct : ∀ frame < frames.size, ∀ other < frames.size, ¬ projection.hidden frame →
    ¬ projection.hidden other → projection.image frame = projection.image other → frame = other
  fresh : ∀ frame, projection.hidden frame → frame < frames.size
  around : ∀ frame outer, projection.hidden frame → frames.enclosing? frame = some outer →
    projection.image frame = projection.image outer
  empty : ∀ frame name, projection.hidden frame → frames.binding? frame name = none

/-- Where the hidden frame stands in the chain of frames from one outward, if there is
one. -/
inductive Hides (projection : Projection) (frames : Frames) : Option Nat → FrameId → Prop where
  | outermost {frame : FrameId} : frame < frames.size → ¬ projection.hidden frame →
      frames.enclosing? frame = none → Hides projection frames none frame
  | outward {gap : Option Nat} {frame outer : FrameId} : ¬ projection.hidden frame →
      frames.enclosing? frame = some outer → Hides projection frames gap outer →
        Hides projection frames (gap.map (· + 1)) frame
  | here {frame outer : FrameId} : projection.hidden frame →
      frames.enclosing? frame = some outer → Hides projection frames none outer →
        Hides projection frames (some 0) frame

/-- A later projection that leaves the frames up to a bound as they were. -/
structure Extends (bound : Nat) (earlier later : Projection) : Prop where
  image : ∀ frame < bound, later.image frame = earlier.image frame
  hidden : ∀ frame < bound, later.hidden frame ↔ earlier.hidden frame

theorem Extends.refl (bound : Nat) (projection : Projection) :
    Extends bound projection projection :=
  ⟨fun _ _ => rfl, fun _ _ => Iff.rfl⟩

theorem Extends.trans {bound further : Nat} {earlier middle later : Projection}
    (first : Extends bound earlier middle) (second : Extends further middle later)
    (grows : bound ≤ further) : Extends bound earlier later where
  image frame below := by
    rw [second.image frame (Nat.lt_of_lt_of_le below grows), first.image frame below]
  hidden frame below :=
    (second.hidden frame (Nat.lt_of_lt_of_le below grows)).trans (first.hidden frame below)

/-- The projection with a new frame on both sides. -/
def addFrame (projection : Projection) (frame image : FrameId) : Projection where
  image other := if other = frame then image else projection.image other
  hidden := projection.hidden

/-- The projection with a new frame, inside another, on one side only. -/
def hideFrame (projection : Projection) (frame outer : FrameId) : Projection where
  image other := if other = frame then projection.image outer else projection.image other
  hidden other := other = frame ∨ projection.hidden other

theorem extends_addFrame (projection : Projection) (frame image : FrameId) :
    Extends frame projection (projection.addFrame frame image) :=
  ⟨fun _ below => if_neg (Nat.ne_of_lt below), fun _ _ => Iff.rfl⟩

theorem extends_hideFrame (projection : Projection) (frame outer : FrameId) :
    Extends frame projection (projection.hideFrame frame outer) :=
  ⟨fun _ below => if_neg (Nat.ne_of_lt below),
    fun _ below => or_iff_right (Nat.ne_of_lt below)⟩

variable {projection : Projection} {frames others : Frames}

namespace Hides

variable {gap : Option Nat} {frame : FrameId}

theorem lt_size (hides : Hides projection frames gap frame) : frame < frames.size := by
  cases hides with
  | outermost below => exact below
  | outward _ encloses => exact Frames.lt_size_of_enclosing? encloses
  | here _ encloses => exact Frames.lt_size_of_enclosing? encloses

/-- The chain of a frame stays as it is. -/
theorem extend {later : Projection} {laterFrames : Frames}
    (hides : Hides projection frames gap frame) (extends_ : Extends frames.size projection later)
    (grows : frames.size ≤ laterFrames.size)
    (enclosing : ∀ frame < frames.size,
      laterFrames.enclosing? frame = frames.enclosing? frame) :
    Hides later laterFrames gap frame := by
  induction hides with
  | outermost below plain encloses =>
      refine .outermost (Nat.lt_of_lt_of_le below grows) ?_ ((enclosing _ below).trans encloses)
      rwa [extends_.hidden _ below]
  | outward plain encloses _ inductionHypothesis =>
      have below := Frames.lt_size_of_enclosing? encloses
      refine .outward ?_ ((enclosing _ below).trans encloses) inductionHypothesis
      rwa [extends_.hidden _ below]
  | here hidden encloses _ inductionHypothesis =>
      have below := Frames.lt_size_of_enclosing? encloses
      exact .here ((extends_.hidden _ below).mpr hidden) ((enclosing _ below).trans encloses)
        inductionHypothesis

/-- The frame itself is hidden only where the gap is. -/
theorem not_hidden (hides : Hides projection frames gap frame) (apart : gap ≠ some 0) :
    ¬ projection.hidden frame := by
  cases hides with
  | outermost _ plain => exact plain
  | outward plain => exact plain
  | here => exact absurd rfl apart

theorem hidden (hides : Hides projection frames (some 0) frame) : projection.hidden frame := by
  generalize here : some 0 = gap at hides
  cases hides with
  | outermost => cases here
  | @outward gap => cases gap <;> cases here
  | here hidden => exact hidden

/-- Where no frame is hidden there is no gap. -/
theorem none_of_plain (ordered : frames.IsOrdered) (plain : ∀ frame, ¬ projection.hidden frame)
    {frame : FrameId} (below : frame < frames.size) : Hides projection frames none frame := by
  induction frame using Nat.strongRecOn with
  | ind frame inductionHypothesis =>
      cases encloses : frames.enclosing? frame with
      | none => exact .outermost below (plain frame) encloses
      | some outer =>
          have older := ordered frame outer encloses
          exact .outward (plain frame) encloses
            (inductionHypothesis outer older (Nat.lt_trans older below))

end Hides

namespace Relates

/-- A walk outward on one side is a walk on the other that does not count the hidden
frame. -/
theorem ancestorFrom (relates : projection.Relates frames others) (distance other : Int) :
    ∀ {gap : Option Nat} {frame holder : FrameId} (left walked otherWalked : Nat),
      Hides projection frames gap frame →
      frames.ancestorFrom distance left walked frame = .ok holder → gap ≠ some left →
        others.ancestorFrom other (shift gap left) otherWalked (projection.image frame) =
            .ok (projection.image holder) ∧
          holder < frames.size ∧ ¬ projection.hidden holder
  | gap, frame, holder, 0, _, _, hides, arrives, apart => by
      obtain rfl := Except.ok.inj arrives
      rw [shift_zero]
      exact ⟨rfl, hides.lt_size, hides.not_hidden apart⟩
  | _, frame, holder, left + 1, walked, otherWalked, hides, arrives, apart => by
      have below := hides.lt_size
      unfold Frames.ancestorFrom at arrives
      cases hides with
      | outermost _ _ encloses =>
          rw [encloses] at arrives
          cases arrives
      | @outward gap _ outer plain encloses further =>
          rw [encloses] at arrives
          have image := relates.enclosing frame below plain
          rw [encloses] at image
          rw [shift_succ]
          unfold Frames.ancestorFrom
          rw [image]
          apply relates.ancestorFrom distance other left _ _ further arrives
          intro same
          exact apart (by rw [same]; rfl)
      | @here _ outer hidden encloses further =>
          rw [encloses] at arrives
          rw [relates.around frame outer hidden encloses]
          exact relates.ancestorFrom distance other left _ _ further arrives (by simp)

theorem ancestor (relates : projection.Relates frames others) {gap : Option Nat}
    {frame holder : FrameId} {distance other : Int} (hides : Hides projection frames gap frame)
    (arrives : frames.ancestor frame distance = .ok holder) (apart : gap ≠ some distance.toNat)
    (shifted : other.toNat = shift gap distance.toNat) :
    others.ancestor (projection.image frame) other = .ok (projection.image holder) ∧
      holder < frames.size ∧ ¬ projection.hidden holder := by
  unfold Frames.ancestor at arrives ⊢
  rw [shifted]
  exact relates.ancestorFrom distance other distance.toNat 0 0 hides arrives apart

/-- A walk that ends where a name is bound does not end at the hidden frame. -/
theorem apart_of_binding (relates : projection.Relates frames others) {name : Bytes}
    (distance : Int) :
    ∀ {gap : Option Nat} {frame holder : FrameId} (left walked : Nat),
      Hides projection frames gap frame →
      frames.ancestorFrom distance left walked frame = .ok holder →
      (frames.binding? holder name).isSome → gap ≠ some left
  | gap, frame, holder, 0, _, hides, arrives, bound => by
      rintro rfl
      obtain rfl := Except.ok.inj arrives
      rw [relates.empty _ name hides.hidden] at bound
      cases bound
  | _, frame, holder, left + 1, walked, hides, arrives, bound => by
      unfold Frames.ancestorFrom at arrives
      cases hides with
      | outermost => simp
      | @outward gap _ _ _ encloses further =>
          rw [encloses] at arrives
          have apart := relates.apart_of_binding distance left _ further arrives bound
          cases gap with
          | none => simp
          | some gap => simpa using apart
      | here => simp

/-- A read at a distance that finds a name finds the same value on the other side, and it
does not end at the hidden frame. -/
theorem getAt (relates : projection.Relates frames others) {gap : Option Nat}
    {frame holder : FrameId} {distance other : Int} {name : Bytes} {value : Value}
    (hides : Hides projection frames gap frame)
    (arrives : frames.ancestor frame distance = .ok holder)
    (found : frames.binding? holder name = some value)
    (shifted : gap ≠ some distance.toNat → other.toNat = shift gap distance.toNat) :
    others.getAt (projection.image frame) other name = .ok value ∧
      gap ≠ some distance.toNat := by
  have apart : gap ≠ some distance.toNat :=
    relates.apart_of_binding distance distance.toNat 0 hides arrives (by rw [found]; rfl)
  obtain ⟨walked, below, plain⟩ := relates.ancestor hides arrives apart (shifted apart)
  refine ⟨?_, apart⟩
  simp only [Frames.getAt, walked, bind, Except.bind, relates.binding holder below plain, found]

/-- Globals are found alike. -/
theorem globals (relates : projection.Relates frames others) (rooted : 0 < frames.size)
    (plain : ¬ projection.hidden 0) (image : projection.image 0 = 0) (name : Bytes) :
    others.get 0 name = frames.get 0 name ∧ others.holder? 0 name = frames.holder? 0 name := by
  have binding := relates.binding 0 rooted plain name
  rw [image] at binding
  rw [Frames.get_zero, Frames.get_zero, Frames.holder?_zero, Frames.holder?_zero, binding]
  exact ⟨rfl, rfl⟩

/-- A frame before the newest one was there before. -/
theorem lt_size_of_push {made : Frame} {frame : FrameId}
    (room : frame < (Array.push frames made).size) (apart : frame ≠ frames.size) :
    frame < frames.size :=
  Nat.lt_of_le_of_ne (Nat.le_of_lt_succ (by simpa using room)) apart

theorem isOrdered_push (relates : projection.Relates frames others) {outer : FrameId}
    (below : outer < frames.size) (bindings : Bindings Value) :
    Frames.IsOrdered (Array.push frames ⟨some outer, bindings⟩) := by
  intro frame further encloses
  rw [Frames.enclosing?_push] at encloses
  split at encloses
  · next newest =>
      obtain rfl := Option.some.inj encloses
      rw [newest]
      exact below
  · exact relates.ordered frame further encloses

/-- A frame made on both sides. -/
theorem addFrame (relates : projection.Relates frames others) {outer : FrameId}
    (below : outer < frames.size) (bindings : Bindings Value) :
    (projection.addFrame frames.size others.size).Relates
      (Array.push frames ⟨some outer, bindings⟩)
      (Array.push others ⟨some (projection.image outer), bindings⟩) := by
  have kept := projection.extends_addFrame frames.size others.size
  have newest : (projection.addFrame frames.size others.size).image frames.size = others.size :=
    if_pos rfl
  have apart {frame : FrameId} (bound : frame < frames.size) :
      projection.image frame ≠ others.size :=
    Nat.ne_of_lt (relates.bound frame bound)
  constructor
  case ordered => exact relates.isOrdered_push below bindings
  case bound =>
    intro frame room
    by_cases new : frame = frames.size
    · rw [new, newest, Array.size_push]
      exact Nat.lt_succ_self _
    · have bound := lt_size_of_push room new
      rw [kept.image frame bound, Array.size_push]
      exact Nat.lt_succ_of_lt (relates.bound frame bound)
  case enclosing =>
    intro frame room plain
    rw [Frames.enclosing?_push, Frames.enclosing?_push]
    by_cases new : frame = frames.size
    · rw [if_pos new, new, newest, if_pos rfl, Option.map_some, kept.image outer below]
    · have bound := lt_size_of_push room new
      rw [if_neg new, kept.image frame bound, if_neg (apart bound),
        relates.enclosing frame bound plain]
      apply Option.map_congr
      intro further encloses
      exact (kept.image further (Nat.lt_trans (relates.ordered frame further encloses) bound)).symm
  case binding =>
    intro frame room plain name
    rw [Frames.binding?_push, Frames.binding?_push]
    by_cases new : frame = frames.size
    · rw [if_pos new, new, newest, if_pos rfl]
    · have bound := lt_size_of_push room new
      rw [if_neg new, kept.image frame bound, if_neg (apart bound),
        relates.binding frame bound plain]
  case distinct =>
    intro frame room other otherRoom plain otherPlain same
    by_cases new : frame = frames.size <;> by_cases otherNew : other = frames.size
    · rw [new, otherNew]
    · have bound := lt_size_of_push otherRoom otherNew
      rw [new, newest, kept.image other bound] at same
      exact absurd same.symm (apart bound)
    · have bound := lt_size_of_push room new
      rw [otherNew, newest, kept.image frame bound] at same
      exact absurd same (apart bound)
    · have bound := lt_size_of_push room new
      have otherBound := lt_size_of_push otherRoom otherNew
      rw [kept.image frame bound, kept.image other otherBound] at same
      exact relates.distinct frame bound other otherBound plain otherPlain same
  case fresh =>
    intro frame hidden
    exact Nat.lt_of_lt_of_le (relates.fresh frame hidden) (by simp)
  case around =>
    intro frame further hidden encloses
    have bound := relates.fresh frame hidden
    rw [Frames.enclosing?_push, if_neg (Nat.ne_of_lt bound)] at encloses
    rw [kept.image frame bound,
      kept.image further (Nat.lt_trans (relates.ordered frame further encloses) bound)]
    exact relates.around frame further hidden encloses
  case empty =>
    intro frame name hidden
    rw [Frames.binding?_push, if_neg (Nat.ne_of_lt (relates.fresh frame hidden))]
    exact relates.empty frame name hidden

/-- A frame without bindings made on one side only. -/
theorem hideFrame (relates : projection.Relates frames others) {outer : FrameId}
    (below : outer < frames.size) :
    (projection.hideFrame frames.size outer).Relates (Array.push frames ⟨some outer, []⟩)
      others := by
  have kept := projection.extends_hideFrame frames.size outer
  have newest : (projection.hideFrame frames.size outer).image frames.size =
    projection.image outer := if_pos rfl
  have old {frame : FrameId} (room : frame < (Array.push frames ⟨some outer, []⟩).size)
      (plain : ¬ (projection.hideFrame frames.size outer).hidden frame) :
      frame < frames.size ∧ ¬ projection.hidden frame :=
    ⟨lt_size_of_push room fun new => plain (.inl new), fun hidden => plain (.inr hidden)⟩
  constructor
  case ordered => exact relates.isOrdered_push below []
  case bound =>
    intro frame room
    by_cases new : frame = frames.size
    · rw [new, newest]
      exact relates.bound outer below
    · have bound := lt_size_of_push room new
      rw [kept.image frame bound]
      exact relates.bound frame bound
  case enclosing =>
    intro frame room plain
    obtain ⟨bound, wasPlain⟩ := old room plain
    rw [Frames.enclosing?_push, if_neg (Nat.ne_of_lt bound), kept.image frame bound,
      relates.enclosing frame bound wasPlain]
    apply Option.map_congr
    intro further encloses
    exact (kept.image further (Nat.lt_trans (relates.ordered frame further encloses) bound)).symm
  case binding =>
    intro frame room plain name
    obtain ⟨bound, wasPlain⟩ := old room plain
    rw [Frames.binding?_push, if_neg (Nat.ne_of_lt bound), kept.image frame bound]
    exact relates.binding frame bound wasPlain name
  case distinct =>
    intro frame room other otherRoom plain otherPlain same
    obtain ⟨bound, wasPlain⟩ := old room plain
    obtain ⟨otherBound, otherWasPlain⟩ := old otherRoom otherPlain
    rw [kept.image frame bound, kept.image other otherBound] at same
    exact relates.distinct frame bound other otherBound wasPlain otherWasPlain same
  case fresh =>
    rintro frame (new | hidden)
    · simp [new]
    · exact Nat.lt_of_lt_of_le (relates.fresh frame hidden) (by simp)
  case around =>
    intro frame further hidden encloses
    rw [Frames.enclosing?_push] at encloses
    split at encloses
    · next new =>
        obtain rfl := Option.some.inj encloses
        rw [new, newest, kept.image outer below]
    · next apart =>
        have wasHidden := hidden.resolve_left apart
        have bound := relates.fresh frame wasHidden
        rw [kept.image frame bound,
          kept.image further (Nat.lt_trans (relates.ordered frame further encloses) bound)]
        exact relates.around frame further wasHidden encloses
  case empty =>
    intro frame name hidden
    rw [Frames.binding?_push]
    split
    · rfl
    · next apart => exact relates.empty frame name (hidden.resolve_left apart)

/-- A name bound on both sides in a frame that is not hidden. -/
theorem define (relates : projection.Relates frames others) {frame : FrameId}
    (below : frame < frames.size) (plain : ¬ projection.hidden frame) (name : Bytes)
    (value : Value) :
    projection.Relates (frames.define frame name value)
      (others.define (projection.image frame) name value) := by
  constructor
  case ordered =>
    intro other outer encloses
    rw [Frames.enclosing?_define] at encloses
    exact relates.ordered other outer encloses
  case bound =>
    intro other room
    rw [Frames.size_define] at room ⊢
    exact relates.bound other room
  case enclosing =>
    intro other room otherPlain
    rw [Frames.size_define] at room
    rw [Frames.enclosing?_define, Frames.enclosing?_define]
    exact relates.enclosing other room otherPlain
  case binding =>
    intro other room otherPlain text
    rw [Frames.size_define] at room
    by_cases same : other = frame ∧ text = name
    · obtain ⟨rfl, rfl⟩ := same
      rw [Frames.binding?_define_self _ _ room,
        Frames.binding?_define_self _ _ (relates.bound other room)]
    · have apart : ¬ (projection.image other = projection.image frame ∧ text = name) := by
        rintro ⟨images, text⟩
        exact same ⟨relates.distinct other room frame below otherPlain plain images, text⟩
      rw [Frames.binding?_define_of_ne _ _ same, Frames.binding?_define_of_ne _ _ apart]
      exact relates.binding other room otherPlain text
  case distinct =>
    intro one room other otherRoom
    rw [Frames.size_define] at room otherRoom
    exact relates.distinct one room other otherRoom
  case fresh =>
    intro other hidden
    rw [Frames.size_define]
    exact relates.fresh other hidden
  case around =>
    intro other outer hidden encloses
    rw [Frames.enclosing?_define] at encloses
    exact relates.around other outer hidden encloses
  case empty =>
    intro other text hidden
    rw [Frames.binding?_define_of_ne]
    · exact relates.empty other text hidden
    · rintro ⟨rfl, -⟩
      exact plain hidden

end Relates

end Projection

end LoxLang
