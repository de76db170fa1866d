import LoxLang.Bindings
import LoxLang.Value.Basic
import LoxLang.Value.Fault

/-!
Scope frames.  Frames are numbered in the order of their creation, and a frame
is enclosed by an older one, so the frames outward from any frame form a finite
chain.  Frames are shared: a binding changed through one holder is seen by all.
-/

namespace LoxLang

structure Frame where
  enclosing : Option FrameId
  bindings : Bindings Value

abbrev Frames := Array Frame

namespace Frames

def enclosing? (frames : Frames) (frame : FrameId) : Option FrameId :=
  frames[frame]?.bind Frame.enclosing

/-- What a name is bound to in one frame. -/
def binding? (frames : Frames) (frame : FrameId) (name : Bytes) : Option Value :=
  frames[frame]?.bind fun held => held.bindings.get? name

/-- The frames from one outward, at most `bound` of them. -/
def chainWithin (frames : Frames) : Nat → FrameId → List FrameId
  | 0, _ => []
  | bound + 1, frame =>
      match frames.enclosing? frame with
      | none => [frame]
      | some outer => frame :: chainWithin frames bound outer

/-- The frames from one outward.  Each is older than the one before it, which
bounds their number. -/
def chain (frames : Frames) (frame : FrameId) : List FrameId :=
  frames.chainWithin (frame + 1) frame

def push (frames : Frames) (enclosing : Option FrameId) : Frames :=
  Array.push frames ⟨enclosing, []⟩

/-- Bind a name in one frame, in place of any earlier binding. -/
def define (frames : Frames) (frame : FrameId) (name : Bytes) (value : Value) : Frames :=
  frames.modify frame fun held => { held with bindings := held.bindings.insert name value }

/-- The innermost frame of a chain that binds a name. -/
def holder? (frames : Frames) (frame : FrameId) (name : Bytes) : Option FrameId :=
  (frames.chain frame).find? fun candidate => (frames.binding? candidate name).isSome

def get (frames : Frames) (frame : FrameId) (name : Bytes) : Except Fault Value :=
  match (frames.chain frame).findSome? fun candidate => frames.binding? candidate name with
  | some value => .ok value
  | none => .error (.undefinedVariable name)

/-- Rebind a name where the chain binds it innermost. -/
def assign (frames : Frames) (frame : FrameId) (name : Bytes) (value : Value) :
    Except Fault Frames :=
  match frames.holder? frame name with
  | some holder => .ok (frames.define holder name value)
  | none => .error (.undefinedVariable name)

/-- Walk outward, having walked already. -/
def ancestorFrom (frames : Frames) (distance : Int) : Nat → Nat → FrameId → Except Desync FrameId
  | 0, _, frame => .ok frame
  | left + 1, walked, frame =>
      match frames.enclosing? frame with
      | none => .error (.beyondChain distance (walked + 1))
      | some outer => ancestorFrom frames distance left (walked + 1) outer

/-- The frame exactly `distance` frames outward.  A negative distance stays at
the frame. -/
def ancestor (frames : Frames) (frame : FrameId) (distance : Int) : Except Desync FrameId :=
  frames.ancestorFrom distance distance.toNat 0 frame

/-- Read a name in the frame at a distance. -/
def getAt (frames : Frames) (frame : FrameId) (distance : Int) (name : Bytes) :
    Except Desync Value := do
  let holder ← frames.ancestor frame distance
  match frames.binding? holder name with
  | some value => .ok value
  | none => .error (.nameMissing name distance)

/-- Bind a name in the frame at a distance, whether or not it was bound. -/
def assignAt (frames : Frames) (frame : FrameId) (distance : Int) (name : Bytes)
    (value : Value) : Except Desync Frames := do
  let holder ← frames.ancestor frame distance
  return frames.define holder name value

end Frames

end LoxLang
