import Mathlib.Data.Nat.Find
import LoxLang.Proofs.Heap.Chains

/-!
Operations on frames.  A name is reached in three ways: by a search outward, by a walk over
a number of frames, and by a write that does not look.  From every frame they come to the
same place, up to the end of the chain, and whatever an operation does it keeps the links
and the names of all frames.
-/

namespace LoxLang

namespace Frames

variable {frames : Frames} {frame : FrameId} {name : Bytes}

theorem chain_of_outermost (outermost : frames.enclosing? frame = none) :
    frames.chain frame = [frame] := by
  unfold chain chainWithin
  rw [outermost]

theorem getElem?_chain_zero (frames : Frames) (frame : FrameId) :
    (frames.chain frame)[0]? = some frame := by
  obtain ⟨rest, walked⟩ := frames.chain_eq_cons frame
  rw [walked, List.getElem?_cons_zero]

/-- A walk arrives where the chain has so many frames before it, or it says how many
frames there are. -/
theorem IsOrdered.ancestorFrom_eq (ordered : frames.IsOrdered) (distance : Int)
    (left walked : Nat) (frame : FrameId) :
    frames.ancestorFrom distance left walked frame =
      match (frames.chain frame)[left]? with
      | some holder => .ok holder
      | none => .error (.beyondChain distance (walked + (frames.chain frame).length)) := by
  induction left generalizing walked frame with
  | zero =>
      rw [getElem?_chain_zero]
      rfl
  | succ left inductionHypothesis =>
      unfold ancestorFrom
      cases encloses : frames.enclosing? frame with
      | none =>
          rw [chain_of_outermost encloses]
          rfl
      | some outer =>
          rw [ordered.chain_of_enclosing? encloses, List.getElem?_cons_succ, List.length_cons]
          dsimp only
          rw [inductionHypothesis, Nat.add_right_comm, Nat.add_assoc]

theorem IsOrdered.ancestor_eq (ordered : frames.IsOrdered) (frame : FrameId) (distance : Int) :
    frames.ancestor frame distance =
      match (frames.chain frame)[distance.toNat]? with
      | some holder => .ok holder
      | none => .error (.beyondChain distance (frames.chain frame).length) := by
  unfold ancestor
  rw [ordered.ancestorFrom_eq, Nat.zero_add]

theorem IsOrdered.ancestor_eq_ok_iff (ordered : frames.IsOrdered) {distance : Int}
    {holder : FrameId} :
    frames.ancestor frame distance = .ok holder ↔
      (frames.chain frame)[distance.toNat]? = some holder := by
  rw [ordered.ancestor_eq]
  cases (frames.chain frame)[distance.toNat]? <;> simp

theorem IsOrdered.ancestor_beyond (ordered : frames.IsOrdered) {distance : Int}
    (beyond : (frames.chain frame).length ≤ distance) :
    frames.ancestor frame distance =
      .error (.beyondChain distance (frames.chain frame).length) := by
  have outside : (frames.chain frame)[distance.toNat]? = none :=
    List.getElem?_eq_none (by omega)
  rw [ordered.ancestor_eq, outside]

theorem IsOrdered.exists_ancestor_iff (ordered : frames.IsOrdered) {distance : Int} :
    (∃ holder, frames.ancestor frame distance = .ok holder) ↔
      distance < (frames.chain frame).length := by
  constructor
  · rintro ⟨holder, walked⟩
    by_contra beyond
    rw [ordered.ancestor_beyond (Int.not_lt.mp beyond)] at walked
    cases walked
  · intro within
    have start := (List.getElem?_eq_some_iff.mp (frames.getElem?_chain_zero frame)).1
    have inside : distance.toNat < (frames.chain frame).length := by omega
    exact ⟨_, ordered.ancestor_eq_ok_iff.mpr (List.getElem?_eq_getElem inside)⟩

/-- The chain from a frame of a chain is what is left of it. -/
theorem IsOrdered.getElem?_chain_add (ordered : frames.IsOrdered) {first : Nat}
    {middle : FrameId} (found : (frames.chain frame)[first]? = some middle) (second : Nat) :
    (frames.chain frame)[first + second]? = (frames.chain middle)[second]? := by
  induction first generalizing frame with
  | zero =>
      rw [getElem?_chain_zero] at found
      rw [Nat.zero_add, Option.some.inj found]
  | succ first inductionHypothesis =>
      cases encloses : frames.enclosing? frame with
      | none =>
          rw [chain_of_outermost encloses] at found
          cases found
      | some outer =>
          rw [ordered.chain_of_enclosing? encloses] at found ⊢
          rw [Nat.add_right_comm, List.getElem?_cons_succ]
          exact inductionHypothesis found

/-- A walk can be made in two parts. -/
theorem IsOrdered.ancestor_add (ordered : frames.IsOrdered) (first second : Nat)
    (holder : FrameId) :
    frames.ancestor frame (first + second : Nat) = .ok holder ↔
      ∃ middle, frames.ancestor frame first = .ok middle ∧
        frames.ancestor middle second = .ok holder := by
  simp only [ordered.ancestor_eq_ok_iff, Int.toNat_natCast]
  constructor
  · intro found
    have inside := (List.getElem?_eq_some_iff.mp found).1
    have middle := List.getElem?_eq_getElem (l := frames.chain frame) (i := first) (by omega)
    rw [ordered.getElem?_chain_add middle] at found
    exact ⟨_, middle, found⟩
  · rintro ⟨middle, walked, found⟩
    rw [ordered.getElem?_chain_add walked]
    exact found

/-- A name is bound in the frame at a distance. -/
def BindsAt (frames : Frames) (frame : FrameId) (name : Bytes) (distance : Nat) : Prop :=
  ∃ holder, frames.ancestor frame distance = .ok holder ∧ (frames.binding? holder name).isSome

/-- A name is bound in the frame at a distance and in no closer one. -/
structure BindsFirstAt (frames : Frames) (frame : FrameId) (name : Bytes) (distance : Nat) :
    Prop where
  bound : frames.BindsAt frame name distance
  closer : ∀ other < distance, ¬ frames.BindsAt frame name other

theorem IsOrdered.exists_bindsAt_iff (ordered : frames.IsOrdered) :
    (∃ distance, frames.BindsAt frame name distance) ↔
      ∃ holder ∈ frames.chain frame, (frames.binding? holder name).isSome := by
  simp only [BindsAt, ordered.ancestor_eq_ok_iff, Int.toNat_natCast]
  constructor
  · rintro ⟨distance, holder, found, bound⟩
    exact ⟨holder, List.mem_of_getElem? found, bound⟩
  · rintro ⟨holder, member, bound⟩
    obtain ⟨distance, found⟩ := List.getElem?_of_mem member
    exact ⟨distance, holder, found, bound⟩

theorem exists_bindsFirstAt (binds : ∃ distance, frames.BindsAt frame name distance) :
    ∃ distance, frames.BindsFirstAt frame name distance := by
  classical
  exact ⟨Nat.find binds, Nat.find_spec binds, fun _ closer => Nat.find_min binds closer⟩

theorem IsOrdered.bindsAt_succ_iff (ordered : frames.IsOrdered) {outer : FrameId}
    (encloses : frames.enclosing? frame = some outer) (distance : Nat) :
    frames.BindsAt frame name (distance + 1) ↔ frames.BindsAt outer name distance := by
  simp only [BindsAt, ordered.ancestor_eq_ok_iff, Int.toNat_natCast,
    ordered.chain_of_enclosing? encloses, List.getElem?_cons_succ]

/-- The search comes to the frame at the first distance that binds the name. -/
theorem IsOrdered.holder?_of_bindsFirstAt (ordered : frames.IsOrdered) {distance : Nat}
    (first : frames.BindsFirstAt frame name distance) :
    ∃ holder value, frames.ancestor frame distance = .ok holder ∧
      frames.binding? holder name = some value ∧ frames.holder? frame name = some holder ∧
        frames.get frame name = .ok value := by
  -- The first distance seen from the enclosing frame is smaller by one, as long as the
  -- frame itself lacks the name.
  induction distance generalizing frame with
  | zero =>
      obtain ⟨holder, walked, bound⟩ := first.bound
      obtain rfl := Except.ok.inj walked
      obtain ⟨value, found⟩ := Option.isSome_iff_exists.mp bound
      exact ⟨frame, value, walked, found, holder?_of_binding? bound, get_of_binding? found⟩
  | succ distance inductionHypothesis =>
      have absent : frames.binding? frame name = none := by
        by_contra bound
        exact first.closer 0 (Nat.succ_pos distance)
          ⟨frame, rfl, Option.isSome_iff_ne_none.mpr bound⟩
      cases encloses : frames.enclosing? frame with
      | none =>
          obtain ⟨holder, walked, -⟩ := first.bound
          rw [ordered.ancestor_eq_ok_iff, chain_of_outermost encloses] at walked
          cases walked
      | some outer =>
          have firstOuter : frames.BindsFirstAt outer name distance :=
            ⟨(ordered.bindsAt_succ_iff encloses distance).mp first.bound, fun other closer bound =>
              first.closer (other + 1) (Nat.succ_lt_succ closer)
                ((ordered.bindsAt_succ_iff encloses other).mpr bound)⟩
          obtain ⟨holder, value, walked, found, held, read⟩ := inductionHypothesis firstOuter
          refine ⟨holder, value, ?_, found, ?_, ?_⟩
          · rw [ordered.ancestor_eq_ok_iff] at walked ⊢
            rw [ordered.chain_of_enclosing? encloses]
            exact walked
          · rw [ordered.holder?_of_enclosing? encloses absent, held]
          · rw [ordered.get_of_enclosing? encloses absent, read]

/-- A name that no frame of the chain binds is undefined. -/
theorem undefined_of_absent (absent : ∀ holder ∈ frames.chain frame,
    frames.binding? holder name = none) (value : Value) :
    frames.get frame name = .error (.undefinedVariable name) ∧
      frames.assign frame name value = .error (.undefinedVariable name) := by
  have unread : (frames.chain frame).findSome? (fun holder => frames.binding? holder name) =
      none := List.findSome?_eq_none_iff.mpr absent
  have unheld : frames.holder? frame name = none :=
    List.find?_eq_none.mpr fun holder member => by simp [absent holder member]
  exact ⟨by rw [get, unread], by rw [assign, unheld]⟩

/-- What frames are asked to do. -/
inductive Operation where
  | push (enclosing : Option FrameId)
  | define (frame : FrameId) (name : Bytes) (value : Value)
  | assign (frame : FrameId) (name : Bytes) (value : Value)
  | assignAt (frame : FrameId) (distance : Int) (name : Bytes) (value : Value)
  | get (frame : FrameId) (name : Bytes)
  | getAt (frame : FrameId) (distance : Int) (name : Bytes)
  | ancestor (frame : FrameId) (distance : Int)

namespace Operation

/-- The frame that an operation starts from.  A push without one makes a new root. -/
def start? : Operation → Option FrameId
  | .push enclosing => enclosing
  | .define frame _ _ | .assign frame _ _ | .assignAt frame _ _ _ => some frame
  | .get frame _ | .getAt frame _ _ | .ancestor frame _ => some frame

/-- What an operation writes, and under which name. -/
def write? : Operation → Option (Bytes × Value)
  | .define _ name value | .assign _ name value | .assignAt _ _ name value => some (name, value)
  | .push _ | .get _ _ | .getAt _ _ _ | .ancestor _ _ => none

def isRead : Operation → Bool
  | .get _ _ | .getAt _ _ _ | .ancestor _ _ => true
  | .push _ | .define _ _ _ | .assign _ _ _ | .assignAt _ _ _ _ => false

/-- A push and a definition always succeed. -/
def mayFail : Operation → Bool
  | .push _ | .define _ _ _ => false
  | .assign _ _ _ | .assignAt _ _ _ _ | .get _ _ | .getAt _ _ _ | .ancestor _ _ => true

theorem write?_of_isRead {operation : Operation} (reads : operation.isRead = true) :
    operation.write? = none := by
  cases operation with
  | get _ _ | getAt _ _ _ | ancestor _ _ => rfl
  | push _ | define _ _ _ | assign _ _ _ | assignAt _ _ _ _ => cases reads

/-- An operation starts from a frame that there is. -/
def IsAbout (operation : Operation) (frames : Frames) : Prop :=
  ∀ frame ∈ operation.start?, frame < frames.size

end Operation

/-- What an operation answers. -/
inductive Answer where
  | frame (id : FrameId)
  | value (value : Value)
  | done
  | fault (cause : Fault)
  | desync (cause : Desync)

def Answer.isFailure : Answer → Bool
  | .frame _ | .value _ | .done => false
  | .fault _ | .desync _ => true

/-- Carry out an operation.  One that fails yields no frames, and those before it stand. -/
def perform (frames : Frames) : Operation → Answer × Frames
  | .push enclosing => (.frame frames.size, frames.push enclosing)
  | .define frame name value => (.done, frames.define frame name value)
  | .assign frame name value =>
      match frames.assign frame name value with
      | .ok after => (.done, after)
      | .error cause => (.fault cause, frames)
  | .assignAt frame distance name value =>
      match frames.assignAt frame distance name value with
      | .ok after => (.done, after)
      | .error cause => (.desync cause, frames)
  | .get frame name =>
      match frames.get frame name with
      | .ok value => (.value value, frames)
      | .error cause => (.fault cause, frames)
  | .getAt frame distance name =>
      match frames.getAt frame distance name with
      | .ok value => (.value value, frames)
      | .error cause => (.desync cause, frames)
  | .ancestor frame distance =>
      match frames.ancestor frame distance with
      | .ok holder => (.frame holder, frames)
      | .error cause => (.desync cause, frames)

/-- The frames that a series of operations leads to. -/
inductive Reachable : Frames → Prop where
  | empty : Reachable #[]
  | perform {frames : Frames} (earlier : Reachable frames) {operation : Operation}
      (about : operation.IsAbout frames) : Reachable (frames.perform operation).2

/-- Nothing is lost: frames keep their numbers, their links and their names. -/
structure Keeps (frames after : Frames) : Prop where
  size : frames.size ≤ after.size
  links : ∀ frame < frames.size, after.enclosing? frame = frames.enclosing? frame
  names : ∀ frame name, (frames.binding? frame name).isSome → (after.binding? frame name).isSome

/-- One binding was written, and everything else is as it was. -/
structure Rebinds (frames after : Frames) (frame : FrameId) (name : Bytes) (value : Value) :
    Prop where
  size : after.size = frames.size
  links : ∀ other, after.enclosing? other = frames.enclosing? other
  others : ∀ other text, ¬ (other = frame ∧ text = name) →
    after.binding? other text = frames.binding? other text
  bound : after.binding? frame name = some value

theorem rebinds_define (value : Value) (exists_ : frame < frames.size) :
    frames.Rebinds (frames.define frame name value) frame name value where
  size := size_define frames frame name value
  links := enclosing?_define frames frame name value
  others _ _ := binding?_define_of_ne frames value
  bound := binding?_define_self name value exists_

theorem Keeps.refl (frames : Frames) : frames.Keeps frames where
  size := Nat.le_refl _
  links _ _ := rfl
  names _ _ bound := bound

theorem keeps_define (frames : Frames) (frame : FrameId) (name : Bytes) (value : Value) :
    frames.Keeps (frames.define frame name value) where
  size := Nat.le_of_eq (size_define frames frame name value).symm
  links other _ := enclosing?_define frames frame name value other
  names _ _ := binding?_define_isSome value

theorem keeps_push (frames : Frames) (enclosing : Option FrameId) :
    frames.Keeps (frames.push enclosing) where
  size := by simp [push]
  links frame exists_ := by rw [push, enclosing?_push, if_neg (Nat.ne_of_lt exists_)]
  names frame name bound := by
    rw [push, binding?_push, if_neg (Nat.ne_of_lt (lt_size_of_binding? bound))]
    exact bound

theorem IsOrdered.le_of_mem_chain (ordered : frames.IsOrdered) {holder : FrameId}
    (member : holder ∈ frames.chain frame) : holder ≤ frame := by
  have walk := ordered.walk_chain frame
  generalize frames.chain frame = path at walk member
  induction walk with
  | last _ => exact Nat.le_of_eq (List.mem_singleton.mp member)
  | @onward place further _ encloses _ inductionHypothesis =>
      rcases List.mem_cons.mp member with rfl | later
      · exact Nat.le_refl _
      · exact Nat.le_trans (inductionHypothesis later) (Nat.le_of_lt (ordered _ _ encloses))

/-- What an operation does to frames: a failed one and a read do nothing, a push adds a
frame, and a write binds a name in one frame of the chain that it starts from. -/
inductive Does (frames : Frames) : Operation → Answer × Frames → Prop where
  | nothing {operation answer} : operation.mayFail = true →
      answer.isFailure = true ∨ operation.isRead = true → Does frames operation (answer, frames)
  | pushes (enclosing : Option FrameId) :
      Does frames (.push enclosing) (.frame frames.size, frames.push enclosing)
  | writes {operation start name value holder} : operation.start? = some start →
      operation.write? = some (name, value) → holder ∈ frames.chain start →
      (∀ frame, operation = .define frame name value → holder = frame) →
      Does frames operation (.done, frames.define holder name value)

theorem IsOrdered.does_perform (ordered : frames.IsOrdered) (operation : Operation) :
    frames.Does operation (frames.perform operation) := by
  cases operation with
  | push enclosing => exact .pushes enclosing
  | define frame name value =>
      have member := List.mem_of_getElem? (frames.getElem?_chain_zero frame)
      exact .writes rfl rfl member fun _ same => (Operation.define.inj same).1
  | assign frame name value =>
      rw [perform, assign]
      cases found : frames.holder? frame name with
      | none => exact .nothing rfl (.inl rfl)
      | some holder =>
          have member := List.mem_of_find?_eq_some found
          exact .writes rfl rfl member fun _ same => nomatch same
  | assignAt frame distance name value =>
      rw [perform, assignAt]
      cases walked : frames.ancestor frame distance with
      | error cause => exact .nothing rfl (.inl rfl)
      | ok holder =>
          have member := List.mem_of_getElem? (ordered.ancestor_eq_ok_iff.mp walked)
          exact .writes rfl rfl member fun _ same => nomatch same
  | get frame name =>
      rw [perform]
      split <;> exact .nothing rfl (.inr rfl)
  | getAt frame distance name =>
      rw [perform]
      split <;> exact .nothing rfl (.inr rfl)
  | ancestor frame distance =>
      rw [perform]
      split <;> exact .nothing rfl (.inr rfl)

theorem IsOrdered.perform (ordered : frames.IsOrdered) {operation : Operation}
    (about : operation.IsAbout frames) : (frames.perform operation).2.IsOrdered := by
  have does := ordered.does_perform operation
  generalize frames.perform operation = outcome at does ⊢
  cases does with
  | nothing _ _ => exact ordered
  | pushes enclosing =>
      intro frame outer encloses
      rw [push, enclosing?_push] at encloses
      split at encloses
      case isTrue isNew => exact isNew ▸ about outer encloses
      case isFalse => exact ordered frame outer encloses
  | writes _ _ _ _ =>
      intro frame outer encloses
      rw [enclosing?_define] at encloses
      exact ordered frame outer encloses

/-- Frames that operations lead to are enclosed by older ones. -/
theorem Reachable.isOrdered (reachable : frames.Reachable) : frames.IsOrdered := by
  induction reachable with
  | empty => exact fun frame outer encloses => by simp [enclosing?] at encloses
  | perform _ about inductionHypothesis => exact inductionHypothesis.perform about

/-- The lookups and the writes from a frame come to the same place. -/
structure Agrees (frames : Frames) (frame : FrameId) (name : Bytes) (value : Value) : Prop where
  /-- The chain is the walk along the links up to a root. -/
  walk : Walk frames.enclosing? frame (frames.chain frame)
  within : ∀ distance : Int, (∃ holder, frames.ancestor frame distance = .ok holder) ↔
    distance < (frames.chain frame).length
  beyond : ∀ distance : Int, (frames.chain frame).length ≤ distance →
    frames.ancestor frame distance = .error (.beyondChain distance (frames.chain frame).length)
  negative : ∀ distance < 0, frames.ancestor frame distance = .ok frame
  further : ∀ (first second : Nat) (holder : FrameId),
    frames.ancestor frame (first + second : Nat) = .ok holder ↔
      ∃ middle, frames.ancestor frame first = .ok middle ∧
        frames.ancestor middle second = .ok holder
  defined : (∃ held, frames.get frame name = .ok held) ↔
    ∃ holder ∈ frames.chain frame, (frames.binding? holder name).isSome
  nearest : (∃ holder ∈ frames.chain frame, (frames.binding? holder name).isSome) →
    ∃ distance, frames.BindsFirstAt frame name distance
  found : ∀ distance, frames.BindsFirstAt frame name distance →
    (∃ held, frames.get frame name = .ok held ∧ frames.getAt frame distance name = .ok held) ∧
    ∃ after, frames.assign frame name value = .ok after ∧
      frames.assignAt frame distance name value = .ok after
  undefined : (∀ holder ∈ frames.chain frame, frames.binding? holder name = none) →
    frames.get frame name = .error (.undefinedVariable name) ∧
      frames.assign frame name value = .error (.undefinedVariable name)

theorem IsOrdered.agrees (ordered : frames.IsOrdered) (frame : FrameId) (name : Bytes)
    (value : Value) : frames.Agrees frame name value where
  walk := ordered.walk_chain frame
  within _ := ordered.exists_ancestor_iff
  beyond _ := ordered.ancestor_beyond
  negative distance below := by
    rw [ordered.ancestor_eq_ok_iff, Int.toNat_of_nonpos (Int.le_of_lt below)]
    exact frames.getElem?_chain_zero frame
  further := ordered.ancestor_add
  defined := by
    constructor
    · rintro ⟨held, read⟩
      by_contra absent
      push Not at absent
      have undefined := (undefined_of_absent (fun holder member =>
        Option.not_isSome_iff_eq_none.mp (absent holder member)) value).1
      rw [read] at undefined
      cases undefined
    · intro binds
      obtain ⟨distance, first⟩ := exists_bindsFirstAt (ordered.exists_bindsAt_iff.mpr binds)
      obtain ⟨_, held, -, -, -, read⟩ := ordered.holder?_of_bindsFirstAt first
      exact ⟨held, read⟩
  nearest binds := exists_bindsFirstAt (ordered.exists_bindsAt_iff.mpr binds)
  found distance first := by
    obtain ⟨holder, held, walked, bound, reached, read⟩ := ordered.holder?_of_bindsFirstAt first
    refine ⟨⟨held, read, ?_⟩, frames.define holder name value, ?_, ?_⟩
    · simp only [getAt, walked, Bind.bind, Except.bind, bound]
    · rw [assign, reached]
    · simp only [assignAt, walked, Bind.bind, Except.bind]
      rfl
  undefined absent := undefined_of_absent absent value

/-- What an operation leaves as it is. -/
structure IsContained (frames : Frames) (operation : Operation) (answer : Answer)
    (after : Frames) : Prop where
  keeps : frames.Keeps after
  unchanged : answer.isFailure = true ∨ operation.isRead = true → after = frames
  pushed : ∀ enclosing, operation = .push enclosing →
    after.enclosing? frames.size = enclosing ∧
      (∀ name, after.binding? frames.size name = none) ∧
        ∀ frame < frames.size, ∀ name, after.binding? frame name = frames.binding? frame name
  written : ∀ start name value, operation.start? = some start →
    operation.write? = some (name, value) → answer.isFailure = false →
      ∃ holder ∈ frames.chain start, frames.Rebinds after holder name value
  defined : ∀ frame name value, operation = .define frame name value →
    frames.Rebinds after frame name value

theorem Does.isContained {operation : Operation} {outcome : Answer × Frames}
    (ordered : frames.IsOrdered) (about : operation.IsAbout frames)
    (does : frames.Does operation outcome) :
    frames.IsContained operation outcome.1 outcome.2 := by
  cases does with
  | @nothing operation answer mayFail ends =>
      refine ⟨.refl frames, fun _ => rfl, ?_, ?_, ?_⟩
      · rintro enclosing rfl
        cases mayFail
      · intro start name value _ writes succeeds
        rcases ends with fails | reads
        · exact Bool.noConfusion (fails.symm.trans succeeds)
        · rw [Operation.write?_of_isRead reads] at writes
          cases writes
      · rintro frame name value rfl
        cases mayFail
  | pushes enclosing =>
      refine ⟨keeps_push frames enclosing, ?_, ?_, nofun, nofun⟩
      · rintro (fails | reads)
        · cases fails
        · cases reads
      · rintro _ ⟨⟩
        refine ⟨?_, fun name => ?_, fun frame exists_ name => ?_⟩
        · rw [push, enclosing?_push, if_pos rfl]
        · rw [push, binding?_push, if_pos rfl]
          rfl
        · rw [push, binding?_push, if_neg (Nat.ne_of_lt exists_)]
  | @writes operation start name value holder starts writes member target =>
      have older := ordered.le_of_mem_chain member
      have rebinds : frames.Rebinds (frames.define holder name value) holder name value :=
        rebinds_define value (Nat.lt_of_le_of_lt older (about start starts))
      refine ⟨keeps_define frames holder name value, ?_, ?_, ?_, ?_⟩
      · rintro (fails | reads)
        · cases fails
        · rw [Operation.write?_of_isRead reads] at writes
          cases writes
      · rintro enclosing rfl
        cases writes
      · intro other text held startsThere writesThat _
        obtain rfl := Option.some.inj (starts.symm.trans startsThere)
        obtain ⟨rfl, rfl⟩ := Prod.mk.inj (Option.some.inj (writes.symm.trans writesThat))
        exact ⟨holder, member, rebinds⟩
      · rintro frame text held rfl
        cases writes
        rw [← target frame rfl]
        exact rebinds

/-- The ways to reach a frame agree from every frame, and an operation touches nothing
else. -/
theorem operations_agree (reachable : frames.Reachable) :
    (∀ frame name value, frames.Agrees frame name value) ∧
      ∀ operation : Operation, operation.IsAbout frames →
        frames.IsContained operation (frames.perform operation).1
          (frames.perform operation).2 :=
  ⟨reachable.isOrdered.agrees, fun operation about =>
    (reachable.isOrdered.does_perform operation).isContained reachable.isOrdered about⟩

/-- Two frames share a root, one of them shadows its name, and a further frame lies inside
that one. -/
theorem operations_agree_shadowed :
    let name := Bytes.ofString "a"
    let steps : List Operation := [.push none, .define 0 name (.bool true), .push (some 0),
      .push (some 0), .push (some 1), .define 1 name .nil]
    let frames := steps.foldl (fun (earlier : Frames) step => (earlier.perform step).2) #[]
    frames.Reachable ∧ frames.BindsFirstAt 3 name 1 ∧
      frames.get 2 name = .ok (.bool true) ∧
      (∃ held, frames.get 3 name = .ok held ∧ frames.getAt 3 1 name = .ok held) ∧
      (∃ after, frames.assign 3 name (.bool false) = .ok after ∧
        frames.assignAt 3 1 name (.bool false) = .ok after ∧
        ∃ holder ∈ frames.chain 3, frames.Rebinds after holder name (.bool false)) ∧
      frames.ancestor 3 3 = .error (.beyondChain 3 3) := by
  intro name steps frames
  have reachable : frames.Reachable := by
    refine .perform (.perform (.perform (.perform (.perform (.perform .empty ?_) ?_) ?_) ?_)
      ?_) ?_
    case refine_1 => exact nofun
    all_goals
      rintro _ ⟨⟩
      decide +kernel
  have first : frames.BindsFirstAt 3 name 1 := by
    have absent : frames.binding? 3 name = none := rfl
    refine ⟨⟨1, rfl, rfl⟩, fun other closer => ?_⟩
    obtain rfl := Nat.lt_one_iff.mp closer
    rintro ⟨holder, walked, bound⟩
    cases walked
    rw [absent] at bound
    cases bound
  have about : (Operation.assign 3 name (.bool false)).IsAbout frames := by
    rintro _ ⟨⟩
    decide +kernel
  have third : (frames.chain 3).length = 3 := rfl
  obtain ⟨agree, contained⟩ := operations_agree reachable
  obtain ⟨same, after, assigned, assignedThere⟩ := (agree 3 name (.bool false)).found 1 first
  have effect := contained _ about
  rw [perform, assigned] at effect
  have beyond := (agree 3 name .nil).beyond 3 (by omega)
  rw [third] at beyond
  exact ⟨reachable, first, rfl, same,
    ⟨after, assigned, assignedThere, effect.written _ _ _ rfl rfl rfl⟩, beyond⟩

end Frames

end LoxLang
