import LoxLang.Proofs.Eval.Covers

/-!
Reading a method of a superclass.  The frames from the active one outward bind ordinary
names up to the frame of the receiver, and the superclass stands just outside it.  The
function in the frame of the receiver contains the reference.
-/

namespace LoxLang

open Scope

/-- A frame lies outward of another, with nothing but ordinary names nearer. -/
inductive Frames.Reaches (frames : Frames) : FrameId → FrameId → Prop where
  | here {frame : FrameId} : Reaches frames frame frame
  | outward {frame outer reached : FrameId} :
      (∀ name, ¬ IsOrdinary name → frames.binding? frame name = none) →
      frames.enclosing? frame = some outer → Reaches frames outer reached →
        Reaches frames frame reached

namespace Frames

variable {frames : Frames} {frame reached : FrameId}

/-- A search for a receiver or a superclass ends at the first frame that binds it. -/
theorem Reaches.holder?_eq (reaches : frames.Reaches frame reached) (ordered : frames.IsOrdered)
    {name : Bytes} (reserved : ¬ IsOrdinary name)
    (bound : (frames.binding? reached name).isSome) : frames.holder? frame name = some reached := by
  induction reaches with
  | here => exact holder?_of_binding? bound
  | outward absent encloses _ inductionHypothesis =>
      rw [ordered.holder?_of_enclosing? encloses (absent name reserved)]
      exact inductionHypothesis bound

/-- One frame further out. -/
theorem ancestorFrom_succ {outer : FrameId} {left : Nat} {distance : Int}
    (encloses : frames.enclosing? reached = some outer) (further : Int) {walked : Nat} (start : Nat)
    (arrived : frames.ancestorFrom distance left walked frame = .ok reached) :
    frames.ancestorFrom further (left + 1) start frame = .ok outer := by
  induction left generalizing frame walked start with
  | zero =>
      obtain rfl := Except.ok.inj arrived
      simp only [ancestorFrom, encloses]
  | succ left inductionHypothesis =>
      rw [ancestorFrom] at arrived ⊢
      cases found : frames.enclosing? frame with
      | none =>
          rw [found] at arrived
          cases arrived
      | some next =>
          rw [found] at arrived
          exact inductionHypothesis (start + 1) arrived

theorem ancestor_succ {outer : FrameId} {distance : Nat}
    (encloses : frames.enclosing? reached = some outer)
    (arrived : frames.ancestor frame distance = .ok reached) :
    frames.ancestor frame (distance + 1 : Nat) = .ok outer := by
  unfold ancestor at arrived ⊢
  rw [Int.toNat_natCast] at arrived ⊢
  exact ancestorFrom_succ encloses _ 0 arrived

theorem getAt_of_ancestor {distance : Int} {name : Bytes} {value : Value}
    (arrived : frames.ancestor frame distance = .ok reached)
    (bound : frames.binding? reached name = some value) :
    frames.getAt frame distance name = .ok value := by
  simp only [getAt, arrived, Bind.bind, Except.bind, bound]

end Frames

section Reach

variable {code : Code} {layout : Layout} {heap : Heap} {frame reached : FrameId}

/-- The function in the frame of the receiver that is reached contains what is covered. -/
theorem Heap.Covers.exists_closure {ids : List RefId} (covers : heap.Covers ids frame)
    (conforms : Conforms code layout heap) (reaches : heap.frames.Reaches frame reached)
    (bound : (heap.frames.binding? reached (thisName 0).text).isSome) :
    ∃ id < heap.closures.size, (heap.closure id).frame = reached ∧
      ids ⊆ (heap.closure id).declaration.supers := by
  induction reaches with
  | @here reached =>
      cases covers with
      | receiver _ exists_ stands contains => exact ⟨_, exists_, stands, contains⟩
      | superclass other =>
          exact absurd (conforms.eq_of_reserved super_not_isOrdinary other bound) this_ne_super
      | outward absent _ _ =>
          rw [absent _ this_not_isOrdinary] at bound
          cases bound
      | globals => exact absurd (conforms.globals _ bound) this_not_isOrdinary
  | @outward frame outer reached absent encloses _ inductionHypothesis =>
      cases covers with
      | receiver other _ _ _ =>
          rw [absent _ this_not_isOrdinary] at other
          cases other
      | superclass other =>
          rw [absent _ super_not_isOrdinary] at other
          cases other
      | outward _ again further =>
          obtain rfl := Option.some.inj (encloses.symm.trans again)
          exact inductionHypothesis further bound
      | globals =>
          rw [conforms.toIsGrounded.enclosing?_globals] at encloses
          cases encloses

/-- Scopes with nothing but ordinary names lead outward. -/
theorem Conforms.reaches (conforms : Conforms code layout heap) (whole : Int) :
    ∀ {around : List Region} {frame : FrameId} {region : Region} (distance walked : Nat),
      Fits layout heap.frames frame around → around[distance]? = some region →
      (∀ nearer < distance, ∀ region, around[nearer]? = some region →
        ∀ name ∈ region.all, IsOrdinary name) →
        ∃ reached, heap.frames.Reaches frame reached ∧
          heap.frames.ancestorFrom whole distance walked frame = .ok reached ∧
          Fits layout heap.frames reached (around.drop distance)
  | around, frame, _, 0, _, fits, _, _ => ⟨frame, .here, rfl, fits⟩
  | [], _, _, _ + 1, _, _, found, _ => by cases found
  | first :: rest, frame, region, distance + 1, walked, ⟨outer, encloses, laid, _, fits⟩, found,
      ordinary => by
      obtain ⟨reached, reaches, arrived, fitsReached⟩ :=
        conforms.reaches whole distance (walked + 1) fits found
          fun nearer closer => ordinary (nearer + 1) (Nat.succ_lt_succ closer)
      refine ⟨reached, .outward (fun name reserved => ?_) encloses reaches, ?_, fitsReached⟩
      · apply conforms.binding?_eq_none encloses
        rw [laid]
        exact fun declared => reserved (ordinary 0 (Nat.succ_pos _) first rfl name declared)
      · rw [Frames.ancestorFrom, encloses]
        exact arrived

end Reach

/-- Where a reference to a superclass leads: to the frame of the receiver, and from there
to the frame of the superclass. -/
structure Machine.Dispatches (machine : Machine) (distance : Nat) (receiver : ObjectId)
    (superclass : ClassId) (inner outer : FrameId) : Prop where
  reaches : machine.heap.frames.Reaches machine.active inner
  arrived : machine.heap.frames.ancestor machine.active distance = .ok inner
  encloses : machine.heap.frames.enclosing? inner = some outer
  receiver : machine.heap.frames.binding? inner (thisName 0).text = some (.object receiver)
  superclass : machine.heap.frames.binding? outer (superName 0).text = some (.classRef superclass)

/-- Reading a method of the superclass finds it from the superclass on and binds it to the
receiver. -/
theorem Machine.Dispatches.readSuper_apply {machine : Machine} {distance : Nat}
    {receiver : ObjectId} {superclass : ClassId} {inner outer : FrameId}
    (dispatches : machine.Dispatches distance receiver superclass inner outer) {access : Access}
    {id : RefId} (entry : access.table[id]? = some (distance + 1)) (method : Name) :
    Eval.readSuper access id method machine =
      match machine.heap.findMethod? superclass method.text with
      | some found => .ok (.function machine.heap.closures.size)
          (machine.withHeap (machine.heap.bindMethod found receiver))
      | none => .error (.fault ⟨.undefinedProperty method.text, method.token⟩) machine := by
  have outside := Frames.getAt_of_ancestor
    (Frames.ancestor_succ dispatches.encloses dispatches.arrived) dispatches.superclass
  have inside := Frames.getAt_of_ancestor dispatches.arrived dispatches.receiver
  have inward : ((distance + 1 : Nat) : Int) - 1 = (distance : Nat) := by omega
  unfold Eval.readSuper
  simp only [entry, Option.getD_some, inward, Bind.bind, EStateM.bind, Eval.readAt_apply, outside,
    inside, Eval.ofDesync, Pure.pure, EStateM.pure, Eval.get_apply]
  cases machine.heap.findMethod? superclass method.text with
  | some found => rfl
  | none => rfl

/-- A reference to a superclass leads to a receiver and a superclass. -/
theorem Activity.IsSound.dispatches {code : Code} {activity : Activity}
    (sound : activity.IsSound code) {id : RefId} {line : Nat} {name : Name}
    (task : activity.task = .evaluate (.superMethod id line name)) :
    ∃ distance receiver superclass inner outer,
      activity.access.table[id]? = some (distance + 1) ∧
        activity.machine.Dispatches distance receiver superclass inner outer := by
  obtain ⟨access, layout, conforms, sound⟩ := sound
  rw [task] at sound
  obtain ⟨around, fits, accepts⟩ := sound
  obtain ⟨distance, entry, bindsSuper, bindsThis, ordinary, -⟩ := accepts.site.sound
  obtain ⟨region, found, complete⟩ := bindsThis
  obtain ⟨outerRegion, foundOuter, completeOuter⟩ := bindsSuper
  obtain ⟨inner, reaches, arrived, fitsInner⟩ :=
    Conforms.reaches conforms distance distance 0 fits found ordinary
  have found : (around.drop distance)[0]? = some region := by
    rw [List.getElem?_drop]
    exact found
  have foundOuter : (around.drop distance)[1]? = some outerRegion := by
    rw [List.getElem?_drop]
    exact foundOuter
  generalize around.drop distance = scopes at fitsInner found foundOuter
  cases scopes with
  | nil => cases found
  | cons first further =>
      cases further with
      | nil => cases foundOuter
      | cons second rest =>
          obtain rfl : first = region := Option.some.inj found
          obtain rfl : second = outerRegion := Option.some.inj foundOuter
          obtain ⟨outer, encloses, -, binds, -, -, -, bindsOuter, -⟩ := fitsInner
          obtain ⟨value, held⟩ := Option.isSome_iff_exists.mp (binds _ complete)
          obtain ⟨receiver, rfl⟩ := conforms.receiver inner value held
          obtain ⟨value, heldOuter⟩ := Option.isSome_iff_exists.mp (bindsOuter _ completeOuter)
          obtain ⟨superclass, rfl⟩ := conforms.superclass outer value heldOuter
          refine ⟨distance, receiver, superclass, inner, outer, ?_, reaches, ?_, encloses, held,
            heldOuter⟩
          · rw [access]
            exact entry
          · unfold Frames.ancestor
            rw [Int.toNat_natCast]
            exact arrived

/-- No receiver or superclass ever stands in a frame where something is declared. -/
theorem Activity.IsSound.binding?_active {code : Code} {activity : Activity}
    (sound : activity.IsSound code) {statement : Stmt} {declared : Bytes}
    (task : activity.task = .execute statement) (declares : declared ∈ statement.declares)
    {later : Heap} (persists : activity.machine.heap.Persists later) {name : Bytes}
    (reserved : ¬ IsOrdinary name) :
    later.frames.binding? activity.machine.active name = none := by
  obtain ⟨within, ordinary⟩ := sound.ordinary_active task declares
  rw [persists.reserved _ within name reserved, ← Option.not_isSome_iff_eq_none]
  exact fun bound => reserved (ordinary name bound)

/-- A function that a task makes in a new frame, and what the frame holds: a bound method
stands beside its receiver, and a method of a class beside its superclass, as the name of
the superclass was bound then. -/
inductive Activity.MakesInside (activity : Activity) : Closure → Bytes → Value → Prop where
  | bound {method : ClosureId} {receiver : ObjectId} :
      activity.task = .bind method receiver →
        MakesInside activity { activity.machine.heap.closure method with
          frame := activity.machine.heap.frames.size } (thisName 0).text (.object receiver)
  | method {name parent : Name} {reference : RefId} {methods : List Function}
      {superclass : ClassId} {method : Function} :
      activity.task = .execute (.classDecl name (some (reference, parent)) methods) →
      Eval.readVariable activity.access reference parent activity.machine =
        .ok (.classRef superclass) activity.machine →
      method ∈ methods →
        MakesInside activity (method.asMethod activity.machine.heap.frames.size)
          (superName 0).text (.classRef superclass)

namespace Heap.Creation

variable {start final : Heap} {before after : List Moment} {moment : Moment} {id : ClosureId}

theorem closure_eq (creation : Creation start before moment after final id) :
    final.closure id = moment.activity.final.heap.closure id :=
  creation.later.persists.closure id creation.present

/-- A function that stands beside a receiver or a superclass was made there. -/
theorem makesInside (creation : Creation start before moment after final id) {name : Bytes}
    {value : Value} (reserved : ¬ IsOrdinary name)
    (held : final.frames.binding? (final.closure id).frame name = some value) :
    moment.activity.MakesInside (final.closure id) name value := by
  rw [creation.closure_eq] at held ⊢
  obtain ⟨-, ⟨code, sound⟩, isMaker, -, later, absent, present⟩ := creation
  have lasts := later.persists
  have persists := (sound.persists_of_maker isMaker).trans lasts
  have makes := sound.makes isMaker
  generalize moment.activity.final.heap = heap at *
  cases makes with
  | nothing => exact absurd present (Nat.not_lt.mpr absent)
  | @bound method receiver task =>
      rw [Heap.closure_eq_of_push _ rfl absent present] at held ⊢
      have within := Frames.lt_size_of_enclosing?
        (moment.activity.machine.heap.enclosing?_bindMethod method receiver)
      rw [lasts.reserved _ within name reserved, Heap.binding?_bindMethod] at held
      obtain ⟨rfl, rfl⟩ := Bindings.of_get?_single held
      exact .bound task
  | function task =>
      rw [Heap.closure_eq_of_push _ rfl absent present] at held
      rw [sound.binding?_active task (List.mem_singleton_self _) persists reserved] at held
      cases held
  | @classDecl declared superclass methods parent task inherits =>
      obtain ⟨method, numbered⟩ := Heap.exists_numbered _ _ _ _ _ absent present
      rw [Heap.closure_declareClass _ _ _ _ _ numbered] at held ⊢
      cases parent with
      | none =>
          rw [Function.asMethod, Heap.bodyFrame,
            sound.binding?_active task (List.mem_singleton_self _) persists reserved] at held
          cases held
      | some parent =>
          have room := (sound.ordinary_active task (List.mem_singleton_self _)).1
          have within := Frames.lt_size_of_enclosing?
            (moment.activity.machine.heap.enclosing?_declareClass moment.activity.machine.active
              declared.text methods parent)
          rw [Function.asMethod, Heap.bodyFrame, lasts.reserved _ within name reserved,
            Heap.binding?_declareClass _ _ _ room parent] at held
          obtain ⟨rfl, rfl⟩ := Bindings.of_get?_single held
          cases superclass with
          | none => cases inherits
          | some superclass =>
              obtain ⟨_, same, read⟩ := inherits
              obtain rfl := Option.some.inj same
              exact .method task read (List.fst_mem_of_mem_zipIdx numbered)

end Heap.Creation

end LoxLang
