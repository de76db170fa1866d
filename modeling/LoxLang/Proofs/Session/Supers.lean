import LoxLang.Proofs.Eval.Dispatch
import LoxLang.Proofs.Session.History

/-!
Methods of a superclass in the history of a session.  Code that refers to a superclass
stands in a method that a class declaration made and that was bound to a receiver later.
Both moments lie in the past of every read, and they alone decide what the read yields.
-/

namespace LoxLang

open Scope

/-- A class was declared with a body of methods, and this is what the name of its superclass
was bound to when the declaration was executed. -/
def Moment.DeclaresSubclass (moment : Moment) (methods : List Function) (superclass : ClassId) :
    Prop :=
  moment.ended = true ∧ ∃ name reference parent,
    moment.activity.task = .execute (.classDecl name (some (reference, parent)) methods) ∧
      Eval.readVariable moment.activity.access reference parent moment.activity.machine =
        .ok (.classRef superclass) moment.activity.machine

/-- A function was bound to a receiver. -/
def Moment.BindsMethod (moment : Moment) (method : Closure) (receiver : ObjectId) : Prop :=
  moment.ended = true ∧ ∃ id, moment.activity.task = .bind id receiver ∧
    moment.activity.machine.heap.closure id = method

/-- The past of a machine at which a reference to a superclass is carried out.  The
reference stands in a method of a subclass.  The method was made where the subclass was
declared and bound to a receiver after that, and the code that runs is inside this
binding. -/
def Machine.Inherits (machine : Machine) (past : List Moment) (id : RefId)
    (superclass : ClassId) (receiver : ObjectId) : Prop :=
  ∃ (earlier : List Moment) (declaring : Moment) (between : List Moment) (binding : Moment)
      (later : List Moment) (methods : List Function) (method : Function),
    past = earlier ++ declaring :: between ++ binding :: later ∧
      declaring.DeclaresSubclass methods superclass ∧ method ∈ methods ∧ id ∈ method.supers ∧
      binding.BindsMethod (method.asMethod declaring.activity.machine.heap.frames.size) receiver ∧
      machine.heap.frames.holder? machine.active (thisName 0).text =
        some binding.activity.machine.heap.frames.size

/-- References are covered in every session. -/
theorem Session.upholds_isCovered : Session.Upholds Heap.IsCovered Activity.IsCovered where
  toKeeps := keeps_isCovered
  initial id present := absurd present (Nat.not_lt_zero id)
  programs _ _ _ _ _ _ machine active _ := by
    unfold Activity.IsCovered
    rw [active]
    exact .globals

/-- A method that stands beside a superclass was made by the declaration of a subclass. -/
theorem Heap.Spans.exists_declaration {start final : Heap} {moments : List Moment}
    (spans : start.Spans moments final) (empty : start.closures.size = 0) {id : ClosureId}
    (present : id < final.closures.size) {superclass : ClassId}
    (held : final.frames.binding? (final.closure id).frame (superName 0).text =
      some (.classRef superclass)) :
    ∃ (earlier : List Moment) (declaring : Moment) (later : List Moment) (methods : List Function)
        (method : Function),
      moments = earlier ++ declaring :: later ∧ declaring.DeclaresSubclass methods superclass ∧
        method ∈ methods ∧
        final.closure id = method.asMethod declaring.activity.machine.heap.frames.size := by
  obtain ⟨earlier, declaring, later, parted, creation⟩ :=
    spans.exists_creation (empty ▸ Nat.zero_le id) present
  have made := creation.makesInside super_not_isOrdinary held
  generalize final.closure id = closure at made
  generalize text : (superName 0).text = name at made
  generalize same : Value.classRef superclass = value at made
  cases made with
  | bound task => exact absurd text.symm this_ne_super
  | @method className parent reference methods type method task read listed =>
      obtain rfl := Value.classRef.inj same
      exact ⟨earlier, declaring, later, methods, method, parted,
        ⟨creation.ended, className, reference, parent, task, read⟩, listed, rfl⟩

/-- A function that stands beside a receiver was made by binding another to it. -/
theorem Heap.Spans.exists_binding {start final : Heap} {moments : List Moment}
    (spans : start.Spans moments final) (empty : start.closures.size = 0) {id : ClosureId}
    (present : id < final.closures.size) {receiver : ObjectId}
    (held : final.frames.binding? (final.closure id).frame (thisName 0).text =
      some (.object receiver)) :
    ∃ earlier binding later method,
      moments = earlier ++ binding :: later ∧ Creation start earlier binding later final id ∧
        binding.activity.task = .bind method receiver ∧
        final.closure id = { binding.activity.machine.heap.closure method with
          frame := binding.activity.machine.heap.frames.size } := by
  obtain ⟨earlier, binding, later, parted, creation⟩ :=
    spans.exists_creation (empty ▸ Nat.zero_le id) present
  have made := creation.makesInside this_not_isOrdinary held
  generalize final.closure id = closure at made
  generalize text : (thisName 0).text = name at made
  generalize same : Value.object receiver = value at made
  cases made with
  | @bound method other task =>
      obtain rfl := Value.object.inj same
      exact ⟨earlier, binding, later, method, parted, creation, task, rfl⟩
  | method task read listed => exact absurd text this_ne_super

/-- A method that is bound was there before, and it stands around the frame of its
receiver. -/
theorem Activity.IsSound.method_of_bind {code : Code} {activity : Activity}
    (sound : activity.IsSound code) {method : ClosureId} {receiver : ObjectId}
    (task : activity.task = .bind method receiver) {later : Heap}
    (persists : activity.final.heap.Persists later) :
    method < activity.machine.heap.closures.size ∧
      later.frames.enclosing? activity.machine.heap.frames.size =
        some (activity.machine.heap.closure method).frame ∧
      ∀ name, ¬ IsOrdinary name →
        later.frames.binding? (activity.machine.heap.closure method).frame name =
          activity.machine.heap.frames.binding? (activity.machine.heap.closure method).frame
            name := by
  have through := (sound.persists_of_maker (by rw [task]; rfl)).trans persists
  have final : activity.final.heap = activity.machine.heap.bindMethod method receiver := by
    simp only [Activity.final, task, Eval.bind_apply]
    rfl
  have encloses := activity.machine.heap.enclosing?_bindMethod method receiver
  rw [final] at persists
  obtain ⟨-, layout, conforms, isMethod⟩ := sound
  rw [task] at isMethod
  have exists_ : method < activity.machine.heap.closures.size := isMethod.1
  refine ⟨exists_, ?_, fun name reserved => ?_⟩
  · rw [persists.enclosing _ (Frames.lt_size_of_enclosing? encloses)]
    exact encloses
  · exact through.reserved _ (conforms.closures method exists_) name reserved

/-- A reference to a superclass is carried out inside a method that was bound. -/
theorem Machine.Dispatches.inherits {code : Code} {layout : Layout} {machine : Machine}
    {distance : Nat} {receiver : ObjectId} {superclass : ClassId} {inner outer : FrameId}
    (dispatches : machine.Dispatches distance receiver superclass inner outer)
    (conforms : Conforms code layout machine.heap) {ids : List RefId}
    (covers : machine.heap.Covers ids machine.active) {id : RefId} (member : id ∈ ids)
    {start : Heap} {past : List Moment} (spans : start.Spans past machine.heap)
    (empty : start.closures.size = 0) : machine.Inherits past id superclass receiver := by
  have bound : (machine.heap.frames.binding? inner (thisName 0).text).isSome := by
    rw [dispatches.receiver]
    rfl
  obtain ⟨copy, present, stands, contains⟩ :=
    covers.exists_closure conforms dispatches.reaches bound
  have received : machine.heap.frames.binding? (machine.heap.closure copy).frame
      (thisName 0).text = some (.object receiver) := by
    rw [stands]
    exact dispatches.receiver
  obtain ⟨before, binding, later, bindable, rfl, creation, task, copied⟩ :=
    spans.exists_binding empty present received
  obtain ⟨ended, ⟨bindingCode, sound⟩, isMaker, earlier, onward, -, -⟩ := creation
  rw [copied] at stands contains
  obtain rfl : binding.activity.machine.heap.frames.size = inner := stands
  obtain ⟨exists_, encloses, held⟩ := sound.method_of_bind task onward.persists
  -- The superclass is in the frame around that of the receiver, where the method stands.
  obtain rfl := Option.some.inj (dispatches.encloses.symm.trans encloses)
  have held := held _ super_not_isOrdinary
  obtain ⟨oldest, declaring, between, methods, method, rfl, declares, listed, made⟩ :=
    earlier.exists_declaration empty exists_ (held.symm.trans dispatches.superclass)
  rw [made] at contains
  refine ⟨oldest, declaring, between, binding, later, methods, method, rfl, declares, listed,
    contains member, ⟨ended, bindable, task, made⟩, ?_⟩
  exact dispatches.reaches.holder?_eq conforms.ordered this_not_isOrdinary bound

/-- In every session, a reference to a superclass stands in a method of a class declaration,
and the method was bound to a receiver.  Reading a method through the reference finds it
from the class on that the name of the superclass was bound to when the declaration was
executed, and binds it to the same receiver.  It fails exactly if there is none. -/
theorem super_finds_inherited (input : Bytes) (clock : Nat → Float) (requests : List Request) :
    let session := Session.initial input clock
    ∀ (before : List Moment) (moment : Moment) (after : List Moment),
      session.history requests = before ++ moment :: after →
      moment.ended = false → ∀ id line name remaining,
        moment.activity.task = .evaluate (.superMethod id line name) →
        moment.activity.fuel = remaining + 1 →
          ∃ superclass receiver, moment.machine.Inherits before id superclass receiver ∧
            Eval.evaluate moment.activity.access moment.activity.fuel
                (.superMethod id line name) moment.machine =
              match moment.machine.heap.findMethod? superclass name.text with
              | some found => (Value.function <$> Eval.bind found receiver) moment.machine
              | none =>
                  .error (.fault ⟨.undefinedProperty name.text, name.token⟩) moment.machine := by
  intro session before moment after parted begins id line name remaining task fuel
  obtain ⟨ready, flagged⟩ := (Session.Reachable.initial input clock).isReady
  obtain ⟨spans, -, kept⟩ := Session.upholds_isCovered.history ready flagged
    Session.upholds_isCovered.initial requests
  obtain ⟨⟨code, sound⟩, covers, -, -⟩ := kept moment (by rw [parted]; simp)
  rw [parted] at spans
  have past := spans.upTo begins
  obtain ⟨distance, receiver, superclass, inner, outer, entry, dispatches⟩ :=
    sound.dispatches task
  rw [Moment.machine_of_begins begins] at past ⊢
  unfold Activity.IsCovered at covers
  rw [task] at covers
  obtain ⟨-, layout, conforms, -⟩ := sound
  refine ⟨superclass, receiver, dispatches.inherits conforms covers ?_ past rfl, ?_⟩
  · exact Reference.mem_supers.mpr ⟨_, List.mem_singleton_self _, rfl, rfl⟩
  · rw [fuel]
    refine Eq.trans ?_ (dispatches.readSuper_apply entry name)
    rfl

/-- A function that a method returned refers to the superclass after the name of the
superclass was given another value. -/
theorem super_finds_inherited_escaped :
    let session := Session.initial [] fun _ => 0
    let later := Bytes.ofString
      "{class B<A{t(){fun f(){super.m;}return f;}}class C<B{m(){}}var f=C().t();A=nil;f();}"
    let requests : List Request :=
      [.run 30 (Bytes.ofString "class A{m(){}}") false, .run 30 later false]
    let name : Name := ⟨Bytes.ofString "m", 1⟩
    ∃ (before : List Moment) (moment : Moment) (after : List Moment),
      session.history requests = before ++ moment :: after ∧
      moment.ended = false ∧ moment.activity.task = .evaluate (.superMethod 1 1 name) ∧
        ∃ superclass receiver, moment.machine.Inherits before 1 superclass receiver ∧
          Eval.evaluate moment.activity.access moment.activity.fuel (.superMethod 1 1 name)
              moment.machine =
            match moment.machine.heap.findMethod? superclass name.text with
            | some found => (Value.function <$> Eval.bind found receiver) moment.machine
            | none => .error (.fault ⟨.undefinedProperty name.text, name.token⟩)
                moment.machine := by
  intro session later requests name
  have computed : ((session.history requests)[65]?).map (fun moment : Moment =>
      (moment.ended, moment.activity.fuel, moment.activity.task)) =
        some (false, 17, .evaluate (.superMethod 1 1 name)) := by
    unfold session requests later name
    cbv
  obtain ⟨moment, found, same⟩ := Option.map_eq_some_iff.mp computed
  simp only [Prod.mk.injEq] at same
  obtain ⟨begins, fuel, task⟩ := same
  obtain ⟨before, after, parted⟩ := List.append_of_mem (List.mem_of_getElem? found)
  exact ⟨before, moment, after, parted, begins, task,
    super_finds_inherited [] (fun _ => 0) requests before moment after parted begins 1 1 name 16
      task fuel⟩

end LoxLang
