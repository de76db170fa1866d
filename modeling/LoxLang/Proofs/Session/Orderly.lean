import LoxLang.Proofs.Session.History

/-!
The heap of a session is orderly at every moment.  Chains of frames lead to the globals and
chains of classes come to an end, so every search along them does.  Nothing is ever removed,
and the frame of a receiver or of a superclass holds it, and nothing else, forever.
-/

namespace LoxLang

open Scope

/-- A frame binds one name, and nothing else. -/
def Frames.HoldsOnly (frames : Frames) (frame : FrameId) (name : Bytes) (value : Value) : Prop :=
  ∀ text, frames.binding? frame text = if text = name then some value else none

/-- What is true of a heap at every moment. -/
structure Heap.IsOrderly (heap : Heap) : Prop where
  older : ∀ frame outer, heap.frames.enclosing? frame = some outer → outer < frame
  root : ∀ frame < heap.frames.size, heap.frames.enclosing? frame = none ↔ frame = globals
  chains : ∀ frame < heap.frames.size,
    Walk heap.frames.enclosing? frame (heap.frames.chain frame) ∧
      ∃ path, heap.frames.chain frame = path ++ [globals]
  closures : ∀ id < heap.closures.size, (heap.closure id).frame < heap.frames.size
  receivers : ∀ frame value, heap.frames.binding? frame (thisName 0).text = some value →
    (∃ place, value = .object place) ∧ heap.frames.HoldsOnly frame (thisName 0).text value
  superclasses : ∀ frame value, heap.frames.binding? frame (superName 0).text = some value →
    (∃ type, value = .classRef type) ∧ heap.frames.HoldsOnly frame (superName 0).text value
  parents : ∀ type parent, heap.superclass? type = some parent → parent < type
  lineages : ∀ type, Walk heap.superclass? type (heap.lineage type)
  reads : ∀ frame name, ∃ result,
    Search (fun candidate => heap.frames.binding? candidate name) heap.frames.enclosing? frame
        result ∧
      heap.frames.get frame name = match result with
        | some value => .ok value
        | none => .error (.undefinedVariable name)
  assigns : ∀ frame name value, ∃ result,
    Search (heap.frames.holds? name) heap.frames.enclosing? frame result ∧
      heap.frames.assign frame name value = match result with
        | some holder => .ok (heap.frames.define holder name value)
        | none => .error (.undefinedVariable name)
  methods : ∀ type name result,
    Search (heap.ownMethod? name) heap.superclass? type result ↔
      heap.findMethod? type name = result

theorem Frames.holdsOnly_iff {frames : Frames} {frame : FrameId} {name : Bytes} {value : Value} :
    frames.HoldsOnly frame name value ↔ frames.binding? frame name = some value ∧
      ∀ text, (frames.binding? frame text).isSome → text = name := by
  constructor
  · intro only
    refine ⟨by rw [only, if_pos rfl], fun text bound => ?_⟩
    by_contra other
    rw [only, if_neg other] at bound
    cases bound
  · intro only text
    by_cases same : text = name
    · rw [same, if_pos rfl, only.1]
    · rw [if_neg same, ← Option.not_isSome_iff_eq_none]
      exact fun bound => same (only.2 text bound)

namespace Conforms

variable {code : Code} {layout : Layout} {heap : Heap}

theorem holdsOnly (conforms : Conforms code layout heap) {frame : FrameId} {name : Bytes}
    {value : Value} (reserved : ¬ IsOrdinary name)
    (bound : heap.frames.binding? frame name = some value) :
    heap.frames.HoldsOnly frame name value := by
  have found : (heap.frames.binding? frame name).isSome := by
    rw [bound]
    rfl
  exact Frames.holdsOnly_iff.mpr ⟨bound, fun text => conforms.eq_of_reserved reserved found⟩

theorem isOrderly (conforms : Conforms code layout heap) : heap.IsOrderly where
  older := conforms.ordered
  root frame bound := by
    constructor
    · intro ends
      by_contra inside
      obtain ⟨outer, encloses⟩ := conforms.enclosed frame bound inside
      rw [ends] at encloses
      cases encloses
    · intro isGlobal
      rw [isGlobal]
      exact conforms.toIsGrounded.enclosing?_globals
  chains frame bound :=
    ⟨conforms.ordered.walk_chain frame, conforms.toIsGrounded.chain_eq bound⟩
  closures := conforms.closures
  receivers frame value bound :=
    ⟨conforms.receiver frame value bound, conforms.holdsOnly this_not_isOrdinary bound⟩
  superclasses frame value bound :=
    ⟨conforms.superclass frame value bound, conforms.holdsOnly super_not_isOrdinary bound⟩
  parents := conforms.toIsGrounded.superclasses
  lineages := conforms.toIsGrounded.walk_lineage
  reads := conforms.ordered.get_eq
  assigns frame name value := ⟨_, conforms.ordered.holder?_iff.mpr rfl, rfl⟩
  methods type name result := conforms.toIsGrounded.findMethod?_iff

end Conforms

theorem Frames.HoldsOnly.ofSingle {frames : Frames} {frame : FrameId} {name : Bytes}
    {value : Value}
    (found : ∀ text, frames.binding? frame text = Bindings.get? [(name, value)] text) :
    frames.HoldsOnly frame name value :=
  found

namespace Heap.Persists

variable {earlier later : Heap} {code : Code} {layout : Layout}

/-- What a frame holds alone it holds alone forever. -/
theorem holdsOnly (persists : earlier.Persists later) (conforms : Conforms code layout later)
    {frame : FrameId} {name : Bytes} {value : Value} (reserved : ¬ IsOrdinary name)
    (only : earlier.frames.HoldsOnly frame name value) :
    later.frames.HoldsOnly frame name value := by
  have bound := (Frames.holdsOnly_iff.mp only).1
  have within := Frames.lt_size_of_binding? (by rw [bound]; rfl : Option.isSome _ = true)
  apply conforms.holdsOnly reserved
  rw [persists.reserved frame within name reserved]
  exact bound

/-- A class keeps its methods. -/
theorem ownMethod?_map (persists : earlier.Persists later) (conforms : Conforms code layout earlier)
    {type : ClassId} (exists_ : type < earlier.classes.size) (name : Bytes) :
    (later.ownMethod? name type).map (fun id => (later.closure id).declaration) =
      (earlier.ownMethod? name type).map fun id => (earlier.closure id).declaration := by
  unfold ownMethod?
  rw [persists.classOf type exists_]
  refine Option.map_congr fun id found => ?_
  rw [persists.closure id (conforms.methods type name id found).1]

end Heap.Persists

/-- What a task that ended has left in a later heap.  Binding a method made a frame for the
receiver.  A class declaration that completed made a class with the last method of each
name and, if it has a superclass, a frame for it. -/
structure Activity.Leaves (activity : Activity) (later : Heap) : Prop where
  bound : ∀ method receiver, activity.task = .bind method receiver →
    later.frames.enclosing? activity.machine.heap.frames.size =
        some (activity.machine.heap.closure method).frame ∧
      later.frames.HoldsOnly activity.machine.heap.frames.size (thisName 0).text
        (.object receiver)
  declared : ∀ name superclass methods completion after,
    activity.task = .execute (.classDecl name superclass methods) →
    Eval.execute activity.access activity.fuel (.classDecl name superclass methods)
        activity.machine = .ok completion after →
      ∃ parent, activity.access.Inherits activity.machine superclass parent ∧
        later.superclass? activity.machine.heap.classes.size = parent ∧
        (∀ wanted, (later.ownMethod? wanted activity.machine.heap.classes.size).map
            (fun id => (later.closure id).declaration) =
          methods.reverse.find? fun method => method.name.text = wanted) ∧
        ∀ type, parent = some type →
          later.frames.enclosing? activity.machine.heap.frames.size =
              some activity.machine.active ∧
            later.frames.HoldsOnly activity.machine.heap.frames.size (superName 0).text
              (.classRef type)

theorem Heap.Persists.enclosing?_eq {earlier later : Heap} (persists : earlier.Persists later)
    {frame outer : FrameId} (encloses : earlier.frames.enclosing? frame = some outer) :
    later.frames.enclosing? frame = some outer := by
  rw [persists.enclosing frame (Frames.lt_size_of_enclosing? encloses)]
  exact encloses

theorem Activity.IsSound.leaves {code : Code} {activity : Activity} (sound : activity.IsSound code)
    {later : Heap} {laterCode : Code} {layout : Layout}
    (conforms : Conforms laterCode layout later)
    (persists : activity.final.heap.Persists later) : activity.Leaves later where
  bound method receiver task := by
    have heap : activity.final.heap = activity.machine.heap.bindMethod method receiver := by
      simp only [Activity.final, task, Eval.bind_apply]
      rfl
    rw [heap] at persists
    exact ⟨persists.enclosing?_eq (Heap.enclosing?_bindMethod _ method receiver),
      persists.holdsOnly conforms this_not_isOrdinary
        (.ofSingle (Heap.binding?_bindMethod _ method receiver))⟩
  declared name superclass methods completion after task completed := by
    obtain ⟨parent, inherits, heap⟩ := sound.final_of_classDecl task completed
    obtain ⟨finalLayout, conformsFinal⟩ := sound.conforms_final
    have within := (sound.ordinary_active task (List.mem_singleton_self _)).1
    rw [heap] at persists conformsFinal
    have made : activity.machine.heap.classes.size <
        (activity.machine.heap.declareClass activity.machine.active name.text parent
          methods).classes.size := by
      rw [Heap.classes_declareClass, Array.size_push]
      exact Nat.lt_succ_self _
    refine ⟨parent, inherits, ?_, fun wanted => ?_, fun type isParent => ?_⟩
    · rw [Heap.superclass?, persists.classOf _ made, Heap.classOf_declareClass]
    · rw [persists.ownMethod?_map conformsFinal made]
      exact Heap.ownMethod?_declareClass ..
    · subst isParent
      exact ⟨persists.enclosing?_eq (Heap.enclosing?_declareClass ..),
        persists.holdsOnly conforms super_not_isOrdinary
          (.ofSingle (Heap.binding?_declareClass _ _ _ within type))⟩

namespace Session

variable {session : Session}

/-- At every moment the heap keeps to a layout. -/
theorem conforms_of_mem_heaps (ready : session.IsReady) (flagged : session.IsFlagged)
    {requests : List Request} {heap : Heap} (member : heap ∈ session.heaps requests) :
    ∃ code layout, Conforms code layout heap := by
  unfold heaps at member
  rw [List.cons_append, List.mem_cons, List.mem_append, List.mem_map, List.mem_singleton] at member
  rcases member with rfl | ⟨moment, inHistory, rfl⟩ | rfl
  · exact ⟨_, ready.conforms⟩
  · exact ((upholds_true.history ready flagged trivial requests).2.2 moment inHistory).conforms
  · exact ⟨_, (ready.performAll flagged requests).conforms⟩

end Session

/-- In every session the heap is orderly at every moment, and nothing is lost or changed
that should stay: frames keep their enclosing frames and their names, receivers and
superclasses are never overwritten, and functions and classes stay as they were made.  What
binding a method or declaring a class made is there ever after. -/
theorem history_isOrderly (input : Bytes) (clock : Nat → Float) (requests : List Request) :
    let session := Session.initial input clock
    (∀ heap ∈ session.heaps requests, heap.IsOrderly) ∧
    (session.heaps requests).Pairwise Heap.Persists ∧
    ∀ (before : List Moment) (moment : Moment) (after : List Moment),
      session.history requests = before ++ moment :: after →
      moment.ended = true →
        ∀ later ∈ moment.machine.heap :: after.map (fun moment => moment.machine.heap) ++
            [(session.performAll requests).machine.heap],
          moment.activity.Leaves later := by
  intro session
  obtain ⟨ready, flagged⟩ := (Session.Reachable.initial input clock).isReady
  obtain ⟨spans, -, kept⟩ := Session.upholds_true.history ready flagged trivial requests
  refine ⟨fun heap member => ?_, spans.pairwise, fun before moment after parted ended later member => ?_⟩
  · obtain ⟨code, layout, conforms⟩ := Session.conforms_of_mem_heaps ready flagged member
    exact conforms.isOrderly
  · have inHeaps : later ∈ session.heaps requests := by
      unfold Session.heaps
      rw [parted]
      simp only [List.map_append, List.map_cons, List.cons_append, List.mem_cons,
        List.mem_append, List.append_assoc] at member ⊢
      tauto
    obtain ⟨code, layout, conforms⟩ := Session.conforms_of_mem_heaps ready flagged inHeaps
    obtain ⟨momentCode, sound⟩ := (kept moment (by rw [parted]; simp)).sound
    rw [parted] at spans
    obtain ⟨middle, -, rest⟩ := spans.split
    have persists : moment.machine.heap.Persists later := by
      rw [List.cons_append, List.mem_cons] at member
      rcases member with rfl | further
      · exact .refl _
      · exact List.rel_of_pairwise_cons rest.2.pairwise further
    rw [Moment.machine_of_ended ended] at persists
    exact sound.leaves conforms persists

/-- A method of a class whose superclass an earlier request declared is bound.  At the end
the frame that was made for it holds the instance and nothing else. -/
theorem history_isOrderly_inherited :
    let session := Session.initial [] fun _ => 0
    let requests : List Request :=
      [.run 20 (Bytes.ofString "class A{}") false, .clear,
        .run 20 (Bytes.ofString "{class B<A{m(){}m(){}}B().m;}") false]
    let final := (session.performAll requests).machine.heap
    ∃ (before : List Moment) (moment : Moment) (after : List Moment),
      session.history requests = before ++ moment :: after ∧
      moment.ended = true ∧ moment.activity.task = .bind 1 0 ∧
        moment.activity.machine.heap.frames.size = 3 ∧
          final.frames.HoldsOnly 3 (thisName 0).text (.object 0) := by
  intro session requests final
  have computed : ((session.history requests)[20]?).map (fun moment : Moment =>
      (moment.ended, moment.activity.task, moment.activity.machine.heap.frames.size)) =
        some (true, .bind 1 0, 3) := by
    unfold session requests
    cbv
  obtain ⟨moment, found, same⟩ := Option.map_eq_some_iff.mp computed
  simp only [Prod.mk.injEq] at same
  obtain ⟨ended, task, size⟩ := same
  obtain ⟨before, after, parted⟩ := List.append_of_mem (List.mem_of_getElem? found)
  obtain ⟨-, -, leaves⟩ := history_isOrderly [] (fun _ => 0) requests
  have lasting := leaves before moment after parted ended final (by simp [final, session])
  have only := (lasting.bound 1 0 task).2
  rw [size] at only
  exact ⟨before, moment, after, parted, ended, task, size, only⟩

end LoxLang
