import LoxLang.Proofs.Eval.Initializers
import LoxLang.Proofs.Session.History

/-!
Returns and initializers in the history of a session.  No statement of the top level ends
with a return, a class yields a new instance of it, and an initializer that was bound
yields its receiver wherever it is called.
-/

namespace LoxLang

open Scope

namespace Session

/-- Functions return where they may in every session. -/
theorem upholds_returnsWell : Session.Upholds Heap.ReturnsWell Activity.ReturnsWell where
  toKeeps := keeps_returnsWell
  initial := .initial
  programs ready silent statement member fuel interactive machine active grounded := by
    have returns := (Stmt.allReturnIn_of_resolve (silent_of_checked silent).2).returnsIn member
    unfold Activity.ReturnsWell
    cases statement with
    | expression value echo =>
        simp only [Stmt.topLevelTask]
        split
        · trivial
        · exact ⟨.none, returns⟩
    | _ => exact ⟨.none, returns⟩

/-- A statement of the top level does not end with a return. -/
theorem normal_of_execute {session : Session} {source : Bytes}
    (silent : (session.checked source).hadError = false) {statement : Stmt}
    (listed : statement ∈ (session.parsed source).statements) {access : Access} {fuel : Nat}
    {machine after : Machine} {completion : Completion}
    (ends : Eval.execute access fuel statement machine = .ok completion after) :
    completion = .normal := by
  have returns := (Stmt.allReturnIn_of_resolve (silent_of_checked silent).2).returnsIn listed
  have allows := (Eval.CompletesWell.all access fuel).execute returns machine completion after ends
  cases completion with
  | normal => rfl
  | returned value => exact absurd rfl allows.1

/-- At every moment functions return where they may. -/
theorem returnsWell_of_mem_heaps {session : Session} (ready : session.IsReady)
    (flagged : session.IsFlagged) (starts : session.machine.heap.ReturnsWell)
    {requests : List Request} {heap : Heap} (member : heap ∈ session.heaps requests) :
    heap.ReturnsWell := by
  obtain ⟨-, ends, kept⟩ := upholds_returnsWell.history ready flagged starts requests
  unfold heaps at member
  rw [List.cons_append, List.mem_cons, List.mem_append, List.mem_map, List.mem_singleton] at member
  rcases member with rfl | ⟨moment, inHistory, rfl⟩ | rfl
  · exact starts
  · exact (kept moment inHistory).holds
  · exact ends

end Session

/-- The body of an initializer returns nothing but `nil`. -/
theorem Heap.ReturnsWell.eq_nil_of_returned {heap : Heap} (returns : heap.ReturnsWell)
    {id : ClosureId} (present : id < heap.closures.size)
    (initializes : (heap.closure id).isInitializer = true) {access : Access} {fuel : Nat}
    {machine after : Machine} {value : Value}
    (ends : Eval.executeAll access fuel (heap.closure id).declaration.body machine =
      .ok (.returned value) after) : value = .nil := by
  obtain ⟨form, body, isInitializer⟩ := returns.bodies id present
  have allows := (Eval.CompletesWell.all access fuel).executeAll
    (Function.returnsIn_iff.mp body) machine _ after ends
  exact allows.2 (isInitializer initializes)

/-- A method named `init` that was bound to a receiver: the function that stands for it. -/
structure Moment.BindsInitializer (moment : Moment) (id : ClosureId) (receiver : ObjectId) :
    Prop where
  ended : moment.ended = true
  bound : ∃ method made, moment.activity.task = .bind method receiver ∧
    Eval.bind method receiver moment.activity.machine = .ok id made ∧
      (moment.activity.machine.heap.closure method).declaration.name.text = initializerName

/-- A function that stands for an initializer has its receiver at hand ever after. -/
theorem Moment.BindsInitializer.lasts {moment : Moment} {id : ClosureId} {receiver : ObjectId}
    (binds : moment.BindsInitializer id receiver) (returns : moment.activity.ReturnsWell)
    {later : Heap} (persists : moment.machine.heap.Persists later) :
    (later.closure id).isInitializer = true ∧
      (later.closure id).frame < later.frames.size ∧
      later.frames.binding? (later.closure id).frame (thisName 0).text =
        some (.object receiver) := by
  obtain ⟨ended, method, made, task, bound, named⟩ := binds
  rw [Eval.bind_apply, EStateM.Result.ok.injEq] at bound
  obtain ⟨rfl, -⟩ := bound
  have final : moment.machine.heap = moment.activity.machine.heap.bindMethod method receiver := by
    rw [Moment.machine_of_ended ended]
    simp only [Activity.final, task, Eval.bind_apply]
    rfl
  rw [final] at persists
  have room : moment.activity.machine.heap.frames.size <
      (moment.activity.machine.heap.bindMethod method receiver).frames.size := by
    simp [Heap.bindMethod, Heap.addFrame, Heap.addClosure]
  rw [persists.closure _ (by simp [Heap.bindMethod, Heap.addFrame, Heap.addClosure]),
    Heap.closure_bindMethod]
  unfold Activity.ReturnsWell at returns
  rw [task] at returns
  refine ⟨returns.mpr named, Nat.lt_of_lt_of_le room persists.frames, ?_⟩
  rw [persists.reserved _ room _ this_not_isOrdinary, Heap.binding?_bindMethod]
  rfl

/-- What the name of the receiver is bound to does not change during a task. -/
theorem Activity.IsSound.eq_receiver {code : Code} {activity : Activity}
    (sound : activity.IsSound code) {frame : FrameId} {receiver : ObjectId}
    (present : frame < activity.machine.heap.frames.size)
    (received : activity.machine.heap.frames.binding? frame (thisName 0).text =
      some (.object receiver)) {value : Value}
    (found : activity.final.heap.frames.binding? frame (thisName 0).text = some value) :
    value = .object receiver := by
  have lasting := (sound.spans []).persists.reserved _ present _ this_not_isOrdinary
  rw [received, found] at lasting
  exact Option.some.inj lasting

/-- In every session, a statement of the top level that ends does not end with a return.
The methods named `init` are the initializers, and the body of an initializer never returns
a value other than `nil`.  A call of a class that completes yields an instance of exactly
that class, one that did not exist before.  Calling a function that stands for an
initializer bound to a receiver yields the receiver if it completes. -/
theorem returns_stay_inside (input : Bytes) (clock : Nat → Float) (requests : List Request) :
    let session := Session.initial input clock
    (∀ source, ((session.performAll requests).checked source).hadError = false →
      ∀ statement ∈ ((session.performAll requests).parsed source).statements,
        ∀ access fuel machine completion after,
          Eval.execute access fuel statement machine = .ok completion after →
            completion = .normal) ∧
    (∀ heap ∈ session.heaps requests,
      (∀ type method, heap.ownMethod? initializerName type = some method →
        method < heap.closures.size ∧ (heap.closure method).isInitializer = true) ∧
      ∀ id < heap.closures.size, (heap.closure id).isInitializer = true →
        ∀ access fuel machine value after,
          Eval.executeAll access fuel (heap.closure id).declaration.body machine =
              .ok (.returned value) after → value = .nil) ∧
    (∀ access fuel type arguments line machine value after,
      Eval.call access fuel (.classRef type) arguments line machine = .ok value after →
        ∃ place, value = .object place ∧ machine.heap.objects.size ≤ place ∧
          place < after.heap.objects.size ∧ (after.heap.object place).type = type) ∧
    ∀ (before : List Moment) (moment : Moment) (after : List Moment),
      session.history requests = before ++ moment :: after →
      moment.ended = false →
      ∀ binding ∈ before, ∀ id receiver, binding.BindsInitializer id receiver →
        ∀ arguments value left,
          (moment.activity.task = .invoke id arguments →
            Eval.invoke moment.activity.access moment.activity.fuel id arguments moment.machine =
              .ok value left → value = .object receiver) ∧
          ∀ line, moment.activity.task = .call (.function id) arguments line →
            Eval.call moment.activity.access moment.activity.fuel (.function id) arguments line
              moment.machine = .ok value left → value = .object receiver := by
  intro session
  obtain ⟨ready, flagged⟩ := (Session.Reachable.initial input clock).isReady
  refine ⟨fun source silent statement listed access fuel machine completion after =>
      Session.normal_of_execute silent listed,
    fun heap member => ?_,
    fun access fuel type arguments line machine value after => Eval.object_of_call,
    fun before moment after parted begins binding earlier id receiver binds arguments value left =>
      ?_⟩
  · have returns := Session.returnsWell_of_mem_heaps ready flagged .initial member
    refine ⟨fun type method found => ?_,
      fun id present initializes access fuel machine value after =>
        returns.eq_nil_of_returned present initializes⟩
    obtain ⟨present, -, initializes⟩ := returns.methods type initializerName method found
    exact ⟨present, initializes.mpr rfl⟩
  · obtain ⟨spans, -, kept⟩ := Session.upholds_returnsWell.history ready flagged .initial requests
    obtain ⟨-, returns, -, -⟩ := kept binding (by rw [parted]; exact List.mem_append_left _ earlier)
    obtain ⟨⟨code, sound⟩, -, -, -⟩ := kept moment (by rw [parted]; simp)
    rw [parted] at spans
    obtain ⟨initializes, present, received⟩ := binds.lasts returns
      ((spans.upTo begins).persists_of_mem earlier)
    rw [Moment.machine_of_begins begins] at initializes present received ⊢
    refine ⟨fun task yields => sound.eq_receiver present received ?_,
      fun line task yields => sound.eq_receiver present received ?_⟩
    · simp only [Activity.final, task, yields, Eval.lastMachine]
      exact Eval.binding?_of_invoke initializes yields
    · simp only [Activity.final, task, yields, Eval.lastMachine]
      exact Eval.binding?_of_call initializes yields

/-- An initializer that is read from an instance and called again, although its body
returns. -/
theorem returns_stay_inside_again :
    let session := Session.initial [] fun _ => 0
    let requests : List Request :=
      [.run 20 (Bytes.ofString "class A{init(){return;}}") false,
        .run 20 (Bytes.ofString "A().init();") false]
    ∃ (before : List Moment) (moment : Moment) (after : List Moment),
      session.history requests = before ++ moment :: after ∧
      moment.ended = false ∧
      ∃ binding ∈ before, binding.BindsInitializer 2 0 ∧
        moment.activity.task = .call (.function 2) [] 1 ∧
          ∃ value left, Eval.call moment.activity.access moment.activity.fuel (.function 2) [] 1
            moment.machine = .ok value left ∧ value = .object 0 := by
  intro session requests
  have first : ((session.history requests)[24]?).map (fun moment : Moment =>
      (moment.ended, moment.activity.task, moment.activity.machine.heap.closures.size,
        (moment.activity.machine.heap.closure 0).declaration.name.text)) =
        some (true, .bind 0 0, 2, initializerName) := by
    unfold session requests
    cbv
  have second : ((session.history requests)[28]?).map (fun moment : Moment =>
      (moment.ended, moment.activity.task,
        ((Eval.call moment.activity.access moment.activity.fuel (.function 2) [] 1).run'
          moment.machine).isSome)) = some (false, .call (.function 2) [] 1, true) := by
    unfold session requests
    cbv
  obtain ⟨binding, foundBinding, same⟩ := Option.map_eq_some_iff.mp first
  simp only [Prod.mk.injEq] at same
  obtain ⟨ended, boundTask, size, named⟩ := same
  obtain ⟨moment, found, same⟩ := Option.map_eq_some_iff.mp second
  simp only [Prod.mk.injEq] at same
  obtain ⟨begins, task, completes⟩ := same
  obtain ⟨room, found⟩ := List.getElem?_eq_some_iff.mp found
  have parted : session.history requests =
      (session.history requests).take 28 ++ moment :: (session.history requests).drop 29 := by
    rw [← found, ← List.drop_eq_getElem_cons room, List.take_append_drop]
  have earlier : binding ∈ (session.history requests).take 28 := by
    apply List.mem_of_getElem? (i := 24)
    rw [List.getElem?_take_of_lt (by decide)]
    exact foundBinding
  have binds : binding.BindsInitializer 2 0 :=
    ⟨ended, 0, _, boundTask, by rw [Eval.bind_apply, size], named⟩
  refine ⟨_, moment, _, parted, begins, binding, earlier, binds, task, ?_⟩
  cases result : Eval.call moment.activity.access moment.activity.fuel (.function 2) [] 1
      moment.machine with
  | ok value left =>
      exact ⟨value, left, rfl, ((returns_stay_inside [] (fun _ => 0) requests).2.2.2 _ moment _
        parted begins binding earlier 2 0 binds [] value left).2 1 task result⟩
  | error stop left =>
      rw [EStateM.run', EStateM.run, result] at completes
      cases completes

end LoxLang
