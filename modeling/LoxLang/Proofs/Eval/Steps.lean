import LoxLang.Proofs.Eval.Runs

/-!
The steps of a machine run soundly.  Making frames, functions, classes and
instances keeps to the layout, lookups at recorded distances succeed, and a
declaration makes its name certain in the active scope.
-/

namespace LoxLang

open Scope

open Config (Leads)

theorem Fits.lt_size {code : Code} {layout : Layout} {heap : Heap} {frame : FrameId}
    {around : List Region} (conforms : Conforms code layout heap)
    (fits : Fits layout heap.frames frame around) : frame < heap.frames.size := by
  cases around with
  | nil =>
      obtain rfl : frame = Heap.globals := fits
      exact conforms.rooted
  | cons region around =>
      obtain ⟨outer, encloses, -⟩ := fits
      exact Frames.lt_size_of_enclosing? encloses

/-- Binding a name in a frame makes it certain in the frame's scope. -/
theorem Fits.declared {layout : Layout} {frames : Frames} {frame : FrameId}
    {around : List Region} (fits : Fits layout frames frame around) (bound : frame < frames.size)
    (name : Bytes) (value : Value)
    (rest : ∀ {outer : FrameId} {outside : List Region}, Fits layout frames outer outside →
      Fits layout (frames.define frame name value) outer outside) :
    Fits layout (frames.define frame name value) frame (declared [name] around) := by
  cases around with
  | nil => exact fits
  | cons region around =>
      obtain ⟨outer, encloses, laid, binds, outside⟩ := fits
      refine ⟨outer, ?_, laid, ?_, rest outside⟩
      · rw [Frames.enclosing?_define]
        exact encloses
      · intro text complete
        rcases List.mem_append.mp complete with old | new
        · exact Frames.binding?_define_isSome value (binds text old)
        · obtain rfl := List.mem_singleton.mp new
          rw [Frames.binding?_define_self _ _ bound]
          rfl

theorem Fits.declared_nil {layout : Layout} {frames : Frames} {frame : FrameId}
    {around : List Region} (fits : Fits layout frames frame around) :
    Fits layout frames frame (Scope.declared [] around) := by
  rw [Scope.declared_nil]
  exact fits

/-- A pending declaration does not show in the frames. -/
theorem Fits.declaring {layout : Layout} {frames : Frames} {frame : FrameId}
    {around : List Region} (fits : Fits layout frames frame around) (name : Bytes) :
    Fits layout frames frame (declaring name around) := by
  cases around with
  | nil => exact fits
  | cons region around => exact fits

/-- Where names may be declared, the active frame is laid out for them. -/
theorem Fits.mem_layout {layout : Layout} {frames : Frames} {frame : FrameId}
    {around : List Region} {names : List Bytes} (fits : Fits layout frames frame around)
    (allows : Allows around names) {name : Bytes} (member : name ∈ names)
    (inside : frame ≠ Heap.globals) : name ∈ layout frame := by
  cases around with
  | nil => exact absurd fits inside
  | cons region around =>
      obtain ⟨outer, -, laid, -⟩ := fits
      rw [laid]
      exact (allows region rfl name member).2

/-- A method that is found belongs to some class. -/
theorem Conforms.isMethod_of_findMethod? {code : Code} {layout : Layout} {heap : Heap}
    (conforms : Conforms code layout heap) {type : ClassId} {name : Bytes} {method : ClosureId}
    (found : heap.findMethod? type name = some method) : IsMethod code layout heap method := by
  obtain ⟨candidate, held⟩ := Heap.exists_of_findMethod? found
  exact conforms.methods candidate name method held

/-- A frame with one binding. -/
theorem Conforms.Admits.single {code : Code} {layout : Layout} {heap : Heap} {name : Bytes}
    {value : Value} (valid : IsValid code layout heap value)
    (receiver : name = (thisName 0).text → ∃ place, value = .object place)
    (superclass : name = (superName 0).text → ∃ type, value = .classRef type) :
    Conforms.Admits code layout heap [name] [(name, value)] := by
  constructor
  · exact .single name
  · intro text found
    obtain ⟨held, reached⟩ := Option.isSome_iff_exists.mp found
    exact List.mem_singleton.mpr (Bindings.of_get?_single reached).1
  · intro text held found
    rw [(Bindings.of_get?_single found).2]
    exact valid
  · intro held found
    rw [(Bindings.of_get?_single found).2]
    exact receiver (Bindings.of_get?_single found).1.symm
  · intro held found
    rw [(Bindings.of_get?_single found).2]
    exact superclass (Bindings.of_get?_single found).1.symm

/-- The frame of a block starts out empty. -/
theorem Conforms.Admits.block {code : Code} {layout : Layout} {heap : Heap} {body : List Stmt}
    (regular : Stmt.IsRegularAll body) :
    Conforms.Admits code layout heap (Region.block body).all [] :=
  ⟨.ofOrdinary regular.ordinary_of_declaresAll, by simp [Bindings.get?], by simp [Bindings.get?],
    by simp [Bindings.get?], by simp [Bindings.get?]⟩

namespace Bindings

abbrev insertAll {α : Type} (bound : Bindings α) (pairs : List (Bytes × α)) : Bindings α :=
  pairs.foldl (fun (bound : Bindings α) (name, value) => bound.insert name value) bound

theorem mem_of_get?_insertAll {α : Type} {name : Bytes} {value : α} :
    ∀ {pairs : List (Bytes × α)} {bound : Bindings α},
      (bound.insertAll pairs).get? name = some value →
        (name, value) ∈ pairs ∨ bound.get? name = some value
  | [], _, found => .inr found
  | (key, held) :: rest, bound, found => by
      rcases @mem_of_get?_insertAll _ _ _ rest _ found with inRest | old
      · exact .inl (List.mem_cons_of_mem _ inRest)
      · by_cases same : name = key
        · subst same
          rw [get?_insert_self] at old
          obtain rfl := Option.some.inj old
          exact .inl List.mem_cons_self
        · rw [get?_insert_of_ne _ _ same] at old
          exact .inr old

theorem mem_of_insertAll_zip {α : Type} {names : List Bytes} {values : List α} {name : Bytes}
    (bound : ((insertAll [] (names.zip values)).get? name).isSome) : name ∈ names := by
  obtain ⟨value, found⟩ := Option.isSome_iff_exists.mp bound
  rcases mem_of_get?_insertAll found with paired | absent
  · exact (List.of_mem_zip paired).1
  · simp [get?] at absent

theorem get?_insertAll_isSome {α : Type} {name : Bytes} :
    ∀ {pairs : List (Bytes × α)} {bound : Bindings α},
      name ∈ pairs.map Prod.fst ∨ (bound.get? name).isSome →
        ((bound.insertAll pairs).get? name).isSome
  | [], _, held => by simpa using held
  | (key, value) :: rest, bound, held => by
      apply @get?_insertAll_isSome _ _ rest
      by_cases same : name = key
      · subst same
        simp
      · rw [get?_insert_of_ne _ _ same]
        simpa [same] using held

end Bindings

/-- The bindings of parameters to as many arguments. -/
theorem Conforms.Admits.parameters {code : Code} {layout : Layout} {heap : Heap}
    {parameters : List Name} {arguments : List Value} {names : List Bytes}
    (separate : IsSeparate names)
    (ordinary : ∀ parameter ∈ parameters, IsOrdinary parameter.text)
    (declared : ∀ parameter ∈ parameters, parameter.text ∈ names)
    (valid : ∀ value ∈ arguments, IsValid code layout heap value) :
    Conforms.Admits code layout heap names
      (Bindings.insertAll [] ((parameters.map Name.text).zip arguments)) := by
  have origin {text : Bytes} {value : Value} (found : (Bindings.insertAll []
      ((parameters.map Name.text).zip arguments)).get? text = some value) :
      (∃ parameter ∈ parameters, parameter.text = text) ∧ value ∈ arguments := by
    rcases Bindings.mem_of_get?_insertAll found with paired | absent
    · obtain ⟨left, right⟩ := List.of_mem_zip paired
      exact ⟨List.mem_map.mp left, right⟩
    · simp [Bindings.get?] at absent
  constructor
  · exact separate
  · intro text found
    obtain ⟨value, reached⟩ := Option.isSome_iff_exists.mp found
    obtain ⟨⟨parameter, member, rfl⟩, -⟩ := origin reached
    exact declared parameter member
  · intro text value found
    exact valid value (origin found).2
  · intro value found
    obtain ⟨⟨parameter, member, same⟩, -⟩ := origin found
    exact absurd same (ordinary parameter member).1
  · intro value found
    obtain ⟨⟨parameter, member, same⟩, -⟩ := origin found
    exact absurd same (ordinary parameter member).2

/-- The methods of an accepted class body are accepted. -/
theorem Code.accepts_of_sitesAll {code : Code} {around : List Region} :
    ∀ {functions : List Function}, Function.IsRegularAll functions →
      (∀ site ∈ Function.sitesAll around functions, code.AcceptsSite site) →
        ∀ function ∈ functions, code.AcceptsFunction around function
  | [], _, _, _, member => absurd member List.not_mem_nil
  | first :: rest, regular, accepts, function, member => by
      rcases List.mem_cons.mp member with rfl | inRest
      · exact ⟨regular.1, fun site inFirst => accepts site (List.mem_append_left _ inFirst)⟩
      · exact Code.accepts_of_sitesAll regular.2
          (fun site later => accepts site (List.mem_append_right _ later)) function inRest

namespace Runs

variable {code : Code} {before : Config}

theorem isValid_function {config : Config} {id : ClosureId} (callable : config.IsCallable code id) :
    config.IsValid code (.function id) := by
  refine ⟨fun other same => ?_, by simp⟩
  obtain rfl := Value.function.inj same
  exact callable

theorem isValid_classRef {config : Config} {type : ClassId}
    (bound : type < config.machine.heap.classes.size) : config.IsValid code (.classRef type) := by
  refine ⟨by simp, fun other same => ?_⟩
  obtain rfl := Value.classRef.inj same
  exact bound

theorem newFrame (conforms : before.Conforms code) {outer : FrameId} {around : List Region}
    (fits : Fits before.layout before.machine.heap.frames outer around) (region : Region)
    {bindings : Bindings Value}
    (admits : Conforms.Admits code before.layout before.machine.heap region.all bindings)
    (binds : ∀ name ∈ region.complete, (bindings.get? name).isSome) :
    Runs code before (Eval.newFrame outer bindings) (Eval.newFrame outer bindings)
      fun after frame =>
        Fits after.layout after.machine.heap.frames frame (region :: around) := by
  have grows := Conforms.grows_addFrame before.layout before.machine.heap
    ⟨some outer, bindings⟩ region.all
  apply Runs.ofOk (before.layout.extend before.machine.heap.frames.size region.all)
    (Eval.newFrame_apply before.machine outer bindings)
  · exact ⟨LoxLang.Conforms.addFrame conforms (fits.lt_size conforms) admits, rfl, grows⟩
  · refine ⟨outer, ?_, if_pos rfl, ?_, grows.fits fits⟩
    · exact (Frames.enclosing?_push ..).trans (if_pos rfl)
    · intro name complete
      have found : Frames.binding?
          (Array.push before.machine.heap.frames ⟨some outer, bindings⟩)
          before.machine.heap.frames.size name = bindings.get? name :=
        (Frames.binding?_push ..).trans (if_pos rfl)
      change Option.isSome (Frames.binding? (Array.push _ _) _ name) = true
      rw [found]
      exact binds name complete

theorem define (conforms : before.Conforms code) {around : List Region} {name : Bytes}
    {value : Value} (fits : before.Fits around) (ordinary : IsOrdinary name)
    (allows : Allows around [name]) (valid : before.IsValid code value) :
    Runs code before (Eval.define name value) (Eval.define name value)
      fun after _ => after.Fits (declared [name] around) := by
  have grows := Conforms.grows_bindName before.layout before.machine.heap
    before.machine.active name value
  apply Runs.ofOk before.layout (Eval.define_apply before.machine name value)
  · refine ⟨LoxLang.Conforms.bindName conforms ordinary ?_ (grows.isValid valid), rfl, grows⟩
    exact Fits.mem_layout fits allows (List.mem_singleton_self name)
  · exact Fits.declared fits (fits.lt_size conforms) name value grows.fits

/-- A function is made and bound to its name at once. -/
theorem declareFunction (conforms : before.Conforms code) {around : List Region}
    {declaration : Function} (fits : before.Fits around)
    (ordinary : IsOrdinary declaration.name.text)
    (allows : Allows around [declaration.name.text])
    (accepts : code.AcceptsFunction (declared [declaration.name.text] around) declaration) :
    let action : Eval Unit := do
      let id ← Eval.newClosure ⟨declaration, before.machine.active, false⟩
      Eval.define declaration.name.text (.function id)
    Runs code before action action
      fun after _ => after.Fits (declared [declaration.name.text] around) := by
  intro action
  let made : Closure := ⟨declaration, before.machine.active, false⟩
  let id := before.machine.heap.closures.size
  have first := Conforms.grows_addClosure before.layout before.machine.heap made
  have second := Conforms.grows_bindName before.layout (before.machine.heap.addClosure made)
    before.machine.active declaration.name.text (.function id)
  have later := Fits.declared fits (fits.lt_size conforms) declaration.name.text (.function id)
    second.fits
  have result : action before.machine = .ok () (before.machine.withHeap
      ((before.machine.heap.addClosure made).bindName before.machine.active
        declaration.name.text (.function id))) := rfl
  apply Runs.ofOk before.layout result
  · have within : made.frame < before.machine.heap.frames.size := fits.lt_size conforms
    refine ⟨LoxLang.Conforms.bindName (LoxLang.Conforms.addClosure conforms within) ordinary ?_ ?_,
      rfl, first.trans second⟩
    · exact Fits.mem_layout fits allows (List.mem_singleton_self _)
    · refine ⟨fun other same => ?_, by simp⟩
      obtain rfl := Value.function.inj same
      have found : ((before.machine.heap.addClosure made).bindName before.machine.active
          declaration.name.text (.function id)).closure id = made :=
        Heap.closure_addClosure_size before.machine.heap made
      refine ⟨?_, ?_, declared [declaration.name.text] around, ?_, ?_⟩
      · exact Heap.lt_size_addClosure before.machine.heap made
      · rw [found]
        simp [made]
      · rw [found]
        exact later
      · rw [found]
        exact accepts
  · exact later

theorem newClosure (conforms : before.Conforms code) {made : Closure}
    (within : made.frame < before.machine.heap.frames.size) :
    Runs code before (Eval.newClosure made) (Eval.newClosure made) fun after id =>
      id < after.machine.heap.closures.size ∧ after.machine.heap.closure id = made := by
  apply Runs.ofOk before.layout (Eval.newClosure_apply before.machine made)
  · exact ⟨LoxLang.Conforms.addClosure conforms within, rfl, Conforms.grows_addClosure ..⟩
  · exact ⟨Heap.lt_size_addClosure before.machine.heap made,
      Heap.closure_addClosure_size before.machine.heap made⟩

theorem newClass (conforms : before.Conforms code) {made : Class}
    (older : ∀ parent, made.superclass = some parent → before.IsValid code (.classRef parent))
    (methods : ∀ name id, made.methods.get? name = some id → before.IsMethod code id) :
    Runs code before (Eval.newClass made) (Eval.newClass made) fun after id =>
      after.IsValid code (.classRef id) := by
  apply Runs.ofOk before.layout (Eval.newClass_apply before.machine made)
  · refine ⟨LoxLang.Conforms.addClass conforms (fun parent found => ?_) methods, rfl,
      Conforms.grows_addClass ..⟩
    exact (older parent found).class_lt parent rfl
  · exact isValid_classRef (by simp [Machine.withHeap, Heap.addClass])

theorem newObject (conforms : before.Conforms code) (type : ClassId) :
    Runs code before (Eval.newObject type) (Eval.newObject type) fun after _ =>
      after.machine.heap = before.machine.heap.addObject ⟨type, []⟩ :=
  Runs.ofOk before.layout (Eval.newObject_apply before.machine type)
    ⟨LoxLang.Conforms.addObject conforms type, rfl,
      Conforms.grows_of_frames_closures rfl rfl (Nat.le_refl _)⟩
    rfl

theorem setField (conforms : before.Conforms code) (id : ObjectId) (name : Bytes)
    {value : Value} (valid : before.IsValid code value) :
    Runs code before (Eval.setField id name value) (Eval.setField id name value)
      fun _ _ => True :=
  Runs.ofOk before.layout (Eval.setField_apply before.machine id name value)
    ⟨LoxLang.Conforms.bindField conforms valid, rfl,
      Conforms.grows_of_frames_closures rfl rfl (Nat.le_refl _)⟩
    trivial

theorem printLine (conforms : before.Conforms code) (value : Value) :
    Runs code before (Eval.printLine value) (Eval.printLine value) fun _ _ => True := by
  have result : Eval.printLine value before.machine = .ok ()
      { before.machine with
        printed := before.machine.printed.push (before.machine.heap.display value) } := rfl
  exact Runs.ofOk before.layout result (.ofHeap conforms rfl rfl) trivial

theorem callNative (conforms : before.Conforms code) (function : Native) :
    Runs code before (Eval.callNative function) (Eval.callNative function)
      fun after value => after.IsValid code value := by
  cases function with
  | clock =>
      have result : Eval.callNative .clock before.machine =
          .ok (.number (before.machine.clock before.machine.ticks))
            { before.machine with ticks := before.machine.ticks + 1 } := rfl
      exact Runs.ofOk before.layout result (.ofHeap conforms rfl rfl) (Value.IsPlain.isValid ⟨by simp, by simp⟩)
  | input =>
      cases line : before.machine.input.readLine? with
      | none =>
          have result : Eval.callNative .input before.machine = .ok .nil before.machine := by
            simp only [Eval.callNative, Eval.modifyGet_apply, line]
          exact Runs.ofOk before.layout result (.refl conforms) (Value.IsPlain.isValid ⟨by simp, by simp⟩)
      | some read =>
          obtain ⟨text, input⟩ := read
          have result : Eval.callNative .input before.machine =
              .ok (Eval.lineValue text) { before.machine with input := input } := by
            simp only [Eval.callNative, Eval.modifyGet_apply, line]
          have plain : (Eval.lineValue text).IsPlain := by
            unfold Eval.lineValue
            dsimp only
            split <;> exact ⟨by simp, by simp⟩
          exact Runs.ofOk before.layout result (.ofHeap conforms rfl rfl) plain.isValid

/-- A method with its receiver is a function of the same declaration. -/
theorem bindMethod (conforms : before.Conforms code) {method : ClosureId} (receiver : ObjectId)
    (isMethod : before.IsMethod code method) :
    Runs code before (Eval.bind method receiver) (Eval.bind method receiver)
      fun after id => after.IsCallable code id ∧
        (after.machine.heap.closure id).declaration =
          (before.machine.heap.closure method).declaration := by
  obtain ⟨-, inherits, around, fits, accepts⟩ := isMethod
  unfold Eval.bind
  apply Runs.get
  have admits : Conforms.Admits code before.layout before.machine.heap
      (Region.receiver inherits).all [((thisName 0).text, .object receiver)] :=
    .single (Value.IsPlain.isValid ⟨by simp, by simp⟩) (fun _ => ⟨receiver, rfl⟩)
      (fun same => absurd same this_ne_super)
  apply Runs.bind (Runs.newFrame conforms fits (.receiver inherits) admits ?_)
  · intro between frame leads inside
    apply (Runs.newClosure leads.conforms (inside.lt_size leads.conforms)).weaken
    rintro after id later ⟨bound, made⟩
    have stillInside := later.grows.fits inside
    refine ⟨⟨bound, ?_, .receiver inherits :: around, ?_, ?_⟩, by rw [made]⟩
    · rw [made]
      intro _
      obtain ⟨_, _, _, binds, _⟩ := stillInside
      exact binds _ (by simp [Region.receiver])
    · rw [made]
      exact stillInside
    · rw [made]
      exact accepts
  · intro name complete
    simp only [Region.receiver, List.mem_singleton] at complete
    simp [Bindings.get?, complete]

theorem getProperty (conforms : before.Conforms code) (id : ObjectId) (name : Name) :
    Runs code before (Eval.getProperty id name) (Eval.getProperty id name)
      fun after value => after.IsValid code value := by
  unfold Eval.getProperty
  apply Runs.get
  dsimp only
  split
  · next value found => exact Runs.pure conforms (conforms.fields id name.text value found)
  · split
    · next method found =>
        apply Runs.bind (Runs.bindMethod conforms id (conforms.isMethod_of_findMethod? found))
        rintro between bound leads ⟨callable, -⟩
        exact Runs.pure leads.conforms (isValid_function callable)
    · exact Runs.fail conforms _ _

theorem isValid_of_get (conforms : before.Conforms code) {frame : FrameId} {name : Bytes}
    {value : Value} (found : before.machine.heap.frames.get frame name = .ok value) :
    before.IsValid code value := by
  obtain ⟨holder, bound⟩ := Frames.exists_of_get found
  exact conforms.bound holder name value bound

theorem readFrom (conforms : before.Conforms code) (frame : FrameId) (token : Token) :
    Runs code before (Eval.readFrom frame token) (Eval.readFrom frame token)
      fun after value => after.IsValid code value := by
  unfold Eval.readFrom
  apply Runs.get
  exact Runs.ofFault conforms token fun value found => isValid_of_get conforms found

/-- A read at a distance where the scope is certain to bind the name. -/
theorem readAt (conforms : before.Conforms code) {around : List Region} {distance : Nat}
    {name : Bytes} (fits : before.Fits around) (binds : BindsAt around distance name) :
    Runs code before (Eval.readAt distance name) (Eval.readAt distance name)
      fun after value => after.IsValid code value ∧
        ∃ frame, after.machine.heap.frames.binding? frame name = some value := by
  obtain ⟨holder, value, -, bound, found⟩ := Fits.getAt fits binds
  have result : Eval.readAt distance name before.machine = .ok value before.machine := by
    rw [Eval.readAt_apply, found]
    rfl
  exact Runs.ofOk before.layout result (.refl conforms)
    ⟨conforms.bound holder name value bound, holder, bound⟩

theorem readWhere (conforms : before.Conforms code) {frame : FrameId} {name : Bytes}
    (bound : (before.machine.heap.frames.binding? frame name).isSome) :
    Runs code before (Eval.ofDesync (before.machine.heap.frames.getAt frame 0 name))
      (Eval.ofDesync (before.machine.heap.frames.getAt frame 0 name))
      fun after value => after.IsValid code value := by
  obtain ⟨value, reached⟩ := Option.isSome_iff_exists.mp bound
  have found : before.machine.heap.frames.getAt frame 0 name = .ok value := by
    simp [Frames.getAt, Frames.ancestor, Frames.ancestorFrom, reached, Bind.bind, Except.bind]
  rw [found]
  exact Runs.pure conforms (conforms.bound frame name value reached)

theorem readVariable (conforms : before.Conforms code) {around : List Region} {id : RefId}
    {name : Name} (fits : before.Fits around)
    (accepts : code.AcceptsSite ⟨⟨.read, id, name⟩, around⟩) :
    Runs code before (Eval.readVariable ⟨code.table, .recorded⟩ id name)
      (Eval.readVariable ⟨code.table, .searched⟩ id name)
      fun after value => after.IsValid code value := by
  obtain ⟨-, sound, searched⟩ := accepts
  have sound : ∀ distance, code.table[id]? = some distance →
      BindsAt around distance name.text := sound
  have searching : Eval.readVariable ⟨code.table, .searched⟩ id name before.machine =
      Eval.ofFault name.token
        (before.machine.heap.frames.get before.machine.active name.text) before.machine := rfl
  cases entry : code.table[id]? with
  | none =>
      have recorded : Eval.readVariable ⟨code.table, .recorded⟩ id name =
          Eval.readFrom Heap.globals name.token := by
        simp [Eval.readVariable, Eval.readRecorded, entry]
      rw [recorded]
      refine ⟨fun searchable => ?_, (Runs.readFrom conforms _ _).2⟩
      have absent := searched searchable (.inl rfl)
      simp only [Site.IsSearchable, entry] at absent
      rw [searching, (LoxLang.Conforms.search_globals conforms fits absent).1]
      rfl
  | some distance =>
      have recorded : Eval.readVariable ⟨code.table, .recorded⟩ id name =
          Eval.readAt distance name.text := by
        simp [Eval.readVariable, Eval.readRecorded, entry, Name.token]
      have runs := Runs.readAt conforms fits (sound distance entry)
      rw [recorded]
      refine ⟨fun searchable => ?_, (runs.weaken fun _ _ _ holds => holds.1).2⟩
      have nearest := searched searchable (.inl rfl)
      simp only [Site.IsSearchable, entry] at nearest
      obtain ⟨binds, nearest⟩ := nearest
      obtain ⟨holder, value, walked, bound, found⟩ := Fits.getAt fits binds
      obtain ⟨region, position, -⟩ := binds
      have room := (List.getElem?_eq_some_iff.mp position).1
      have reached := (LoxLang.Conforms.search conforms bound distance distance 0 fits
        (by simpa [Frames.ancestor] using walked) nearest room).1
      rw [searching, reached, Eval.readAt_apply, found]
      rfl

/-- Rebinding a name in a frame whose scope declares it. -/
theorem rebind (conforms : before.Conforms code) {holder : FrameId} {name : Bytes}
    {value : Value} {action : Eval Unit} (ordinary : IsOrdinary name)
    (declared : holder ≠ Heap.globals → name ∈ before.layout holder)
    (valid : before.IsValid code value)
    (result : action before.machine =
      .ok () (before.machine.withHeap (before.machine.heap.bindName holder name value))) :
    Runs code before action action fun _ _ => True := by
  have grows := Conforms.grows_bindName before.layout before.machine.heap holder name value
  exact Runs.ofOk before.layout result
    ⟨LoxLang.Conforms.bindName conforms ordinary declared (grows.isValid valid), rfl, grows⟩
    trivial

theorem assignFrom (conforms : before.Conforms code) (frame : FrameId) {name : Name}
    {value : Value} (ordinary : IsOrdinary name.text) (valid : before.IsValid code value) :
    Runs code before (Eval.assignFrom frame name value) (Eval.assignFrom frame name value)
      fun _ _ => True := by
  cases found : before.machine.heap.frames.holder? frame name.text with
  | none =>
      exact Runs.ofStop conforms (Eval.assignFrom_of_none before.machine value found) (by simp)
  | some holder =>
      have bound : (before.machine.heap.frames.binding? holder name.text).isSome := by
        simpa using List.find?_some found
      exact Runs.rebind conforms ordinary
        (fun inside => conforms.names holder name.text inside bound) valid
        (Eval.assignFrom_of_holder? before.machine value found)

theorem assignVariable (conforms : before.Conforms code) {around : List Region} {id : RefId}
    {name : Name} {value : Value} (fits : before.Fits around)
    (accepts : code.AcceptsSite ⟨⟨.assign, id, name⟩, around⟩)
    (valid : before.IsValid code value) :
    Runs code before (Eval.assignVariable ⟨code.table, .recorded⟩ id name value)
      (Eval.assignVariable ⟨code.table, .searched⟩ id name value) fun _ _ => True := by
  obtain ⟨-, ⟨ordinary, sound⟩, searched⟩ := accepts
  have sound : ∀ distance, code.table[id]? = some distance →
      ∃ region, around[distance]? = some region ∧ name.text ∈ region.all := sound
  have searching : Eval.assignVariable ⟨code.table, .searched⟩ id name value before.machine =
      Eval.assignFrom before.machine.active name value before.machine := rfl
  cases entry : code.table[id]? with
  | none =>
      have recorded : Eval.assignVariable ⟨code.table, .recorded⟩ id name value =
          Eval.assignFrom Heap.globals name value := by
        simp [Eval.assignVariable, entry]
      rw [recorded]
      refine ⟨fun searchable => ?_, (Runs.assignFrom conforms _ ordinary valid).2⟩
      have absent := searched searchable (.inr rfl)
      simp only [Site.IsSearchable, entry] at absent
      have same := (LoxLang.Conforms.search_globals conforms fits absent).2
      rw [searching]
      cases found : before.machine.heap.frames.holder? Heap.globals name.text with
      | none =>
          rw [Eval.assignFrom_of_none before.machine value found,
            Eval.assignFrom_of_none before.machine value (same.trans found)]
      | some holder =>
          rw [Eval.assignFrom_of_holder? before.machine value found,
            Eval.assignFrom_of_holder? before.machine value (same.trans found)]
  | some distance =>
      have recorded : Eval.assignVariable ⟨code.table, .recorded⟩ id name value =
          Eval.assignAt distance name.text value := by
        simp [Eval.assignVariable, entry]
      obtain ⟨region, position, declared⟩ := sound distance entry
      obtain ⟨holder, walked, serves⟩ := Fits.ancestor fits position
      have result := Eval.assignAt_of_ancestor before.machine name.text value walked
      have laid : name.text ∈ before.layout holder := by
        rw [serves.laid]
        exact declared
      rw [recorded]
      refine ⟨fun searchable => ?_, (Runs.rebind conforms ordinary (fun _ => laid) valid result).2⟩
      have nearest := searched searchable (.inr rfl)
      simp only [Site.IsSearchable, entry] at nearest
      obtain ⟨⟨certain, samePosition, complete⟩, nearest⟩ := nearest
      obtain rfl : region = certain := Option.some.inj (position.symm.trans samePosition)
      obtain ⟨held, bound⟩ := Option.isSome_iff_exists.mp (serves.binds _ complete)
      have room := (List.getElem?_eq_some_iff.mp position).1
      have reached := (LoxLang.Conforms.search conforms bound distance distance 0 fits
        (by simpa [Frames.ancestor] using walked) nearest room).2
      rw [searching, result, Eval.assignFrom_of_holder? before.machine value reached]

theorem readSelf (conforms : before.Conforms code) {around : List Region} {id : RefId}
    {line : Nat} (fits : before.Fits around)
    (accepts : code.AcceptsSite ⟨⟨.self, id, thisName line⟩, around⟩) :
    Runs code before (Eval.readRecorded ⟨code.table, .recorded⟩ id (Eval.thisToken line))
      (Eval.readRecorded ⟨code.table, .searched⟩ id (Eval.thisToken line))
      fun after value => after.IsValid code value := by
  obtain ⟨distance, entry, binds⟩ := accepts.sound
  have recorded (mode : Access.Mode) :
      Eval.readRecorded ⟨code.table, mode⟩ id (Eval.thisToken line) =
        Eval.readAt distance (thisName 0).text := by
    have entry : code.table[id]? = some distance := entry
    simp only [Eval.readRecorded, entry]
    rfl
  rw [recorded, recorded]
  exact (Runs.readAt conforms fits binds).weaken fun _ _ _ holds => holds.1

/-- A method of the superclass is found from the class that the superclass scope
holds, for the receiver just inside it. -/
theorem readSuper (conforms : before.Conforms code) {around : List Region} {id : RefId}
    {line : Nat} {method : Name} (fits : before.Fits around)
    (accepts : code.AcceptsSite ⟨⟨.superclass, id, superName line⟩, around⟩) :
    Runs code before (Eval.readSuper ⟨code.table, .recorded⟩ id method)
      (Eval.readSuper ⟨code.table, .searched⟩ id method)
      fun after value => after.IsValid code value := by
  obtain ⟨distance, entry, bindsSuper, bindsThis, -⟩ := accepts.sound
  have entry : code.table[id]? = some (distance + 1) := entry
  unfold Eval.readSuper
  simp only [entry, Option.getD_some]
  apply Runs.bind (Runs.readAt conforms fits bindsSuper)
  rintro between value leads ⟨-, holder, bound⟩
  obtain ⟨superclass, rfl⟩ := leads.conforms.superclass holder value bound
  dsimp only
  have inward : ((distance + 1 : Nat) : Int) - 1 = (distance : Nat) := by omega
  rw [inward]
  apply Runs.bind (Runs.readAt leads.conforms (leads.fits fits) bindsThis)
  rintro inner value further ⟨-, frame, held⟩
  obtain ⟨receiver, rfl⟩ := further.conforms.receiver frame value held
  dsimp only
  apply Runs.get
  split
  · next found reached =>
      apply Runs.bind (Runs.bindMethod further.conforms receiver
        (further.conforms.isMethod_of_findMethod? reached))
      rintro after bound later ⟨callable, -⟩
      exact Runs.pure later.conforms (isValid_function callable)
  · exact Runs.fail further.conforms _ _

/-- The methods of a class body are methods for the scopes around the class. -/
theorem makeMethods {around : List Region} {inherits : Bool} :
    ∀ {methods : List Function} {made : Bindings ClosureId} {before : Config},
      before.Conforms code → before.Fits around →
      (∀ method ∈ methods, code.AcceptsFunction (.receiver inherits :: around) method) →
      (∀ name id, made.get? name = some id → before.IsMethod code id) →
        Runs code before (Eval.makeMethods methods made) (Eval.makeMethods methods made)
          fun after result => ∀ name id, result.get? name = some id → after.IsMethod code id
  | [], _, _, conforms, _, _, kept => Runs.pure conforms kept
  | method :: rest, made, before, conforms, fits, accepts, kept => by
      unfold Eval.makeMethods
      apply Runs.get
      have within : before.machine.active < before.machine.heap.frames.size :=
        fits.lt_size conforms
      apply Runs.bind (Runs.newClosure conforms within)
      rintro between id leads ⟨bound, closure⟩
      have isMethod : between.IsMethod code id := by
        refine ⟨bound, inherits, around, ?_, ?_⟩
        · rw [closure]
          exact leads.grows.fits fits
        · rw [closure]
          exact accepts method List.mem_cons_self
      apply makeMethods leads.conforms (leads.fits fits)
        (fun other member => accepts other (List.mem_cons_of_mem _ member))
      intro name other found
      by_cases same : name = method.name.text
      · rw [same, Bindings.get?_insert_self] at found
        obtain rfl := Option.some.inj found
        exact isMethod
      · rw [Bindings.get?_insert_of_ne _ _ same] at found
        exact leads.isMethod (kept name other found)

theorem makeClassBody (conforms : before.Conforms code) {around : List Region}
    {inherits : Bool} {methods : List Function} (name : Bytes) {parent : Option ClassId}
    (older : ∀ type, parent = some type → before.IsValid code (.classRef type))
    (fits : before.Fits around)
    (accepts : ∀ method ∈ methods, code.AcceptsFunction (.receiver inherits :: around) method) :
    let action : Eval ClassId := do
      let made ← Eval.makeMethods methods []
      Eval.newClass ⟨name, parent, made⟩
    Runs code before action action fun after id => after.IsValid code (.classRef id) := by
  intro action
  apply Runs.bind (Runs.makeMethods conforms fits accepts (by simp [Bindings.get?]))
  intro between made leads isMethod
  exact Runs.newClass leads.conforms (fun type found => leads.isValid (older type found)) isMethod

end Runs

theorem Eval.makeMethods_ok (methods : List Function) (made : Bindings ClosureId)
    (machine : Machine) :
    ∃ result heap, Eval.makeMethods methods made machine = .ok result (machine.withHeap heap) := by
  induction methods generalizing made machine with
  | nil => exact ⟨made, machine.heap, rfl⟩
  | cons method rest inductionHypothesis =>
      obtain ⟨result, heap, later⟩ := inductionHypothesis
        (made.insert method.name.text machine.heap.closures.size)
        (machine.withHeap (machine.heap.addClosure
          ⟨method, machine.active, method.name.text == Bytes.ofString "init"⟩))
      exact ⟨result, heap, later⟩

/-- The superclass frame is active exactly while the class body is made. -/
theorem Eval.makeSubclass_eq (name : Name) (superclass : ClassId) (methods : List Function) :
    Eval.makeSubclass name superclass methods = (do
      let outer := (← get).active
      let frame ← Eval.newFrame outer [((superName 0).text, .classRef superclass)]
      Eval.within frame do
        let made ← Eval.makeMethods methods []
        Eval.newClass ⟨name.text, some superclass, made⟩) := by
  funext machine
  let entered := machine.withHeap (machine.heap.addFrame
    ⟨some machine.active, [((superName 0).text, .classRef superclass)]⟩)
  obtain ⟨made, heap, result⟩ := Eval.makeMethods_ok methods []
    { entered with active := machine.heap.frames.size }
  have opened : Eval.newFrame machine.active [((superName 0).text, .classRef superclass)] machine =
      .ok machine.heap.frames.size entered := rfl
  simp only [Eval.makeSubclass, Eval.within, Bind.bind, EStateM.bind, Eval.get_apply, opened,
    Eval.modify_apply, result, Eval.newClass_apply]
  rfl

namespace Runs

variable {code : Code} {before : Config}

/-- The frame around a class body holds the superclass. -/
theorem makeSubclass (conforms : before.Conforms code) {around : List Region} {name : Name}
    {superclass : ClassId} {methods : List Function} (fits : before.Fits around)
    (valid : before.IsValid code (.classRef superclass))
    (accepts : ∀ method ∈ methods,
      code.AcceptsFunction (.receiver true :: .superclass :: around) method) :
    Runs code before (Eval.makeSubclass name superclass methods)
      (Eval.makeSubclass name superclass methods)
      fun after id => after.IsValid code (.classRef id) := by
  rw [Eval.makeSubclass_eq]
  apply Runs.get
  have admits : Conforms.Admits code before.layout before.machine.heap
      Region.superclass.all [((superName 0).text, .classRef superclass)] :=
    .single valid (fun same => absurd same this_ne_super.symm) (fun _ => ⟨superclass, rfl⟩)
  apply Runs.bind (Runs.newFrame conforms fits .superclass admits
    (by simp [Region.superclass, Bindings.get?]))
  intro between frame leads inside
  apply Runs.within
  have entered : (between.enter frame).Conforms code := leads.conforms
  refine Runs.makeClassBody entered name.text (fun type found => ?_) inside accepts
  obtain rfl := Option.some.inj found
  exact leads.isValid valid

/-- A class declaration binds its name before its body is made, and rebinds it
to the class. -/
theorem declareClass (conforms : before.Conforms code) {around : List Region} {name : Name}
    {superclass : Option (RefId × Name)} {methods : List Function} (fits : before.Fits around)
    (regular : (Stmt.classDecl name superclass methods).IsRegular)
    (allows : Allows around [name.text])
    (accepts : ∀ site ∈ (Stmt.classDecl name superclass methods).sites around,
      code.AcceptsSite site) :
    Runs code before (Eval.declareClass ⟨code.table, .recorded⟩ name superclass methods)
      (Eval.declareClass ⟨code.table, .searched⟩ name superclass methods)
      fun after _ => after.Fits (declared [name.text] around) := by
  have ordinary : IsOrdinary name.text := regular.1
  have finish {between : Config} {id : ClassId} (conforms : between.Conforms code)
      (inside : between.Fits (declared [name.text] around))
      (valid : between.IsValid code (.classRef id)) :
      Runs code between (Eval.assignFrom between.machine.active name (.classRef id))
        (Eval.assignFrom between.machine.active name (.classRef id))
        fun after _ => after.Fits (declared [name.text] around) := by
    apply (Runs.assignFrom conforms _ ordinary valid).weaken
    intro after _ leads _
    exact leads.fits inside
  cases superclass with
  | none =>
      have methodsAccepted := Code.accepts_of_sitesAll regular.2 accepts
      unfold Eval.declareClass
      dsimp only
      apply Runs.bind (Runs.define conforms fits ordinary allows (Value.IsPlain.isValid ⟨by simp, by simp⟩))
      intro between _ leads inside
      apply Runs.bind (Runs.makeClassBody leads.conforms name.text (by simp) inside methodsAccepted)
      intro later id further valid
      exact Runs.get (finish further.conforms (further.fits inside) valid)
  | some parent =>
      obtain ⟨reference, parent⟩ := parent
      have parentAccepted : code.AcceptsSite
          ⟨⟨.read, reference, parent⟩, declaring name.text around⟩ :=
        accepts _ (List.mem_append_left _ (List.mem_singleton_self _))
      have methodsAccepted := Code.accepts_of_sitesAll regular.2
        fun site member => accepts site (List.mem_append_right _ member)
      unfold Eval.declareClass
      dsimp only
      apply Runs.bind (Runs.readVariable conforms (Fits.declaring fits name.text) parentAccepted)
      intro between value leads valid
      split
      · apply Runs.bind (Runs.define leads.conforms (leads.fits fits) ordinary allows
          (Value.IsPlain.isValid ⟨by simp, by simp⟩))
        intro middle _ further inside
        apply Runs.bind (Runs.makeSubclass further.conforms inside (further.isValid valid)
          methodsAccepted)
        intro later id last made
        exact Runs.get (finish last.conforms (last.fits inside) made)
      · exact Runs.fail leads.conforms _ _

end Runs

end LoxLang
