import LoxLang.Proofs.Eval.Overlay

/-!
One execution along another that makes fewer frames.  From machines that correspond, an
action retraces another when it ends in the same way with the same value, on machines that
correspond again.  Nothing is said where the first runs out of its bound or loses track of
its frames.  Such runs compose, and the steps of a machine retrace themselves.
-/

namespace LoxLang

open Scope

open Projection (Hides)

/-- Two machines, with what becomes of the frames of the first. -/
structure Scene where
  projection : Projection
  upper : Machine
  lower : Machine

namespace Scene

variable {table other : Resolution}

def overlay (scene : Scene) : Overlay :=
  ⟨scene.projection, scene.upper.heap, scene.lower.heap⟩

def IsValid (table other : Resolution) (scene : Scene) (value : Value) : Prop :=
  scene.overlay.IsValid table other value

/-- Where the hidden frame stands in the chain of the active frame, if there is one. -/
def Hides (scene : Scene) (gap : Option Nat) : Prop :=
  scene.projection.Hides scene.upper.heap.frames gap scene.upper.active

/-- Two machines that differ only in their heaps and in the active frame, and these
correspond. -/
structure Corresponds (table other : Resolution) (scene : Scene) : Prop where
  heaps : scene.overlay.Corresponds table other
  active : scene.lower.active = scene.projection.image scene.upper.active
  within : scene.upper.active < scene.upper.heap.frames.size
  depth : scene.lower.depth = scene.upper.depth
  input : scene.lower.input = scene.upper.input
  printed : scene.lower.printed = scene.upper.printed
  clock : scene.lower.clock = scene.upper.clock
  ticks : scene.lower.ticks = scene.upper.ticks

namespace Corresponds

variable {scene : Scene}

theorem closures_size (same : scene.Corresponds table other) :
    scene.lower.heap.closures.size = scene.upper.heap.closures.size :=
  same.heaps.closures

theorem classes (same : scene.Corresponds table other) :
    scene.lower.heap.classes = scene.upper.heap.classes :=
  same.heaps.classes

theorem objects (same : scene.Corresponds table other) :
    scene.lower.heap.objects = scene.upper.heap.objects :=
  same.heaps.objects

theorem findMethod? (same : scene.Corresponds table other) (type : ClassId) (name : Bytes) :
    scene.lower.heap.findMethod? type name = scene.upper.heap.findMethod? type name :=
  same.heaps.findMethod? type name

theorem display (same : scene.Corresponds table other) {value : Value}
    (valid : scene.IsValid table other value) :
    scene.lower.heap.display value = scene.upper.heap.display value :=
  same.heaps.display valid

theorem arity? (same : scene.Corresponds table other) {value : Value}
    (valid : scene.IsValid table other value) :
    scene.lower.heap.arity? value = scene.upper.heap.arity? value :=
  same.heaps.arity? valid

end Corresponds

/-- The scene with other heaps. -/
def withHeaps (scene : Scene) (overlay : Overlay) : Scene :=
  ⟨overlay.projection, scene.upper.withHeap overlay.upper, scene.lower.withHeap overlay.lower⟩

/-- The scene with another frame active. -/
def enter (scene : Scene) (frame : FrameId) : Scene :=
  ⟨scene.projection, { scene.upper with active := frame },
    { scene.lower with active := scene.projection.image frame }⟩

/-- The scene with another number of calls under way. -/
def atDepth (scene : Scene) (depth : Nat) : Scene :=
  ⟨scene.projection, { scene.upper with depth := depth }, { scene.lower with depth := depth }⟩

theorem Corresponds.enter {scene : Scene} (same : scene.Corresponds table other)
    {frame : FrameId} (within : frame < scene.upper.heap.frames.size) :
    (scene.enter frame).Corresponds table other :=
  ⟨same.heaps, rfl, within, same.depth, same.input, same.printed, same.clock, same.ticks⟩

/-- Two executions lead from one scene to a later one. -/
structure Leads (table other : Resolution) (before after : Scene) : Prop where
  same : after.Corresponds table other
  active : after.upper.active = before.upper.active
  grows : Overlay.Grows before.overlay after.overlay

namespace Leads

variable {before middle after : Scene}

theorem refl (same : before.Corresponds table other) : Leads table other before before :=
  ⟨same, rfl, .refl _⟩

theorem trans (first : Leads table other before middle) (second : Leads table other middle after) :
    Leads table other before after :=
  ⟨second.same, second.active.trans first.active, first.grows.trans second.grows⟩

theorem isValid {value : Value} (leads : Leads table other before after)
    (valid : before.IsValid table other value) : after.IsValid table other value :=
  leads.grows.isValid valid

theorem hides {gap : Option Nat} (leads : Leads table other before after)
    (hides : before.Hides gap) : after.Hides gap := by
  unfold Scene.Hides
  rw [leads.active]
  exact leads.grows.hides hides

/-- An update of both heaps. -/
theorem ofHeaps (same : before.Corresponds table other) {overlay : Overlay}
    (heaps : overlay.Corresponds table other) (grows : Overlay.Grows before.overlay overlay) :
    Leads table other before (before.withHeaps overlay) where
  same := ⟨heaps, same.active.trans (grows.projection.image _ same.within).symm,
    Nat.lt_of_lt_of_le same.within grows.frames, same.depth, same.input, same.printed,
    same.clock, same.ticks⟩
  active := rfl
  grows := grows

/-- Back to the frame that was active before. -/
theorem leave {frame : FrameId} (same : before.Corresponds table other)
    (leads : Leads table other (before.enter frame) after) :
    Leads table other before (after.enter before.upper.active) where
  same := leads.same.enter (Nat.lt_of_lt_of_le same.within leads.grows.frames)
  active := rfl
  grows := leads.grows

end Leads

end Scene

open Scene (Leads)

/-- How an execution and the one that retraces it end. -/
inductive EndsRetraced {α : Type} (table other : Resolution) (before : Scene)
    (post : Scene → α → Prop) :
    EStateM.Result Stop Machine α → EStateM.Result Stop Machine α → Prop where
  | ok {value : α} (after : Scene) : Leads table other before after → post after value →
      EndsRetraced table other before post (.ok value after.upper) (.ok value after.lower)
  | fault {error : RuntimeError} (after : Scene) : Leads table other before after →
      EndsRetraced table other before post (.error (.fault error) after.upper)
        (.error (.fault error) after.lower)
  | unfinished {stop : Stop} {machine : Machine} {result : EStateM.Result Stop Machine α} :
      (∀ error, stop ≠ .fault error) →
        EndsRetraced table other before post (.error stop machine) result

/-- What happened before can be put in front. -/
theorem EndsRetraced.after {α : Type} {table other : Resolution} {before between : Scene}
    {post : Scene → α → Prop} {result imageResult : EStateM.Result Stop Machine α}
    (ends : EndsRetraced table other between post result imageResult)
    (leads : Leads table other before between) :
    EndsRetraced table other before post result imageResult := by
  cases ends with
  | ok after further holds => exact .ok after (leads.trans further) holds
  | fault after further => exact .fault after (leads.trans further)
  | unfinished stops => exact .unfinished stops

/-- An action is retraced by another from a scene. -/
def Retraces {α : Type} (table other : Resolution) (before : Scene) (action image : Eval α)
    (post : Scene → α → Prop) : Prop :=
  EndsRetraced table other before post (action before.upper) (image before.lower)

namespace Retraces

variable {α β : Type} {table other : Resolution} {before : Scene}

theorem weaken {action image : Eval α} {post weaker : Scene → α → Prop}
    (retraces : Retraces table other before action image post)
    (implies : ∀ after value, Leads table other before after → post after value →
      weaker after value) : Retraces table other before action image weaker := by
  unfold Retraces at retraces ⊢
  generalize action before.upper = result at retraces ⊢
  generalize image before.lower = imageResult at retraces ⊢
  cases retraces with
  | ok after leads holds => exact .ok after leads (implies _ _ leads holds)
  | fault after leads => exact .fault after leads
  | unfinished stops => exact .unfinished stops

/-- Runs that are retraced follow each other. -/
theorem bind {action image : Eval α} {next imageNext : α → Eval β} {middle : Scene → α → Prop}
    {post : Scene → β → Prop} (first : Retraces table other before action image middle)
    (second : ∀ between value, Leads table other before between → middle between value →
      Retraces table other between (next value) (imageNext value) post) :
    Retraces table other before (action >>= next) (image >>= imageNext) post := by
  unfold Retraces at first ⊢
  simp only [Bind.bind, EStateM.bind]
  generalize action before.upper = result at first
  generalize image before.lower = imageResult at first
  cases first with
  | fault after leads => exact .fault after leads
  | unfinished stops => exact .unfinished stops
  | @ok value between leads holds =>
      exact (second between value leads holds).after leads

/-- Two actions that yield a value and lead to known machines. -/
theorem ofOk {action image : Eval α} {value : α} {after : Scene} {post : Scene → α → Prop}
    (upper : action before.upper = .ok value after.upper)
    (lower : image before.lower = .ok value after.lower)
    (leads : Leads table other before after) (holds : post after value) :
    Retraces table other before action image post := by
  unfold Retraces
  rw [upper, lower]
  exact .ok _ leads holds

theorem ofFault {action image : Eval α} {error : RuntimeError} {post : Scene → α → Prop}
    (same : before.Corresponds table other)
    (upper : action before.upper = .error (.fault error) before.upper)
    (lower : image before.lower = .error (.fault error) before.lower) :
    Retraces table other before action image post := by
  unfold Retraces
  rw [upper, lower]
  exact .fault _ (.refl same)

/-- Nothing is said of an action that does not come to an end. -/
theorem ofStop {action image : Eval α} {stop : Stop} {machine : Machine}
    {post : Scene → α → Prop} (upper : action before.upper = .error stop machine)
    (stops : ∀ error, stop ≠ .fault error) : Retraces table other before action image post := by
  unfold Retraces
  rw [upper]
  exact .unfinished stops

theorem outOfFuel {image : Eval α} {post : Scene → α → Prop} :
    Retraces table other before (throw .outOfFuel) image post := by
  have upper : (throw .outOfFuel : Eval α) before.upper = .error .outOfFuel before.upper := rfl
  exact ofStop upper (by simp)

theorem desync {image : Eval α} {post : Scene → α → Prop} (cause : Desync) :
    Retraces table other before (throw (.desync cause)) image post := by
  have upper : (throw (.desync cause) : Eval α) before.upper =
      .error (.desync cause) before.upper := rfl
  exact ofStop upper (by simp)

theorem pure {post : Scene → α → Prop} (same : before.Corresponds table other) {value : α}
    (holds : post before value) : Retraces table other before (pure value) (pure value) post :=
  ofOk rfl rfl (.refl same) holds

/-- Reading the machines changes nothing. -/
theorem get {next imageNext : Machine → Eval β} {post : Scene → β → Prop}
    (retraces : Retraces table other before (next before.upper) (imageNext before.lower) post) :
    Retraces table other before (get >>= next) (get >>= imageNext) post :=
  retraces

theorem fail {post : Scene → α → Prop} (same : before.Corresponds table other) (fault : Fault)
    (token : Token) :
    Retraces table other before (Eval.fail fault token) (Eval.fail fault token) post :=
  ofFault same rfl rfl

theorem ofExcept {post : Scene → α → Prop} (same : before.Corresponds table other)
    (token : Token) {result : Except Fault α}
    (holds : ∀ value, result = .ok value → post before value) :
    Retraces table other before (Eval.ofFault token result) (Eval.ofFault token result) post := by
  cases result with
  | ok value => exact pure same (holds value rfl)
  | error fault => exact fail same fault token

/-- Going into a frame and back on both sides. -/
theorem within {action image : Eval α} {post : Scene → α → Prop}
    (same : before.Corresponds table other) {frame : FrameId}
    (inside : Retraces table other (before.enter frame) action image
      fun after value => post (after.enter before.upper.active) value) :
    Retraces table other before (Eval.within frame action)
      (Eval.within (before.projection.image frame) image) post := by
  unfold Retraces at inside
  have upper : (before.enter frame).upper = { before.upper with active := frame } := rfl
  have lower : (before.enter frame).lower =
    { before.lower with active := before.projection.image frame } := rfl
  rw [upper, lower] at inside
  have active {after : Scene} (leads : Leads table other (before.enter frame) after) :
      before.lower.active = after.projection.image before.upper.active :=
    same.active.trans (leads.grows.projection.image _ same.within).symm
  unfold Retraces Eval.within
  dsimp only
  generalize action { before.upper with active := frame } = result at inside ⊢
  generalize image { before.lower with active := before.projection.image frame } = imageResult
    at inside ⊢
  cases inside with
  | ok after leads holds =>
      dsimp only
      rw [active leads]
      exact .ok (after.enter before.upper.active) (leads.leave same) holds
  | fault after leads =>
      dsimp only
      rw [active leads]
      exact .fault (after.enter before.upper.active) (leads.leave same)
  | unfinished stops => exact .unfinished stops

/-- The number of calls under way is the same on both sides. -/
theorem counted {action image : Eval α} {post : Scene → α → Prop}
    (same : before.Corresponds table other)
    (inside : Retraces table other (before.atDepth (before.upper.depth + 1)) action image
      fun after value => post (after.atDepth (after.upper.depth - 1)) value) :
    Retraces table other before (Eval.counted action) (Eval.counted image) post := by
  unfold Retraces at inside
  have upper : (before.atDepth (before.upper.depth + 1)).upper =
    { before.upper with depth := before.upper.depth + 1 } := rfl
  have lower : (before.atDepth (before.upper.depth + 1)).lower =
    { before.lower with depth := before.upper.depth + 1 } := rfl
  rw [upper, lower] at inside
  have back {after : Scene}
      (leads : Leads table other (before.atDepth (before.upper.depth + 1)) after) :
      Leads table other before (after.atDepth (after.upper.depth - 1)) :=
    ⟨⟨leads.same.heaps, leads.same.active, leads.same.within, rfl, leads.same.input,
      leads.same.printed, leads.same.clock, leads.same.ticks⟩, leads.active, leads.grows⟩
  unfold Retraces Eval.counted
  rw [same.depth]
  generalize action { before.upper with depth := before.upper.depth + 1 } = result at inside ⊢
  generalize image { before.lower with depth := before.upper.depth + 1 } = imageResult
    at inside ⊢
  cases inside with
  | ok after leads holds =>
      dsimp only
      rw [leads.same.depth]
      exact .ok (after.atDepth (after.upper.depth - 1)) (back leads) holds
  | fault after leads =>
      dsimp only
      rw [leads.same.depth]
      exact .fault (after.atDepth (after.upper.depth - 1)) (back leads)
  | unfinished stops => exact .unfinished stops

end Retraces

namespace Retraces

variable {table other : Resolution} {before : Scene}

/-- A frame made on both sides, and what is done with it. -/
theorem newFrame {β : Type} (same : before.Corresponds table other) {outer : FrameId}
    {gap : Option Nat} (hides : before.projection.Hides before.upper.heap.frames gap outer)
    {bindings : Bindings Value}
    (valid : ∀ name value, bindings.get? name = some value → before.IsValid table other value)
    {next imageNext : FrameId → Eval β} {post : Scene → β → Prop}
    (later : ∀ between frame, Leads table other before between →
      between.projection.Hides between.upper.heap.frames (gap.map (· + 1)) frame →
        Retraces table other between (next frame) (imageNext (between.projection.image frame))
          post) :
    Retraces table other before (Eval.newFrame outer bindings >>= next)
      (Eval.newFrame (before.projection.image outer) bindings >>= imageNext) post := by
  have leads : Leads table other before
      (before.withHeaps (before.overlay.addFrame outer bindings)) :=
    .ofHeaps same (same.heaps.addFrame hides.lt_size valid)
      (Overlay.Corresponds.grows_addFrame before.overlay outer bindings)
  have ending := later _ before.upper.heap.frames.size leads
    (same.heaps.hides_addFrame bindings hides)
  have image : (before.withHeaps (before.overlay.addFrame outer bindings)).projection.image
      before.upper.heap.frames.size = before.lower.heap.frames.size := if_pos rfl
  rw [image] at ending
  unfold Retraces at ending ⊢
  simp only [Bind.bind, EStateM.bind, Eval.newFrame_apply]
  exact ending.after leads

/-- A name bound in a frame on both sides. -/
theorem bindName (same : before.Corresponds table other) {action image : Eval Unit}
    {frame : FrameId} {name : Bytes} {value : Value} (valid : before.IsValid table other value)
    (within : frame < before.upper.heap.frames.size) (plain : ¬ before.projection.hidden frame)
    (upper : action before.upper =
      .ok () (before.upper.withHeap (before.upper.heap.bindName frame name value)))
    (lower : image before.lower = .ok () (before.lower.withHeap
      (before.lower.heap.bindName (before.projection.image frame) name value))) :
    Retraces table other before action image fun after _ =>
      (after.upper.heap.frames.binding? frame name).isSome := by
  have leads : Leads table other before
      (before.withHeaps (before.overlay.bindName frame name value)) :=
    .ofHeaps same (same.heaps.bindName name within plain valid)
      (Overlay.Corresponds.grows_bindName before.overlay frame name value)
  apply ofOk upper lower leads
  have bound : (before.upper.heap.frames.define frame name value).binding? frame name =
      some value := Frames.binding?_define_self name value within
  exact (congrArg Option.isSome bound).trans rfl

theorem define (same : before.Corresponds table other) {gap : Option Nat}
    (hides : before.Hides gap) (apart : gap ≠ some 0) (name : Bytes) {value : Value}
    (valid : before.IsValid table other value) :
    Retraces table other before (Eval.define name value) (Eval.define name value)
      fun after _ => (after.upper.heap.frames.binding? after.upper.active name).isSome := by
  have lower : Eval.define name value before.lower = .ok () (before.lower.withHeap
      (before.lower.heap.bindName (before.projection.image before.upper.active) name value)) := by
    rw [Eval.define_apply, same.active]
  apply (bindName same valid same.within (hides.not_hidden apart)
    (Eval.define_apply before.upper name value) lower).weaken
  intro after _ leads bound
  rw [leads.active]
  exact bound

theorem newClosure (same : before.Corresponds table other) {added around : List Region}
    {passage : Passage} {frame : FrameId} {declaration : Function} (initializer : Bool)
    (reaches : passage.Reaches around)
    (hides : before.projection.Hides before.upper.heap.frames (passage.gap around) frame)
    (links : ∀ site ∈ declaration.sites (added ++ around), passage.Links table other site) :
    Retraces table other before (Eval.newClosure ⟨declaration, frame, initializer⟩)
      (Eval.newClosure ⟨declaration.relabel (.renumber passage.ids),
        before.projection.image frame, initializer⟩)
      fun after id => after.overlay.Holds table other added id := by
  generalize stands : (⟨declaration.relabel (.renumber passage.ids),
    before.projection.image frame, initializer⟩ : Closure) = image
  have lower : Eval.newClosure image before.lower = .ok before.upper.heap.closures.size
      (before.withHeaps
        (before.overlay.addClosure ⟨declaration, frame, initializer⟩ image)).lower := by
    rw [Eval.newClosure_apply, same.closures_size]
    rfl
  apply ofOk (Eval.newClosure_apply before.upper _) lower
  · exact .ofHeaps same (same.heaps.addClosure _ _) (same.heaps.grows_addClosure _ _)
  · rw [← stands]
    exact same.heaps.holds_addClosure initializer reaches hides links

theorem newClass (same : before.Corresponds table other) {made : Class}
    (methods : ∀ name id, made.methods.get? name = some id →
      before.overlay.IsMethod table other id) :
    Retraces table other before (Eval.newClass made) (Eval.newClass made) fun _ _ => True := by
  have lower : Eval.newClass made before.lower = .ok before.upper.heap.classes.size
      (before.withHeaps (before.overlay.addClass made)).lower := by
    rw [Eval.newClass_apply, same.classes]
    rfl
  apply ofOk (Eval.newClass_apply before.upper made) lower
  · exact .ofHeaps same (same.heaps.addClass methods)
      (Overlay.Corresponds.grows_of_frames_closures rfl rfl rfl rfl)
  · trivial

theorem newObject (same : before.Corresponds table other) (type : ClassId) :
    Retraces table other before (Eval.newObject type) (Eval.newObject type) fun _ _ => True := by
  have lower : Eval.newObject type before.lower = .ok before.upper.heap.objects.size
      (before.withHeaps (before.overlay.addObject ⟨type, []⟩)).lower := by
    rw [Eval.newObject_apply, same.objects]
    rfl
  apply ofOk (Eval.newObject_apply before.upper type) lower
  · exact .ofHeaps same (same.heaps.addObject type)
      (Overlay.Corresponds.grows_of_frames_closures rfl rfl rfl rfl)
  · trivial

theorem setField (same : before.Corresponds table other) (id : ObjectId) (name : Bytes)
    {value : Value} (valid : before.IsValid table other value) :
    Retraces table other before (Eval.setField id name value) (Eval.setField id name value)
      fun _ _ => True := by
  have leads : Leads table other before
      (before.withHeaps (before.overlay.bindField id name value)) :=
    .ofHeaps same (same.heaps.bindField id name valid)
      (Overlay.Corresponds.grows_of_frames_closures rfl rfl rfl rfl)
  exact ofOk (Eval.setField_apply before.upper id name value)
    (Eval.setField_apply before.lower id name value) leads trivial

theorem printLine (same : before.Corresponds table other) {value : Value}
    (valid : before.IsValid table other value) :
    Retraces table other before (Eval.printLine value) (Eval.printLine value)
      fun _ _ => True := by
  let printed (machine : Machine) : Machine :=
    { machine with printed := machine.printed.push (before.upper.heap.display value) }
  have leads : Leads table other before
      ⟨before.projection, printed before.upper, printed before.lower⟩ :=
    ⟨⟨same.heaps, same.active, same.within, same.depth, same.input,
      congrArg (Array.push · _) same.printed, same.clock, same.ticks⟩, rfl, .refl _⟩
  have lower : Eval.printLine value before.lower = .ok () (printed before.lower) := by
    simp only [Eval.printLine, Eval.modify_apply, printed, same.display valid]
  exact ofOk rfl lower leads trivial

theorem callNative (same : before.Corresponds table other) (function : Native) :
    Retraces table other before (Eval.callNative function) (Eval.callNative function)
      fun after value => after.IsValid table other value := by
  cases function with
  | clock =>
      let ticked (machine : Machine) : Machine := { machine with ticks := machine.ticks + 1 }
      have leads : Leads table other before
          ⟨before.projection, ticked before.upper, ticked before.lower⟩ :=
        ⟨⟨same.heaps, same.active, same.within, same.depth, same.input, same.printed, same.clock,
          congrArg (· + 1) same.ticks⟩, rfl, .refl _⟩
      have lower : Eval.callNative .clock before.lower =
          .ok (.number (before.upper.clock before.upper.ticks)) (ticked before.lower) := by
        rw [← same.clock, ← same.ticks]
        rfl
      exact ofOk rfl lower leads (Overlay.isValid_of_ne (by simp))
  | input =>
      cases line : before.upper.input.readLine? with
      | none =>
          have ends {machine : Machine} (input : machine.input = before.upper.input) :
              Eval.callNative .input machine = .ok .nil machine := by
            simp only [Eval.callNative, Eval.modifyGet_apply, input, line]
          exact ofOk (ends rfl) (ends same.input) (.refl same) (Overlay.isValid_of_ne (by simp))
      | some read =>
          obtain ⟨text, input⟩ := read
          let taken (machine : Machine) : Machine := { machine with input := input }
          have reads {machine : Machine} (held : machine.input = before.upper.input) :
              Eval.callNative .input machine = .ok (Eval.lineValue text) (taken machine) := by
            simp only [Eval.callNative, Eval.modifyGet_apply, held, line, taken]
          have leads : Leads table other before
              ⟨before.projection, taken before.upper, taken before.lower⟩ :=
            ⟨⟨same.heaps, same.active, same.within, same.depth, rfl, same.printed, same.clock,
              same.ticks⟩, rfl, .refl _⟩
          have plain : ∀ id, Eval.lineValue text ≠ .function id := by
            intro id
            unfold Eval.lineValue
            dsimp only
            split <;> simp
          exact ofOk (reads rfl) (reads same.input) leads (Overlay.isValid_of_ne plain)

/-- A frame for one name. -/
theorem isValid_single (name : Bytes) {value : Value} (valid : before.IsValid table other value) :
    ∀ text held, Bindings.get? [(name, value)] text = some held →
      before.IsValid table other held := by
  intro text held found
  rw [(Bindings.of_get?_single found).2]
  exact valid

/-- A method with its receiver on both sides. -/
theorem bindMethod (same : before.Corresponds table other) {method : ClosureId}
    (receiver : ObjectId) (isMethod : before.overlay.IsMethod table other method) :
    Retraces table other before (Eval.bind method receiver) (Eval.bind method receiver)
      fun after id => after.overlay.IsCallable table other id := by
  obtain ⟨inherits, -, passage, around, reaches, hides, copied, links⟩ := isMethod
  unfold Eval.bind
  apply get
  have lower : before.lower.heap.closure method =
    ⟨(before.upper.heap.closure method).declaration.relabel (.renumber passage.ids),
      before.projection.image (before.upper.heap.closure method).frame,
      (before.upper.heap.closure method).isInitializer⟩ := copied
  rw [lower]
  apply newFrame same hides (isValid_single _ (Overlay.isValid_of_ne (by simp)))
  intro between frame leads inside
  rw [← Passage.gap_cons reaches (.receiver inherits)] at inside
  exact newClosure leads.same _ (reaches.cons _) inside links

theorem getProperty (same : before.Corresponds table other) (id : ObjectId) (name : Name) :
    Retraces table other before (Eval.getProperty id name) (Eval.getProperty id name)
      fun after value => after.IsValid table other value := by
  unfold Eval.getProperty
  apply get
  have object : before.lower.heap.object id = before.upper.heap.object id := by
    simp only [Heap.object, same.objects]
  simp only [object, same.findMethod?]
  split
  · next value found => exact pure same (same.heaps.fields id name.text value found)
  · split
    · next method found =>
        apply bind (bindMethod same id (same.heaps.isMethod_of_findMethod? found))
        intro between bound leads callable
        exact pure leads.same (Overlay.isValid_function callable)
    · exact fail same _ _

/-- A read in a frame at a distance. -/
theorem getAt (same : before.Corresponds table other) {gap : Option Nat} {frame : FrameId}
    {distance image : Int} (hides : before.projection.Hides before.upper.heap.frames gap frame)
    (shifted : gap ≠ some distance.toNat → image.toNat = shift gap distance.toNat)
    (name : Bytes) :
    Retraces table other before (Eval.ofDesync (before.upper.heap.frames.getAt frame distance name))
      (Eval.ofDesync (before.lower.heap.frames.getAt (before.projection.image frame) image name))
      fun after value => after.IsValid table other value ∧ gap ≠ some distance.toNat := by
  cases read : before.upper.heap.frames.getAt frame distance name with
  | error cause => exact desync cause
  | ok value =>
      obtain ⟨holder, walked, found⟩ := Frames.exists_of_getAt read
      have lower : before.lower.heap.frames.getAt (before.projection.image frame) image name =
          .ok value ∧ gap ≠ some distance.toNat :=
        same.heaps.frames.getAt hides walked found shifted
      rw [lower.1]
      exact pure same ⟨same.heaps.bound holder name value found, lower.2⟩

theorem readAt (same : before.Corresponds table other) {gap : Option Nat} {distance image : Int}
    (hides : before.Hides gap)
    (shifted : gap ≠ some distance.toNat → image.toNat = shift gap distance.toNat)
    (name : Bytes) :
    Retraces table other before (Eval.readAt distance name) (Eval.readAt image name)
      fun after value => after.IsValid table other value ∧ gap ≠ some distance.toNat := by
  unfold Eval.readAt
  apply get
  rw [same.active]
  exact getAt same hides shifted name

theorem readFrom_globals (same : before.Corresponds table other) (token : Token) :
    Retraces table other before (Eval.readFrom Heap.globals token)
      (Eval.readFrom Heap.globals token) fun after value => after.IsValid table other value := by
  unfold Eval.readFrom
  apply get
  have found : before.lower.heap.frames.get Heap.globals token.lexeme =
      before.upper.heap.frames.get Heap.globals token.lexeme :=
    (same.heaps.frames.globals same.heaps.rooted same.heaps.plain same.heaps.global _).1
  rw [found]
  apply ofExcept same token
  intro value reached
  obtain ⟨holder, bound⟩ := Frames.exists_of_get reached
  exact same.heaps.bound holder token.lexeme value bound

/-- A reference and its copy are read alike. -/
theorem readRecorded (same : before.Corresponds table other) {passage : Passage} {site : Site}
    (links : passage.Links table other site) (hides : before.Hides (passage.gap site.regions))
    (token : Token) :
    Retraces table other before (Eval.readRecorded ⟨table, .recorded⟩ site.reference.id token)
      (Eval.readRecorded ⟨other, .recorded⟩ (passage.ids site.reference.id) token)
      fun after value => after.IsValid table other value := by
  unfold Eval.readRecorded
  dsimp only
  rw [links.record]
  cases table[site.reference.id]? with
  | none => exact readFrom_globals same token
  | some distance =>
      apply (readAt same hides (fun _ => rfl) token.lexeme).weaken
      exact fun _ _ _ valid => valid.1

theorem readVariable (same : before.Corresponds table other) {passage : Passage} {site : Site}
    (links : passage.Links table other site) (hides : before.Hides (passage.gap site.regions))
    (name : Name) :
    Retraces table other before (Eval.readVariable ⟨table, .recorded⟩ site.reference.id name)
      (Eval.readVariable ⟨other, .recorded⟩ (passage.ids site.reference.id) name)
      fun after value => after.IsValid table other value :=
  readRecorded same links hides name.token

theorem assignFrom_globals (same : before.Corresponds table other) (name : Name) {value : Value}
    (valid : before.IsValid table other value) :
    Retraces table other before (Eval.assignFrom Heap.globals name value)
      (Eval.assignFrom Heap.globals name value) fun _ _ => True := by
  have holder : before.lower.heap.frames.holder? Heap.globals name.text =
      before.upper.heap.frames.holder? Heap.globals name.text :=
    (same.heaps.frames.globals same.heaps.rooted same.heaps.plain same.heaps.global _).2
  cases found : before.upper.heap.frames.holder? Heap.globals name.text with
  | none =>
      exact ofFault same (Eval.assignFrom_of_none before.upper value found)
        (Eval.assignFrom_of_none before.lower value (holder.trans found))
  | some held =>
      obtain rfl := Frames.eq_globals_of_holder? found
      refine (bindName same valid same.heaps.rooted same.heaps.plain
        (Eval.assignFrom_of_holder? before.upper value found) ?_).weaken fun _ _ _ _ => trivial
      rw [show before.projection.image Heap.globals = Heap.globals from same.heaps.global]
      exact Eval.assignFrom_of_holder? before.lower value (holder.trans found)

/-- A reference and its copy are assigned alike. -/
theorem assignVariable (same : before.Corresponds table other) {passage : Passage} {site : Site}
    (links : passage.Links table other site) (hides : before.Hides (passage.gap site.regions))
    (name : Name) {value : Value} (valid : before.IsValid table other value) :
    Retraces table other before
      (Eval.assignVariable ⟨table, .recorded⟩ site.reference.id name value)
      (Eval.assignVariable ⟨other, .recorded⟩ (passage.ids site.reference.id) name value)
      fun _ _ => True := by
  unfold Eval.assignVariable
  dsimp only
  rw [links.record]
  cases entry : table[site.reference.id]? with
  | none => exact assignFrom_globals same name valid
  | some distance =>
      cases walked : before.upper.heap.frames.ancestor before.upper.active distance with
      | error cause =>
          have stops : Eval.assignAt distance name.text value before.upper =
              .error (.desync cause) before.upper := by
            simp only [Eval.assignAt, Bind.bind, EStateM.bind, Eval.get_apply, walked]
            rfl
          exact ofStop stops (by simp)
      | ok holder =>
          have image : ((shift (passage.gap site.regions) distance : Nat) : Int).toNat =
            shift (passage.gap site.regions) (distance : Int).toNat := rfl
          obtain ⟨arrives, within, plain⟩ :=
            same.heaps.frames.ancestor hides walked (links.apart distance entry) image
          exact (bindName same valid within plain
            (Eval.assignAt_of_ancestor before.upper name.text value walked)
            (Eval.assignAt_of_ancestor before.lower name.text value
              (by rw [same.active]; exact arrives))).weaken fun _ _ _ _ => trivial

/-- `super` and `this` are found where the copy is recorded.  They stand in frames next to
each other, so the hidden frame is nearer than both or further than both. -/
theorem readSuper (same : before.Corresponds table other) {passage : Passage} {site : Site}
    (links : passage.Links table other site) (hides : before.Hides (passage.gap site.regions))
    (method : Name) :
    Retraces table other before (Eval.readSuper ⟨table, .recorded⟩ site.reference.id method)
      (Eval.readSuper ⟨other, .recorded⟩ (passage.ids site.reference.id) method)
      fun after value => after.IsValid table other value := by
  unfold Eval.readSuper
  dsimp only
  rw [links.record]
  generalize passage.gap site.regions = gap at hides
  have far : (table[site.reference.id]?.map (shift gap)).getD 0 =
      shift gap (table[site.reference.id]?.getD 0) := by
    cases table[site.reference.id]? with
    | none => exact (shift_zero gap).symm
    | some distance => rfl
  rw [far]
  generalize table[site.reference.id]?.getD 0 = distance
  apply bind (readAt same hides (fun _ => rfl) _)
  rintro between value leads ⟨-, apart⟩
  cases value with
  | classRef superclass =>
      dsimp only
      have near (nearApart : gap ≠ some ((distance : Int) - 1).toNat) :
          (((shift gap distance : Nat) : Int) - 1).toNat =
            shift gap ((distance : Int) - 1).toNat := by
        cases gap with
        | none => rfl
        | some gap =>
            simp only [ne_eq, Option.some.injEq, Int.toNat_natCast] at apart nearApart
            simp only [shift]
            split <;> split <;> omega
      apply bind (readAt leads.same (leads.hides hides) near _)
      rintro after receiver further -
      cases receiver with
      | object receiver =>
          dsimp only
          apply get
          rw [further.same.findMethod?]
          split
          · next found reached =>
              apply bind (bindMethod further.same receiver
                (further.same.heaps.isMethod_of_findMethod? reached))
              intro last bound later callable
              exact pure later.same (Overlay.isValid_function callable)
          · exact fail further.same _ _
      | _ => exact desync _
  | _ => exact desync _

/-- The methods of a class body on both sides. -/
theorem makeMethods {passage : Passage} {around : List Region} (inherits : Bool)
    (reaches : passage.Reaches around) :
    ∀ {methods : List Function} {made : Bindings ClosureId} {before : Scene},
      before.Corresponds table other → before.Hides (passage.gap around) →
      (∀ site ∈ Function.sitesAll (.receiver inherits :: around) methods,
        passage.Links table other site) →
      (∀ name id, made.get? name = some id → before.overlay.IsMethod table other id) →
        Retraces table other before (Eval.makeMethods methods made)
          (Eval.makeMethods (Function.relabelAll (.renumber passage.ids) methods) made)
          fun after result => ∀ name id, result.get? name = some id →
            after.overlay.IsMethod table other id
  | [], _, _, same, _, _, kept => pure same kept
  | .mk name parameters body :: rest, made, before, same, hides, links, kept => by
      unfold Eval.makeMethods
      apply get
      rw [same.active]
      have added : Retraces table other before
          (Eval.newClosure ⟨.mk name parameters body, before.upper.active,
            name.text == Bytes.ofString "init"⟩)
          (Eval.newClosure ⟨(Function.mk name parameters body).relabel (.renumber passage.ids),
            before.projection.image before.upper.active, name.text == Bytes.ofString "init"⟩)
          fun after id => after.overlay.Holds table other [.receiver inherits] id :=
        newClosure same _ reaches hides fun site member =>
          links site (List.mem_append_left _ member)
      apply bind added
      intro between id leads holds
      apply makeMethods inherits reaches leads.same (leads.hides hides)
        fun site member => links site (List.mem_append_right _ member)
      intro text held found
      by_cases own : text = name.text
      · rw [own] at found
        obtain rfl := Option.some.inj ((Bindings.get?_insert_self ..).symm.trans found)
        exact ⟨inherits, holds⟩
      · have old := (Bindings.get?_insert_of_ne _ _ own).symm.trans found
        exact leads.grows.isMethod (kept text held old)

theorem makeClassBody (same : before.Corresponds table other) {passage : Passage}
    {around : List Region} {methods : List Function} (name : Bytes) (parent : Option ClassId)
    (inherits : Bool) (reaches : passage.Reaches around) (hides : before.Hides (passage.gap around))
    (links : ∀ site ∈ Function.sitesAll (.receiver inherits :: around) methods,
      passage.Links table other site) :
    Retraces table other before
      (do let made ← Eval.makeMethods methods []; Eval.newClass ⟨name, parent, made⟩)
      (do
        let made ← Eval.makeMethods (Function.relabelAll (.renumber passage.ids) methods) []
        Eval.newClass ⟨name, parent, made⟩)
      fun _ _ => True := by
  apply bind (makeMethods inherits reaches same hides links (by simp [Bindings.get?]))
  intro between made leads isMethod
  exact newClass leads.same isMethod

theorem makeSubclass (same : before.Corresponds table other) {passage : Passage}
    {around : List Region} {methods : List Function} (name : Name) (superclass : ClassId)
    (reaches : passage.Reaches around) (hides : before.Hides (passage.gap around))
    (links : ∀ site ∈ Function.sitesAll (.receiver true :: .superclass :: around) methods,
      passage.Links table other site) :
    Retraces table other before (Eval.makeSubclass name superclass methods)
      (Eval.makeSubclass name superclass (Function.relabelAll (.renumber passage.ids) methods))
      fun _ _ => True := by
  rw [Eval.makeSubclass_eq, Eval.makeSubclass_eq]
  apply get
  dsimp only
  rw [same.active]
  apply newFrame same hides (isValid_single _ (Overlay.isValid_of_ne (by simp)))
  intro between frame leads inside
  rw [← Passage.gap_cons reaches .superclass] at inside
  apply within leads.same
  exact makeClassBody (leads.same.enter inside.lt_size) name.text _ true (reaches.cons _) inside
    links

/-- Rebinding a name that the active frame binds. -/
theorem assignActive (same : before.Corresponds table other) {gap : Option Nat}
    (hides : before.Hides gap) (apart : gap ≠ some 0) {name : Name} {value : Value}
    (bound : (before.upper.heap.frames.binding? before.upper.active name.text).isSome)
    (valid : before.IsValid table other value) :
    Retraces table other before (Eval.assignFrom before.upper.active name value)
      (Eval.assignFrom before.lower.active name value) fun _ _ => True := by
  have plain := hides.not_hidden apart
  have binding : before.lower.heap.frames.binding?
      (before.projection.image before.upper.active) name.text =
        before.upper.heap.frames.binding? before.upper.active name.text :=
    same.heaps.frames.binding _ same.within plain name.text
  rw [same.active]
  exact (bindName same valid same.within plain
    (Eval.assignFrom_of_holder? before.upper value (Frames.holder?_of_binding? bound))
    (Eval.assignFrom_of_holder? before.lower value
      (Frames.holder?_of_binding? (by rw [binding]; exact bound)))).weaken fun _ _ _ _ => trivial

/-- A class body made on both sides after its name was bound, and the name rebound. -/
theorem finishClass (same : before.Corresponds table other) {gap : Option Nat}
    (hides : before.Hides gap) (apart : gap ≠ some 0) (name : Name)
    {make imageMake : Eval ClassId}
    (body : ∀ {between : Scene}, between.Corresponds table other → between.Hides gap →
      Retraces table other between make imageMake fun _ _ => True) :
    Retraces table other before
      (do
        Eval.define name.text .nil
        let id ← make
        Eval.assignFrom (← MonadState.get).active name (.classRef id))
      (do
        Eval.define name.text .nil
        let id ← imageMake
        Eval.assignFrom (← MonadState.get).active name (.classRef id))
      fun _ _ => True := by
  apply bind (define same hides apart name.text (Overlay.isValid_of_ne (by simp)))
  intro between _ leads bound
  apply bind (body leads.same (leads.hides hides))
  intro after id further _
  apply get
  refine assignActive further.same (further.hides (leads.hides hides)) apart ?_
    (Overlay.isValid_of_ne (by simp))
  rw [further.active]
  exact further.grows.binds _ _ bound

theorem declareClass (same : before.Corresponds table other) {passage : Passage}
    {around : List Region} {methods : List Function} (name : Name)
    (reaches : passage.Reaches around) (hides : before.Hides (passage.gap around))
    (apart : passage.gap around ≠ some 0)
    (links : ∀ site ∈ Function.sitesAll (.receiver false :: around) methods,
      passage.Links table other site) :
    Retraces table other before (Eval.declareClass ⟨table, .recorded⟩ name none methods)
      (Eval.declareClass ⟨other, .recorded⟩ name none
        (Function.relabelAll (.renumber passage.ids) methods)) fun _ _ => True := by
  apply finishClass same hides apart name
  intro between same hides
  exact makeClassBody same name.text none false reaches hides links

theorem declareSubclass (same : before.Corresponds table other) {passage : Passage}
    {around : List Region} {methods : List Function} (name : Name) {parent : Site}
    (parentName : Name) (reaches : passage.Reaches around)
    (hides : before.Hides (passage.gap around)) (apart : passage.gap around ≠ some 0)
    (named : passage.Links table other parent)
    (beside : passage.gap parent.regions = passage.gap around)
    (links : ∀ site ∈ Function.sitesAll (.receiver true :: .superclass :: around) methods,
      passage.Links table other site) :
    Retraces table other before
      (Eval.declareClass ⟨table, .recorded⟩ name (some (parent.reference.id, parentName)) methods)
      (Eval.declareClass ⟨other, .recorded⟩ name
        (some (passage.ids parent.reference.id, parentName))
        (Function.relabelAll (.renumber passage.ids) methods)) fun _ _ => True := by
  unfold Eval.declareClass
  dsimp only
  apply bind (readVariable same named (by rw [beside]; exact hides) parentName)
  intro between value leads _
  cases value with
  | classRef superclass =>
      apply finishClass leads.same (leads.hides hides) apart name
      intro inside same hides
      exact makeSubclass same name superclass reaches hides links
  | _ => exact fail leads.same _ _

end Retraces

end LoxLang
