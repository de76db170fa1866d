import LoxLang.Proofs.Eval.Twins

/-!
Two executions in parallel.  From machines whose heaps correspond, two actions run in
parallel when they end in the same way with the same value, on machines that
correspond again.  Parallel runs compose, and the steps of a machine run in parallel
with themselves.
-/

namespace LoxLang

/-- Two machines, with the spelling of every frame. -/
structure Pair where
  spellings : FrameId → Spelling
  left : Machine
  right : Machine

namespace Pair

def twins (pair : Pair) : Twins :=
  ⟨pair.spellings, pair.left.heap, pair.right.heap⟩

/-- The spellings of the active frame and of the frames around it. -/
def around (pair : Pair) : Spellings :=
  pair.twins.around pair.left.active

def IsValid (like : Likeness) (pair : Pair) (value : Value) : Prop :=
  pair.twins.IsValid like value

/-- Two machines that differ only in their heaps, and these correspond. -/
structure Correspond (like : Likeness) (pair : Pair) : Prop where
  heaps : pair.twins.Correspond like
  active : pair.right.active = pair.left.active
  within : pair.left.active < pair.left.heap.frames.size
  depth : pair.right.depth = pair.left.depth
  input : pair.right.input = pair.left.input
  printed : pair.right.printed = pair.left.printed
  clock : pair.right.clock = pair.left.clock
  ticks : pair.right.ticks = pair.left.ticks

namespace Correspond

variable {like : Likeness} {pair : Pair}

theorem frames_size (same : pair.Correspond like) :
    pair.right.heap.frames.size = pair.left.heap.frames.size :=
  same.heaps.frames.size

theorem closures_size (same : pair.Correspond like) :
    pair.right.heap.closures.size = pair.left.heap.closures.size :=
  same.heaps.closures

theorem classes (same : pair.Correspond like) :
    pair.right.heap.classes = pair.left.heap.classes :=
  same.heaps.classes

theorem objects (same : pair.Correspond like) :
    pair.right.heap.objects = pair.left.heap.objects :=
  same.heaps.objects

theorem ordered (same : pair.Correspond like) : pair.left.heap.frames.IsOrdered :=
  same.heaps.ordered

theorem ancestor (same : pair.Correspond like) (frame : FrameId) (distance : Int) :
    pair.right.heap.frames.ancestor frame distance =
      pair.left.heap.frames.ancestor frame distance :=
  same.heaps.frames.ancestor frame distance

theorem findMethod? (same : pair.Correspond like) (type : ClassId) (name : Bytes) :
    pair.right.heap.findMethod? type name = pair.left.heap.findMethod? type name :=
  same.heaps.findMethod? type name

theorem display (same : pair.Correspond like) {value : Value} (valid : pair.IsValid like value) :
    pair.right.heap.display value = pair.left.heap.display value :=
  same.heaps.display valid

theorem arity? (same : pair.Correspond like) {value : Value} (valid : pair.IsValid like value) :
    pair.right.heap.arity? value = pair.left.heap.arity? value :=
  same.heaps.arity? valid

end Correspond

/-- The pair with other heaps. -/
def withHeaps (pair : Pair) (twins : Twins) : Pair :=
  ⟨twins.spellings, pair.left.withHeap twins.left, pair.right.withHeap twins.right⟩

/-- The pair with another frame active. -/
def enter (pair : Pair) (frame : FrameId) : Pair :=
  ⟨pair.spellings, { pair.left with active := frame }, { pair.right with active := frame }⟩

/-- The pair with another number of calls under way. -/
def atDepth (pair : Pair) (depth : Nat) : Pair :=
  ⟨pair.spellings, { pair.left with depth := depth }, { pair.right with depth := depth }⟩

/-- Two executions lead from one pair to a later one. -/
structure Leads (like : Likeness) (before after : Pair) : Prop where
  same : after.Correspond like
  active : after.left.active = before.left.active
  grows : Twins.Grows before.twins after.twins

namespace Leads

variable {like : Likeness} {before middle after : Pair}

theorem refl (same : before.Correspond like) : Leads like before before :=
  ⟨same, rfl, .refl _⟩

theorem trans (first : Leads like before middle) (second : Leads like middle after) :
    Leads like before after :=
  ⟨second.same, second.active.trans first.active, first.grows.trans second.grows⟩

theorem isValid {value : Value} (leads : Leads like before after)
    (valid : before.IsValid like value) : after.IsValid like value :=
  leads.grows.isValid valid

/-- The scopes around the active frame stay the same. -/
theorem around (leads : Leads like before after) (same : before.Correspond like) :
    after.around = before.around := by
  unfold Pair.around
  rw [leads.active]
  exact leads.grows.around _ same.within

/-- An update of both heaps. -/
theorem ofHeaps (same : before.Correspond like) {twins : Twins} (heaps : twins.Correspond like)
    (grows : Twins.Grows before.twins twins) : Leads like before (before.withHeaps twins) where
  same := ⟨heaps, same.active, Nat.lt_of_lt_of_le same.within grows.frames, same.depth,
    same.input, same.printed, same.clock, same.ticks⟩
  active := rfl
  grows := grows

end Leads

end Pair

open Pair (Leads)

/-- Two executions stop for the same reason, at tokens that correspond. -/
inductive Stop.Alike (like : Likeness) : Stop → Stop → Prop where
  | fault {fault : Fault} {token other : Token} : like.tokens token other →
      Stop.Alike like (.fault ⟨fault, token⟩) (.fault ⟨fault, other⟩)
  | desync {cause : Desync} : Stop.Alike like (.desync cause) (.desync cause)
  | missing {name other : Name} {distance : Int} : like.tokens name.token other.token →
      Stop.Alike like (.desync (.nameMissing name.text distance))
        (.desync (.nameMissing other.text distance))
  | outOfFuel : Stop.Alike like .outOfFuel .outOfFuel

/-- How two parallel executions end. -/
inductive EndsInParallel {α : Type} (like : Likeness) (before : Pair) (post : Pair → α → Prop) :
    EStateM.Result Stop Machine α → EStateM.Result Stop Machine α → Prop where
  | ok {value : α} (after : Pair) : Leads like before after → post after value →
      EndsInParallel like before post (.ok value after.left) (.ok value after.right)
  | error {stop other : Stop} (after : Pair) : Leads like before after →
      Stop.Alike like stop other →
        EndsInParallel like before post (.error stop after.left) (.error other after.right)

/-- Two actions run in parallel from a pair of machines. -/
def Parallel {α : Type} (like : Likeness) (before : Pair) (action other : Eval α)
    (post : Pair → α → Prop) : Prop :=
  EndsInParallel like before post (action before.left) (other before.right)

namespace Parallel

variable {α β : Type} {like : Likeness} {before : Pair}

theorem weaken {action other : Eval α} {post weaker : Pair → α → Prop}
    (parallel : Parallel like before action other post)
    (implies : ∀ after value, Leads like before after → post after value → weaker after value) :
    Parallel like before action other weaker := by
  unfold Parallel at parallel ⊢
  generalize action before.left = result at parallel ⊢
  generalize other before.right = otherResult at parallel ⊢
  cases parallel with
  | ok after leads holds => exact .ok after leads (implies _ _ leads holds)
  | error after leads alike => exact .error after leads alike

/-- Parallel runs follow each other. -/
theorem bind {action other : Eval α} {next otherNext : α → Eval β} {middle : Pair → α → Prop}
    {post : Pair → β → Prop} (first : Parallel like before action other middle)
    (second : ∀ between value, Leads like before between → middle between value →
      Parallel like between (next value) (otherNext value) post) :
    Parallel like before (action >>= next) (other >>= otherNext) post := by
  unfold Parallel at first ⊢
  simp only [Bind.bind, EStateM.bind]
  generalize action before.left = result at first
  generalize other before.right = otherResult at first
  cases first with
  | error after leads alike => exact .error after leads alike
  | @ok value between leads holds =>
      have ending := second between value leads holds
      unfold Parallel at ending
      dsimp only
      generalize next value between.left = final at ending
      generalize otherNext value between.right = otherFinal at ending
      cases ending with
      | ok after further holds => exact .ok after (leads.trans further) holds
      | error after further alike => exact .error after (leads.trans further) alike

/-- Two actions that yield a value and lead to known machines. -/
theorem ofOk {action other : Eval α} {value : α} {after : Pair} {post : Pair → α → Prop}
    (left : action before.left = .ok value after.left)
    (right : other before.right = .ok value after.right) (leads : Leads like before after)
    (holds : post after value) : Parallel like before action other post := by
  unfold Parallel
  rw [left, right]
  exact .ok _ leads holds

theorem ofStop {action other : Eval α} {stop otherStop : Stop} {post : Pair → α → Prop}
    (same : before.Correspond like) (left : action before.left = .error stop before.left)
    (right : other before.right = .error otherStop before.right)
    (alike : Stop.Alike like stop otherStop) : Parallel like before action other post := by
  unfold Parallel
  rw [left, right]
  exact .error _ (.refl same) alike

theorem pure {post : Pair → α → Prop} (same : before.Correspond like) {value : α}
    (holds : post before value) : Parallel like before (pure value) (pure value) post :=
  ofOk rfl rfl (.refl same) holds

/-- Reading the machines changes nothing. -/
theorem get {next otherNext : Machine → Eval β} {post : Pair → β → Prop}
    (parallel : Parallel like before (next before.left) (otherNext before.right) post) :
    Parallel like before (get >>= next) (get >>= otherNext) post :=
  parallel

theorem fail {post : Pair → α → Prop} (same : before.Correspond like) (fault : Fault)
    {token other : Token} (tokens : like.tokens token other) :
    Parallel like before (Eval.fail fault token) (Eval.fail fault other) post :=
  ofStop same rfl rfl (.fault tokens)

theorem outOfFuel {post : Pair → α → Prop} (same : before.Correspond like) :
    Parallel like before (throw .outOfFuel) (throw .outOfFuel) post :=
  ofStop same rfl rfl .outOfFuel

theorem desync {post : Pair → α → Prop} (same : before.Correspond like) (cause : Desync) :
    Parallel like before (throw (.desync cause)) (throw (.desync cause)) post :=
  ofStop same rfl rfl .desync

theorem ofFault {post : Pair → α → Prop} (same : before.Correspond like) {token other : Token}
    (tokens : like.tokens token other) {result : Except Fault α}
    (holds : ∀ value, result = .ok value → post before value) :
    Parallel like before (Eval.ofFault token result) (Eval.ofFault other result) post := by
  cases result with
  | ok value => exact pure same (holds value rfl)
  | error fault => exact fail same fault tokens

/-- Going into a frame and back on both sides. -/
theorem within {action other : Eval α} {post : Pair → α → Prop} (same : before.Correspond like)
    {frame : FrameId}
    (inside : Parallel like (before.enter frame) action other
      fun after value => post (after.enter before.left.active) value) :
    Parallel like before (Eval.within frame action) (Eval.within frame other) post := by
  unfold Parallel at inside
  have left : (before.enter frame).left = { before.left with active := frame } := rfl
  have right : (before.enter frame).right = { before.right with active := frame } := rfl
  rw [left, right] at inside
  have back {after : Pair} (leads : Leads like (before.enter frame) after) :
      Leads like before (after.enter before.left.active) :=
    ⟨⟨leads.same.heaps, rfl, Nat.lt_of_lt_of_le same.within leads.grows.frames, leads.same.depth,
      leads.same.input, leads.same.printed, leads.same.clock, leads.same.ticks⟩, rfl, leads.grows⟩
  unfold Parallel Eval.within
  dsimp only
  rw [same.active]
  generalize action { before.left with active := frame } = result at inside ⊢
  generalize other { before.right with active := frame } = otherResult at inside ⊢
  cases inside with
  | ok after leads holds => exact .ok (after.enter before.left.active) (back leads) holds
  | error after leads alike => exact .error (after.enter before.left.active) (back leads) alike

/-- The number of calls under way is the same on both sides. -/
theorem counted {action other : Eval α} {post : Pair → α → Prop} (same : before.Correspond like)
    (inside : Parallel like (before.atDepth (before.left.depth + 1)) action other
      fun after value => post (after.atDepth (after.left.depth - 1)) value) :
    Parallel like before (Eval.counted action) (Eval.counted other) post := by
  unfold Parallel at inside
  have left : (before.atDepth (before.left.depth + 1)).left =
    { before.left with depth := before.left.depth + 1 } := rfl
  have right : (before.atDepth (before.left.depth + 1)).right =
    { before.right with depth := before.left.depth + 1 } := rfl
  rw [left, right] at inside
  have back {after : Pair} (leads : Leads like (before.atDepth (before.left.depth + 1)) after) :
      Leads like before (after.atDepth (after.left.depth - 1)) :=
    ⟨⟨leads.same.heaps, leads.same.active, leads.same.within, rfl, leads.same.input,
      leads.same.printed, leads.same.clock, leads.same.ticks⟩, leads.active, leads.grows⟩
  unfold Parallel Eval.counted
  rw [same.depth]
  generalize action { before.left with depth := before.left.depth + 1 } = result at inside ⊢
  generalize other { before.right with depth := before.left.depth + 1 } = otherResult
    at inside ⊢
  cases inside with
  | ok after leads holds =>
      dsimp only
      rw [leads.same.depth]
      exact .ok (after.atDepth (after.left.depth - 1)) (back leads) holds
  | error after leads alike =>
      dsimp only
      rw [leads.same.depth]
      exact .error (after.atDepth (after.left.depth - 1)) (back leads) alike

end Parallel

/-- References that correspond are recorded alike: at the same distance, under the
spelling of the scope there, or as the same global name. -/
structure Likeness.Agrees (like : Likeness) (table other : Resolution) : Prop where
  record : ∀ {around : Spellings} {id otherId : RefId} {text otherText : Bytes},
    like.links around id text otherId otherText → other[otherId]? = table[id]?
  held : ∀ {around : Spellings} {id otherId : RefId} {text otherText : Bytes},
    like.links around id text otherId otherText → ∀ distance, table[id]? = some distance →
      otherText = (around distance).spell text
  global : ∀ {around : Spellings} {id otherId : RefId} {text otherText : Bytes},
    like.links around id text otherId otherText → table[id]? = none → otherText = text

namespace Parallel

variable {like : Likeness} {before : Pair} {table other : Resolution}

theorem newFrame (same : before.Correspond like) {outer : FrameId}
    (within : outer < before.left.heap.frames.size) (inner : Spelling)
    {bindings others : Bindings Value}
    (spelled : ∀ name, others.get? (inner.spell name) = bindings.get? name)
    (valid : ∀ name value, bindings.get? name = some value → before.IsValid like value) :
    Parallel like before (Eval.newFrame outer bindings) (Eval.newFrame outer others)
      fun after frame => frame < after.left.heap.frames.size ∧
        after.twins.around frame = (before.twins.around outer).enter inner := by
  have right : Eval.newFrame outer others before.right = .ok before.left.heap.frames.size
      (before.withHeaps (before.twins.addFrame outer inner bindings others)).right := by
    rw [Eval.newFrame_apply, same.frames_size]
    rfl
  apply ofOk (Eval.newFrame_apply before.left outer bindings) right
  · exact .ofHeaps same (same.heaps.addFrame within spelled valid)
      (same.heaps.grows_addFrame outer inner bindings others)
  · exact ⟨by simp [Pair.withHeaps, Machine.withHeap, Twins.addFrame, Heap.addFrame, Pair.twins],
      same.heaps.around_addFrame inner bindings others within⟩

/-- A new frame for one name that every spelling keeps. -/
theorem newFrame_single (same : before.Correspond like) {outer : FrameId}
    (within : outer < before.left.heap.frames.size) (name : Bytes) {value : Value}
    (valid : before.IsValid like value) :
    Parallel like before (Eval.newFrame outer [(name, value)])
      (Eval.newFrame outer [(name, value)])
      fun after frame => frame < after.left.heap.frames.size ∧
        after.twins.around frame = (before.twins.around outer).enter .same := by
  apply newFrame same within .same (fun _ => rfl)
  intro text held found
  rw [(Bindings.of_get?_single found).2]
  exact valid

/-- A name bound on both sides in one frame. -/
theorem bindName (same : before.Correspond like) {action otherAction : Eval Unit}
    {frame : FrameId} {name text : Bytes} {value : Value} (valid : before.IsValid like value)
    (spelled : text = (before.spellings frame).spell name)
    (left : action before.left =
      .ok () (before.left.withHeap (before.left.heap.bindName frame name value)))
    (right : otherAction before.right =
      .ok () (before.right.withHeap (before.right.heap.bindName frame text value))) :
    Parallel like before action otherAction fun after _ => frame < before.left.heap.frames.size →
      (after.left.heap.frames.binding? frame name).isSome := by
  subst spelled
  have leads : Leads like before (before.withHeaps (before.twins.bindName frame name value)) :=
    .ofHeaps same (same.heaps.bindName frame name valid)
      (Twins.Correspond.grows_bindName before.twins frame name value same.heaps.ordered)
  apply ofOk left right leads
  intro within
  have bound : (before.left.heap.frames.define frame name value).binding? frame name =
      some value := Frames.binding?_define_self name value within
  exact (congrArg Option.isSome bound).trans rfl

theorem define (same : before.Correspond like) {name text : Bytes} {value : Value}
    (spelled : text = (before.around 0).spell name) (valid : before.IsValid like value) :
    Parallel like before (Eval.define name value) (Eval.define text value) fun after _ =>
      (after.left.heap.frames.binding? after.left.active name).isSome := by
  have right : Eval.define text value before.right = .ok () (before.right.withHeap
      (before.right.heap.bindName before.left.active text value)) := by
    rw [Eval.define_apply, same.active]
  apply (bindName same valid spelled (Eval.define_apply before.left name value) right).weaken
  intro after _ leads bound
  rw [leads.active]
  exact bound same.within

theorem newClosure (same : before.Correspond like) {inner : Spellings → Spellings}
    {frame : FrameId} {declaration image : Function} (initializer : Bool)
    (within : frame < before.left.heap.frames.size)
    (alike : Function.Alike like (inner (before.twins.around frame)) declaration image) :
    Parallel like before (Eval.newClosure ⟨declaration, frame, initializer⟩)
      (Eval.newClosure ⟨image, frame, initializer⟩)
      fun after id => after.twins.Holds like inner id := by
  have right : Eval.newClosure ⟨image, frame, initializer⟩ before.right =
      .ok before.left.heap.closures.size (before.withHeaps (before.twins.addClosure
        ⟨declaration, frame, initializer⟩ ⟨image, frame, initializer⟩)).right := by
    rw [Eval.newClosure_apply, same.closures_size]
    rfl
  apply ofOk (Eval.newClosure_apply before.left _) right
  · exact .ofHeaps same (same.heaps.addClosure _ _) (same.heaps.grows_addClosure _ _)
  · exact same.heaps.holds_addClosure initializer within alike

theorem newClass (same : before.Correspond like) {made : Class}
    (methods : ∀ name id, made.methods.get? name = some id → before.twins.IsMethod like id) :
    Parallel like before (Eval.newClass made) (Eval.newClass made) fun _ _ => True := by
  have right : Eval.newClass made before.right = .ok before.left.heap.classes.size
      (before.withHeaps (before.twins.addClass made)).right := by
    rw [Eval.newClass_apply, same.classes]
    rfl
  apply ofOk (Eval.newClass_apply before.left made) right
  · exact .ofHeaps same (same.heaps.addClass methods)
      (Twins.Correspond.grows_of_frames_closures rfl rfl rfl rfl)
  · trivial

theorem newObject (same : before.Correspond like) (type : ClassId) :
    Parallel like before (Eval.newObject type) (Eval.newObject type) fun _ _ => True := by
  have right : Eval.newObject type before.right = .ok before.left.heap.objects.size
      (before.withHeaps (before.twins.addObject ⟨type, []⟩)).right := by
    rw [Eval.newObject_apply, same.objects]
    rfl
  apply ofOk (Eval.newObject_apply before.left type) right
  · exact .ofHeaps same (same.heaps.addObject type)
      (Twins.Correspond.grows_of_frames_closures rfl rfl rfl rfl)
  · trivial

theorem setField (same : before.Correspond like) (id : ObjectId) (name : Bytes) {value : Value}
    (valid : before.IsValid like value) :
    Parallel like before (Eval.setField id name value) (Eval.setField id name value)
      fun _ _ => True := by
  have leads : Leads like before (before.withHeaps (before.twins.bindField id name value)) :=
    .ofHeaps same (same.heaps.bindField id name valid)
      (Twins.Correspond.grows_of_frames_closures rfl rfl rfl rfl)
  exact ofOk (Eval.setField_apply before.left id name value)
    (Eval.setField_apply before.right id name value) leads trivial

theorem printLine (same : before.Correspond like) {value : Value}
    (valid : before.IsValid like value) :
    Parallel like before (Eval.printLine value) (Eval.printLine value) fun _ _ => True := by
  let printed (machine : Machine) : Machine :=
    { machine with printed := machine.printed.push (before.left.heap.display value) }
  have leads : Leads like before ⟨before.spellings, printed before.left, printed before.right⟩ :=
    ⟨⟨same.heaps, same.active, same.within, same.depth, same.input,
      congrArg (Array.push · _) same.printed, same.clock, same.ticks⟩, rfl, .refl _⟩
  have right : Eval.printLine value before.right = .ok () (printed before.right) := by
    simp only [Eval.printLine, Eval.modify_apply, printed, same.display valid]
  exact ofOk rfl right leads trivial

theorem callNative (same : before.Correspond like) (function : Native) :
    Parallel like before (Eval.callNative function) (Eval.callNative function)
      fun after value => after.IsValid like value := by
  cases function with
  | clock =>
      let ticked (machine : Machine) : Machine := { machine with ticks := machine.ticks + 1 }
      have leads : Leads like before ⟨before.spellings, ticked before.left, ticked before.right⟩ :=
        ⟨⟨same.heaps, same.active, same.within, same.depth, same.input, same.printed, same.clock,
          congrArg (· + 1) same.ticks⟩, rfl, .refl _⟩
      have right : Eval.callNative .clock before.right =
          .ok (.number (before.left.clock before.left.ticks)) (ticked before.right) := by
        rw [← same.clock, ← same.ticks]
        rfl
      exact ofOk rfl right leads (Twins.isValid_of_ne (by simp))
  | input =>
      cases line : before.left.input.readLine? with
      | none =>
          have ends {machine : Machine} (input : machine.input = before.left.input) :
              Eval.callNative .input machine = .ok .nil machine := by
            simp only [Eval.callNative, Eval.modifyGet_apply, input, line]
          exact ofOk (ends rfl) (ends same.input) (.refl same) (Twins.isValid_of_ne (by simp))
      | some read =>
          obtain ⟨text, input⟩ := read
          let taken (machine : Machine) : Machine := { machine with input := input }
          have reads {machine : Machine} (held : machine.input = before.left.input) :
              Eval.callNative .input machine = .ok (Eval.lineValue text) (taken machine) := by
            simp only [Eval.callNative, Eval.modifyGet_apply, held, line, taken]
          have leads : Leads like before
              ⟨before.spellings, taken before.left, taken before.right⟩ :=
            ⟨⟨same.heaps, same.active, same.within, same.depth, rfl, same.printed, same.clock,
              same.ticks⟩, rfl, .refl _⟩
          have plain : ∀ id, Eval.lineValue text ≠ .function id := by
            intro id
            unfold Eval.lineValue
            dsimp only
            split <;> simp
          exact ofOk (reads rfl) (reads same.input) leads (Twins.isValid_of_ne plain)

/-- A method with its receiver on both sides. -/
theorem bindMethod (same : before.Correspond like) {method : ClosureId} (receiver : ObjectId)
    (isMethod : before.twins.IsMethod like method) :
    Parallel like before (Eval.bind method receiver) (Eval.bind method receiver)
      fun after id => after.twins.IsCallable like id := by
  unfold Eval.bind
  apply get
  have frame : (before.right.heap.closure method).frame = (before.left.heap.closure method).frame :=
    isMethod.frame
  have initializer : (before.right.heap.closure method).isInitializer =
      (before.left.heap.closure method).isInitializer := isMethod.initializer
  dsimp only
  rw [frame, initializer]
  apply bind (newFrame_single same isMethod.within _ (Twins.isValid_of_ne (by simp)))
  rintro between made leads ⟨within, around⟩
  apply newClosure leads.same _ within
  rw [around]
  exact isMethod.declaration

theorem getProperty (same : before.Correspond like) (id : ObjectId) {name image : Name}
    (text : image.text = name.text) (tokens : like.tokens name.token image.token) :
    Parallel like before (Eval.getProperty id name) (Eval.getProperty id image)
      fun after value => after.IsValid like value := by
  unfold Eval.getProperty
  apply get
  have object : before.right.heap.object id = before.left.heap.object id := by
    simp only [Heap.object, same.objects]
  simp only [object, text, same.findMethod?]
  split
  · next value found => exact pure same (same.heaps.fields id name.text value found)
  · split
    · next method found =>
        apply bind (bindMethod same id (same.heaps.isMethod_of_findMethod? found))
        intro between bound leads callable
        exact pure leads.same (Twins.isValid_function callable)
    · exact fail same _ tokens

/-- A read in a frame at a distance, as the frame there spells the name. -/
theorem getAt (same : before.Correspond like) {frame : FrameId} {distance : Int}
    {name text : Bytes}
    (spelled : ∀ holder, before.left.heap.frames.ancestor frame distance = .ok holder →
      text = (before.spellings holder).spell name)
    (missing : Stop.Alike like (.desync (.nameMissing name distance))
      (.desync (.nameMissing text distance))) :
    Parallel like before (Eval.ofDesync (before.left.heap.frames.getAt frame distance name))
      (Eval.ofDesync (before.right.heap.frames.getAt frame distance text))
      fun after value => after.IsValid like value := by
  unfold Frames.getAt
  rw [same.ancestor]
  cases walked : before.left.heap.frames.ancestor frame distance with
  | error cause => exact desync same cause
  | ok holder =>
      have binding : before.right.heap.frames.binding? holder text =
          before.left.heap.frames.binding? holder name := by
        rw [spelled holder walked]
        exact same.heaps.frames.binding holder name
      simp only [Bind.bind, Except.bind, binding]
      cases found : before.left.heap.frames.binding? holder name with
      | none => exact ofStop same rfl rfl missing
      | some value => exact pure same (same.heaps.bound holder name value found)

theorem readAt (same : before.Correspond like) {distance : Int} {name text : Bytes}
    (spelled : ∀ holder,
      before.left.heap.frames.ancestor before.left.active distance = .ok holder →
        text = (before.spellings holder).spell name)
    (missing : Stop.Alike like (.desync (.nameMissing name distance))
      (.desync (.nameMissing text distance))) :
    Parallel like before (Eval.readAt distance name) (Eval.readAt distance text)
      fun after value => after.IsValid like value := by
  unfold Eval.readAt
  apply get
  rw [same.active]
  exact getAt same spelled missing

theorem readFrom_globals (same : before.Correspond like) {token image : Token}
    (tokens : like.tokens token image) (lexeme : image.lexeme = token.lexeme) :
    Parallel like before (Eval.readFrom Heap.globals token) (Eval.readFrom Heap.globals image)
      fun after value => after.IsValid like value := by
  unfold Eval.readFrom
  apply get
  have found : before.right.heap.frames.get Heap.globals token.lexeme =
      before.left.heap.frames.get Heap.globals token.lexeme :=
    same.heaps.frames.get_globals same.heaps.global token.lexeme
  rw [lexeme, found]
  apply ofFault same tokens
  intro value reached
  obtain ⟨holder, bound⟩ := Frames.exists_of_get reached
  exact same.heaps.bound holder token.lexeme value bound

theorem readRecorded (agrees : like.Agrees table other) (same : before.Correspond like)
    {id otherId : RefId} {token image : Token}
    (link : like.links before.around id token.lexeme otherId image.lexeme)
    (tokens : like.tokens token image)
    (missing : ∀ distance, Stop.Alike like (.desync (.nameMissing token.lexeme distance))
      (.desync (.nameMissing image.lexeme distance))) :
    Parallel like before (Eval.readRecorded ⟨table, .recorded⟩ id token)
      (Eval.readRecorded ⟨other, .recorded⟩ otherId image)
      fun after value => after.IsValid like value := by
  unfold Eval.readRecorded
  dsimp only
  rw [agrees.record link]
  cases entry : table[id]? with
  | none => exact readFrom_globals same tokens (agrees.global link entry)
  | some distance =>
      apply readAt same _ (missing distance)
      intro holder walked
      rw [agrees.held link distance entry]
      exact congrArg (Spelling.spell · token.lexeme) (Frames.spellingsAt_of_ancestor walked)

theorem readVariable (agrees : like.Agrees table other) (same : before.Correspond like)
    {id otherId : RefId} {name image : Name}
    (link : like.links before.around id name.text otherId image.text)
    (tokens : like.tokens name.token image.token) :
    Parallel like before (Eval.readVariable ⟨table, .recorded⟩ id name)
      (Eval.readVariable ⟨other, .recorded⟩ otherId image)
      fun after value => after.IsValid like value :=
  readRecorded agrees same link tokens fun _ => .missing tokens

theorem assignFrom_globals (same : before.Correspond like) {name image : Name} {value : Value}
    (text : image.text = name.text) (tokens : like.tokens name.token image.token)
    (valid : before.IsValid like value) :
    Parallel like before (Eval.assignFrom Heap.globals name value)
      (Eval.assignFrom Heap.globals image value) fun _ _ => True := by
  have holder : before.right.heap.frames.holder? Heap.globals name.text =
      before.left.heap.frames.holder? Heap.globals name.text :=
    same.heaps.frames.holder?_globals same.heaps.global name.text
  cases found : before.left.heap.frames.holder? Heap.globals name.text with
  | none =>
      have right := Eval.assignFrom_of_none before.right value
        (show before.right.heap.frames.holder? Heap.globals image.text = none by
          rw [text, holder, found])
      rw [text] at right
      exact ofStop same (Eval.assignFrom_of_none before.left value found) right (.fault tokens)
  | some held =>
      have right := Eval.assignFrom_of_holder? before.right value
        (show before.right.heap.frames.holder? Heap.globals image.text = some held by
          rw [text, holder, found])
      have outermost := Frames.eq_globals_of_holder? found
      have spelled : image.text = (before.spellings held).spell name.text := by
        rw [outermost, text, show before.spellings Heap.globals = .same from same.heaps.global]
        rfl
      exact (bindName same valid spelled (Eval.assignFrom_of_holder? before.left value found)
        right).weaken fun _ _ _ _ => trivial

theorem assignVariable (agrees : like.Agrees table other) (same : before.Correspond like)
    {id otherId : RefId} {name image : Name} {value : Value}
    (link : like.links before.around id name.text otherId image.text)
    (tokens : like.tokens name.token image.token) (valid : before.IsValid like value) :
    Parallel like before (Eval.assignVariable ⟨table, .recorded⟩ id name value)
      (Eval.assignVariable ⟨other, .recorded⟩ otherId image value) fun _ _ => True := by
  unfold Eval.assignVariable
  dsimp only
  rw [agrees.record link]
  cases entry : table[id]? with
  | none => exact assignFrom_globals same (agrees.global link entry) tokens valid
  | some distance =>
      cases walked : before.left.heap.frames.ancestor before.left.active distance with
      | error cause =>
          have stops {machine : Machine} {text : Bytes}
              (arrived : machine.heap.frames.ancestor machine.active distance = .error cause) :
              Eval.assignAt distance text value machine = .error (.desync cause) machine := by
            simp only [Eval.assignAt, Bind.bind, EStateM.bind, Eval.get_apply, arrived]
            rfl
          exact ofStop same (stops walked)
            (stops (by rw [same.active, same.ancestor, walked])) .desync
      | ok holder =>
          have spelled : image.text = (before.spellings holder).spell name.text := by
            rw [agrees.held link distance entry]
            exact congrArg (Spelling.spell · name.text) (Frames.spellingsAt_of_ancestor walked)
          exact (bindName same valid spelled
            (Eval.assignAt_of_ancestor before.left name.text value walked)
            (Eval.assignAt_of_ancestor before.right image.text value
              (by rw [same.active, same.ancestor, walked]))).weaken fun _ _ _ _ => trivial

/-- `super` and `this` are found where the record leads, under their own names. -/
theorem readSuper (agrees : like.Agrees table other) (same : before.Correspond like)
    {id otherId : RefId} {method image : Name}
    (link : like.links before.around id (superName 0).text otherId (superName 0).text)
    (text : image.text = method.text) (tokens : like.tokens method.token image.token) :
    Parallel like before (Eval.readSuper ⟨table, .recorded⟩ id method)
      (Eval.readSuper ⟨other, .recorded⟩ otherId image)
      fun after value => after.IsValid like value := by
  unfold Eval.readSuper
  dsimp only
  rw [agrees.record link]
  apply bind (readAt same (fun holder _ => (before.spellings holder).super.symm) .desync)
  intro between value leads _
  cases value with
  | classRef superclass =>
      dsimp only
      apply bind (readAt leads.same (fun holder _ => (between.spellings holder).this.symm) .desync)
      intro after receiver further _
      cases receiver with
      | object receiver =>
          dsimp only
          apply get
          rw [text, further.same.findMethod?]
          split
          · next found reached =>
              apply bind (bindMethod further.same receiver
                (further.same.heaps.isMethod_of_findMethod? reached))
              intro last bound later callable
              exact pure later.same (Twins.isValid_function callable)
          · exact fail further.same _ tokens
      | _ => exact desync further.same _
  | _ => exact desync leads.same _

/-- The methods of a class body on both sides. -/
theorem makeMethods {around : Spellings} :
    ∀ {methods images : List Function} {made : Bindings ClosureId} {before : Pair},
      before.Correspond like → before.around = around →
      Function.AlikeAll like (around.enter .same) methods images →
      (∀ name id, made.get? name = some id → before.twins.IsMethod like id) →
        Parallel like before (Eval.makeMethods methods made) (Eval.makeMethods images made)
          fun after result => ∀ name id, result.get? name = some id →
            after.twins.IsMethod like id
  | [], _, _, _, same, _, .nil, kept => pure same kept
  | method :: rest, _, made, before, same, stands, .cons alike others, kept => by
      unfold Eval.makeMethods
      apply get
      rw [alike.name_text, same.active]
      have made : Parallel like before
          (Eval.newClosure ⟨method, before.left.active,
            method.name.text == Bytes.ofString "init"⟩)
          (Eval.newClosure ⟨_, before.left.active, method.name.text == Bytes.ofString "init"⟩)
          fun after id => after.twins.IsMethod like id :=
        newClosure same _ same.within (by rw [← stands] at alike; exact alike)
      apply bind made
      intro between id leads isMethod
      apply makeMethods leads.same ((leads.around same).trans stands) others
      intro name held found
      by_cases own : name = method.name.text
      · rw [own, Bindings.get?_insert_self] at found
        obtain rfl := Option.some.inj found
        exact isMethod
      · rw [Bindings.get?_insert_of_ne _ _ own] at found
        exact leads.grows.holds (kept name held found)

theorem makeClassBody (same : before.Correspond like) {around : Spellings}
    {methods images : List Function} (name : Bytes) (parent : Option ClassId)
    (stands : before.around = around)
    (alike : Function.AlikeAll like (around.enter .same) methods images) :
    Parallel like before
      (do let made ← Eval.makeMethods methods []; Eval.newClass ⟨name, parent, made⟩)
      (do let made ← Eval.makeMethods images []; Eval.newClass ⟨name, parent, made⟩)
      fun _ _ => True := by
  apply bind (makeMethods same stands alike (by simp [Bindings.get?]))
  intro between made leads isMethod
  exact newClass leads.same isMethod

theorem makeSubclass (same : before.Correspond like) {around : Spellings}
    {methods images : List Function} {name image : Name} (superclass : ClassId)
    (text : image.text = name.text) (stands : before.around = around)
    (alike : Function.AlikeAll like ((around.enter .same).enter .same) methods images) :
    Parallel like before (Eval.makeSubclass name superclass methods)
      (Eval.makeSubclass image superclass images) fun _ _ => True := by
  rw [Eval.makeSubclass_eq, Eval.makeSubclass_eq]
  apply get
  dsimp only
  rw [same.active, text]
  apply bind (newFrame_single same same.within _ (Twins.isValid_of_ne (by simp)))
  rintro between frame leads ⟨within, inside⟩
  apply Parallel.within leads.same
  have entered : (between.enter frame).Correspond like :=
    ⟨leads.same.heaps, rfl, within, leads.same.depth, leads.same.input, leads.same.printed,
      leads.same.clock, leads.same.ticks⟩
  refine makeClassBody entered name.text _ ?_ alike
  rw [← stands]
  exact inside

end Parallel

end LoxLang
