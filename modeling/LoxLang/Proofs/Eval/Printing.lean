import LoxLang.Eval.Basic

/-!
Printing and the bound.  An execution adds lines to what was printed and never reads it, and
one that ends within its bound ends in the same way within any larger bound.  Both are one
fact: an action within a bound is repeated by the action within a larger one, whatever was
printed before, and adds the same lines.
-/

namespace LoxLang

/-- The machine with other lines printed. -/
def Machine.withPrinted (machine : Machine) (printed : Array Bytes) : Machine :=
  { machine with printed := printed }

/-- How an action ends on a machine, where it ends within its bound, and how another does for
any lines printed before. -/
inductive EndsRepeated {α : Type} (machine : Machine)
    (image : Array Bytes → EStateM.Result Stop Machine α) :
    EStateM.Result Stop Machine α → Prop where
  | ok {value : α} {after : Machine} (lines : Array Bytes) :
      (∀ printed, image printed = .ok value (after.withPrinted (printed ++ lines))) →
        EndsRepeated machine image (.ok value (after.withPrinted (machine.printed ++ lines)))
  | stopped {stop : Stop} {after : Machine} (lines : Array Bytes) :
      (∀ printed, image printed = .error stop (after.withPrinted (printed ++ lines))) →
        EndsRepeated machine image (.error stop (after.withPrinted (machine.printed ++ lines)))
  | exhausted {after : Machine} : EndsRepeated machine image (.error .outOfFuel after)

/-- Lines that were printed on the way can be put in front. -/
theorem EndsRepeated.after {α : Type} {machine between : Machine} {lines : Array Bytes}
    {image imageNext : Array Bytes → EStateM.Result Stop Machine α}
    {result : EStateM.Result Stop Machine α}
    (ended : EndsRepeated (between.withPrinted (machine.printed ++ lines)) imageNext result)
    (repeated : ∀ printed, image printed = imageNext (printed ++ lines)) :
    EndsRepeated machine image result := by
  have joined (more : Array Bytes) :
      (between.withPrinted (machine.printed ++ lines)).printed ++ more =
        machine.printed ++ (lines ++ more) := Array.append_assoc
  cases ended with
  | exhausted => exact .exhausted
  | ok more further =>
      rw [joined]
      exact .ok (lines ++ more) fun printed => by
        rw [repeated, further, Array.append_assoc]
  | stopped more further =>
      rw [joined]
      exact .stopped (lines ++ more) fun printed => by
        rw [repeated, further, Array.append_assoc]

/-- The action ended within its bound. -/
def Ended {α : Type} (result : EStateM.Result Stop Machine α) : Prop :=
  ∀ after, result ≠ .error .outOfFuel after

theorem Ended.of_ok {α : Type} {result : EStateM.Result Stop Machine α} {value : α}
    {after : Machine} (ends : result = .ok value after) : Ended result := by
  rintro _ rfl
  cases ends

theorem Ended.of_error {α : Type} {result : EStateM.Result Stop Machine α} {stop : Stop}
    {after : Machine} (ends : result = .error stop after) (finite : stop ≠ .outOfFuel) :
    Ended result := by
  rintro _ rfl
  cases ends
  exact finite rfl

/-- The same end after other lines. -/
def Eval.preceded {α : Type} (printed : Array Bytes) :
    EStateM.Result Stop Machine α → EStateM.Result Stop Machine α
  | .ok value after => .ok value (after.withPrinted (printed ++ after.printed))
  | .error stop after => .error stop (after.withPrinted (printed ++ after.printed))

theorem Eval.printLine_eq (value : Value) (machine : Machine) :
    Eval.printLine value machine =
      .ok () (machine.withPrinted (machine.printed ++ #[machine.heap.display value])) := by
  rw [← Array.push_eq_append]
  rfl

/-- An action is repeated by another, whatever was printed before. -/
def Repeats {α : Type} (action image : Eval α) : Prop :=
  ∀ machine, EndsRepeated machine (fun printed => image (machine.withPrinted printed))
    (action machine)

namespace Repeats

variable {α β : Type}

section Rules

variable {action image : Eval α}

/-- An action that leaves alone what was printed. -/
theorem ofOk (value : Machine → α) (after : Machine → Machine)
    (ends : ∀ machine, action machine = .ok (value machine) (after machine))
    (blind : ∀ machine printed, value (machine.withPrinted printed) = value machine ∧
      after (machine.withPrinted printed) = (after machine).withPrinted printed) :
    Repeats action action := by
  intro machine
  have kept : after machine = (after machine).withPrinted (machine.printed ++ #[]) := by
    rw [Array.append_empty]
    exact (blind machine machine.printed).2
  rw [ends, kept]
  refine .ok #[] fun printed => ?_
  rw [ends, (blind machine printed).1, (blind machine printed).2, Array.append_empty]

theorem pure (value : α) : Repeats (pure value) (pure value) :=
  ofOk (fun _ => value) id (fun _ => rfl) fun _ _ => ⟨rfl, rfl⟩

theorem stop (cause : Stop) : Repeats (throw cause : Eval α) (throw cause) := by
  intro machine
  have ends (before : Machine) : (throw cause : Eval α) before = .error cause before := rfl
  have kept : machine = machine.withPrinted (machine.printed ++ #[]) := by
    rw [Array.append_empty]
    rfl
  rw [ends, kept]
  exact .stopped #[] fun printed => by rw [ends, Array.append_empty]; rfl

theorem exhausted : Repeats (throw .outOfFuel) image :=
  fun _ => .exhausted

theorem fail (fault : Fault) (token : Token) :
    Repeats (Eval.fail fault token : Eval α) (Eval.fail fault token) :=
  stop _

theorem ofFault (token : Token) (result : Except Fault α) :
    Repeats (Eval.ofFault token result) (Eval.ofFault token result) := by
  cases result with
  | ok value => exact pure value
  | error fault => exact fail fault token

theorem ofDesync (result : Except Desync α) :
    Repeats (Eval.ofDesync result) (Eval.ofDesync result) := by
  cases result with
  | ok value => exact pure value
  | error cause => exact stop _

/-- The lines of one action are followed by the lines of the next. -/
theorem bind {next imageNext : α → Eval β} (first : Repeats action image)
    (later : ∀ value, Repeats (next value) (imageNext value)) :
    Repeats (action >>= next) (image >>= imageNext) := by
  intro machine
  have begun := first machine
  simp only [Bind.bind, EStateM.bind]
  generalize action machine = result at begun
  cases begun with
  | exhausted => exact .exhausted
  | stopped lines repeated => exact .stopped lines fun printed => by rw [repeated printed]
  | @ok value between lines repeated =>
      have ended := later value (between.withPrinted (machine.printed ++ lines))
      exact ended.after fun printed => by
        rw [repeated printed]
        rfl

/-- What is done with a machine depends on anything but what was printed. -/
theorem get {next imageNext : Machine → Eval β}
    (blind : ∀ machine printed, imageNext (machine.withPrinted printed) = imageNext machine)
    (later : ∀ machine, Repeats (next machine) (imageNext machine)) :
    Repeats (MonadState.get >>= next) (MonadState.get >>= imageNext) := by
  intro machine
  have same (printed : Array Bytes) :
      (MonadState.get >>= imageNext : Eval β) (machine.withPrinted printed) =
        imageNext machine (machine.withPrinted printed) :=
    congrFun (blind machine printed) (machine.withPrinted printed)
  simp only [same]
  exact later machine machine

/-- What is entered before an action and left after it is no matter of printing. -/
theorem around (enter : Machine → Machine) (leave : Machine → Machine → Machine)
    {whole imageWhole : Eval α}
    (wraps : ∀ machine, whole machine = match action (enter machine) with
      | .ok value after => .ok value (leave machine after)
      | .error cause after => .error cause (leave machine after))
    (imageWraps : ∀ machine, imageWhole machine = match image (enter machine) with
      | .ok value after => .ok value (leave machine after)
      | .error cause after => .error cause (leave machine after))
    (enters : ∀ machine printed,
      enter (machine.withPrinted printed) = (enter machine).withPrinted printed)
    (leaves : ∀ machine after printed more, leave (machine.withPrinted printed)
      (after.withPrinted more) = (leave machine after).withPrinted more)
    (repeats : Repeats action image) : Repeats whole imageWhole := by
  intro machine
  have entered : (enter machine).printed = machine.printed := by
    have same := congrArg Machine.printed (enters machine machine.printed)
    exact same
  have kept (lines : Array Bytes) (after : Machine) :
      leave machine (after.withPrinted ((enter machine).printed ++ lines)) =
        (leave machine after).withPrinted (machine.printed ++ lines) := by
    rw [entered]
    exact leaves machine after machine.printed _
  have ended := repeats (enter machine)
  simp only [imageWraps, enters]
  rw [wraps]
  generalize action (enter machine) = result at ended
  cases ended with
  | exhausted => exact .exhausted
  | @ok value after lines repeated =>
      dsimp only
      rw [kept]
      exact .ok lines fun printed => by
        rw [repeated printed]
        exact congrArg (EStateM.Result.ok value) (leaves machine after printed _)
  | @stopped cause after lines repeated =>
      dsimp only
      rw [kept]
      exact .stopped lines fun printed => by
        rw [repeated printed]
        exact congrArg (EStateM.Result.error cause) (leaves machine after printed _)

theorem within (frame : FrameId) (repeats : Repeats action image) :
    Repeats (Eval.within frame action) (Eval.within frame image) :=
  around (fun machine => { machine with active := frame })
    (fun machine after => { after with active := machine.active })
    (fun _ => rfl) (fun _ => rfl) (fun _ _ => rfl) (fun _ _ _ _ => rfl) repeats

theorem counted (repeats : Repeats action image) :
    Repeats (Eval.counted action) (Eval.counted image) :=
  around (fun machine => { machine with depth := machine.depth + 1 })
    (fun _ after => { after with depth := after.depth - 1 })
    (fun _ => rfl) (fun _ => rfl) (fun _ _ => rfl) (fun _ _ _ _ => rfl) repeats

end Rules

section Steps

variable (access : Access)

theorem modify {change : Machine → Machine}
    (blind : ∀ machine printed,
      change (machine.withPrinted printed) = (change machine).withPrinted printed) :
    Repeats (modify change : Eval Unit) (modify change) :=
  ofOk (fun _ => ()) change (fun _ => rfl)
    fun machine printed => ⟨rfl, blind machine printed⟩

theorem modifyGet {change : Machine → α × Machine}
    (blind : ∀ machine printed, change (machine.withPrinted printed) =
      ((change machine).1, (change machine).2.withPrinted printed)) :
    Repeats (modifyGet change : Eval α) (modifyGet change) :=
  ofOk (fun machine => (change machine).1) (fun machine => (change machine).2)
    (fun _ => rfl) fun machine printed => Prod.mk.injEq .. ▸ blind machine printed

theorem printLine (value : Value) : Repeats (Eval.printLine value) (Eval.printLine value) := by
  intro machine
  rw [Eval.printLine_eq]
  exact .ok #[machine.heap.display value] fun printed => Eval.printLine_eq _ _

theorem modifyFrames (change : Frames → Frames) :
    Repeats (Eval.modifyFrames change) (Eval.modifyFrames change) :=
  modify fun _ _ => rfl

theorem newFrame (enclosing : FrameId) (bindings : Bindings Value) :
    Repeats (Eval.newFrame enclosing bindings) (Eval.newFrame enclosing bindings) :=
  modifyGet fun _ _ => rfl

theorem newClosure (closure : Closure) :
    Repeats (Eval.newClosure closure) (Eval.newClosure closure) :=
  modifyGet fun _ _ => rfl

theorem newClass (type : Class) : Repeats (Eval.newClass type) (Eval.newClass type) :=
  modifyGet fun _ _ => rfl

theorem newObject (type : ClassId) : Repeats (Eval.newObject type) (Eval.newObject type) :=
  modifyGet fun _ _ => rfl

theorem setField (id : ObjectId) (name : Bytes) (value : Value) :
    Repeats (Eval.setField id name value) (Eval.setField id name value) :=
  modify fun _ _ => rfl

theorem define (name : Bytes) (value : Value) :
    Repeats (Eval.define name value) (Eval.define name value) :=
  get (fun _ _ => rfl) fun _ => modifyFrames _

theorem assignFrom (frame : FrameId) (name : Name) (value : Value) :
    Repeats (Eval.assignFrom frame name value) (Eval.assignFrom frame name value) := by
  refine get (fun _ _ => rfl) fun machine => ?_
  cases machine.heap.frames.holder? frame name.text with
  | some holder => exact modifyFrames _
  | none => exact fail _ _

theorem readAt (distance : Int) (name : Bytes) :
    Repeats (Eval.readAt distance name) (Eval.readAt distance name) :=
  get (fun _ _ => rfl) fun _ => ofDesync _

theorem readFrom (frame : FrameId) (token : Token) :
    Repeats (Eval.readFrom frame token) (Eval.readFrom frame token) :=
  get (fun _ _ => rfl) fun _ => ofFault _ _

theorem readRecorded (id : RefId) (token : Token) :
    Repeats (Eval.readRecorded access id token) (Eval.readRecorded access id token) := by
  unfold Eval.readRecorded
  cases access.table[id]? with
  | some distance => exact readAt _ _
  | none => exact readFrom _ _

theorem readVariable (id : RefId) (name : Name) :
    Repeats (Eval.readVariable access id name) (Eval.readVariable access id name) := by
  unfold Eval.readVariable
  cases access.mode with
  | recorded => exact readRecorded access id _
  | searched => exact get (fun _ _ => rfl) fun _ => readFrom _ _

theorem assignVariable (id : RefId) (name : Name) (value : Value) :
    Repeats (Eval.assignVariable access id name value)
      (Eval.assignVariable access id name value) := by
  unfold Eval.assignVariable
  cases access.mode with
  | recorded =>
      cases access.table[id]? with
      | some distance => exact get (fun _ _ => rfl) fun _ => (ofDesync _).bind fun _ => modifyFrames _
      | none => exact assignFrom _ name value
  | searched => exact get (fun _ _ => rfl) fun _ => assignFrom _ name value

theorem bindMethod (method : ClosureId) (receiver : ObjectId) :
    Repeats (Eval.bind method receiver) (Eval.bind method receiver) :=
  get (fun _ _ => rfl) fun _ => (newFrame _ _).bind fun _ => newClosure _

theorem getProperty (id : ObjectId) (name : Name) :
    Repeats (Eval.getProperty id name) (Eval.getProperty id name) := by
  refine get (fun _ _ => rfl) fun machine => ?_
  dsimp only
  cases (machine.heap.object id).fields.get? name.text with
  | some value => exact pure _
  | none =>
      dsimp only
      cases machine.heap.findMethod? (machine.heap.object id).type name.text with
      | some method => exact (bindMethod method id).bind fun _ => pure _
      | none => exact fail _ _

theorem readSuper (id : RefId) (method : Name) :
    Repeats (Eval.readSuper access id method) (Eval.readSuper access id method) := by
  refine (readAt _ _).bind fun superclass => ?_
  cases superclass with
  | classRef superclass =>
      refine (readAt _ _).bind fun receiver => ?_
      cases receiver with
      | object receiver =>
          refine get (fun _ _ => rfl) fun machine => ?_
          cases machine.heap.findMethod? superclass method.text with
          | some found => exact (bindMethod found receiver).bind fun _ => pure _
          | none => exact fail _ _
      | _ => exact stop _
  | _ => exact stop _

theorem makeMethods (methods : List Function) (made : Bindings ClosureId) :
    Repeats (Eval.makeMethods methods made) (Eval.makeMethods methods made) := by
  induction methods generalizing made with
  | nil => exact pure made
  | cons method rest inductionHypothesis =>
      exact get (fun _ _ => rfl) fun _ => (newClosure _).bind fun _ => inductionHypothesis _

theorem makeClass (name : Name) (methods : List Function) :
    Repeats (Eval.makeClass name methods) (Eval.makeClass name methods) :=
  (makeMethods methods []).bind fun _ => newClass _

theorem makeSubclass (name : Name) (superclass : ClassId) (methods : List Function) :
    Repeats (Eval.makeSubclass name superclass methods)
      (Eval.makeSubclass name superclass methods) :=
  get (fun _ _ => rfl) fun _ => (newFrame _ _).bind fun _ =>
    (modify fun _ _ => rfl).bind fun _ => (makeMethods methods []).bind fun _ =>
      (newClass _).bind fun _ => (modify fun _ _ => rfl).bind fun _ => pure _

theorem declareClass (name : Name) (superclass : Option (RefId × Name))
    (methods : List Function) :
    Repeats (Eval.declareClass access name superclass methods)
      (Eval.declareClass access name superclass methods) := by
  have finish {make : Eval ClassId} (makes : Repeats make make) :
      Repeats (do let id ← make; Eval.assignFrom (← MonadState.get).active name (.classRef id))
        (do let id ← make; Eval.assignFrom (← MonadState.get).active name (.classRef id)) :=
    makes.bind fun _ => get (fun _ _ => rfl) fun _ => assignFrom _ name _
  cases superclass with
  | none => exact (define name.text .nil).bind fun _ => finish (makeClass name methods)
  | some superclass =>
      obtain ⟨reference, parent⟩ := superclass
      refine (readVariable access reference parent).bind fun value => ?_
      cases value with
      | classRef parentId =>
          exact (define name.text .nil).bind fun _ => finish (makeSubclass name parentId methods)
      | _ => exact fail _ _

theorem callNative (function : Native) :
    Repeats (Eval.callNative function) (Eval.callNative function) := by
  cases function with
  | clock => exact modifyGet fun _ _ => rfl
  | input =>
      refine modifyGet fun machine printed => ?_
      rw [show (machine.withPrinted printed).input = machine.input from rfl]
      cases machine.input.readLine? with
      | none => rfl
      | some read => rfl

end Steps

section Ends

variable {action image : Eval α} {machine : Machine}

theorem ended (repeats : Repeats action image) (ended : Ended (action machine))
    (printed : Array Bytes) : Ended (image (machine.withPrinted printed)) := by
  have ends := repeats machine
  generalize action machine = result at ends ended
  intro after
  cases ends with
  | ok lines repeated => simp [repeated printed]
  | stopped lines repeated =>
      rw [repeated printed]
      rintro ⟨⟩
      exact ended _ rfl
  | exhausted => exact absurd rfl (ended _)

theorem eq_of_ended (repeats : Repeats action image) (ended : Ended (action machine)) :
    image machine = action machine := by
  have ends := repeats machine
  generalize action machine = result at ends ended
  cases ends with
  | ok lines repeated => exact repeated machine.printed
  | stopped lines repeated => exact repeated machine.printed
  | exhausted => exact absurd rfl (ended _)

/-- What an action does where nothing was printed, its repetition does after anything. -/
theorem eq_preceded (repeats : Repeats action image)
    (ended : Ended (action (machine.withPrinted #[]))) (printed : Array Bytes) :
    image (machine.withPrinted printed) =
      Eval.preceded printed (action (machine.withPrinted #[])) := by
  have ends := repeats (machine.withPrinted #[])
  have blank (lines : Array Bytes) : (machine.withPrinted #[]).printed ++ lines = lines :=
    Array.empty_append
  generalize action (machine.withPrinted #[]) = result at ends ended
  cases ends with
  | ok lines repeated =>
      rw [blank]
      exact repeated printed
  | stopped lines repeated =>
      rw [blank]
      exact repeated printed
  | exhausted => exact absurd rfl (ended _)

end Ends

end Repeats

/-- Code that ends within a bound is repeated within another. -/
structure RepeatsWithin (access : Access) (fuel bound : Nat) : Prop where
  evaluate : ∀ expression,
    Repeats (Eval.evaluate access fuel expression) (Eval.evaluate access bound expression)
  evaluateAll : ∀ expressions,
    Repeats (Eval.evaluateAll access fuel expressions) (Eval.evaluateAll access bound expressions)
  call : ∀ function arguments line, Repeats (Eval.call access fuel function arguments line)
    (Eval.call access bound function arguments line)
  apply : ∀ function arguments, Repeats (Eval.apply access fuel function arguments)
    (Eval.apply access bound function arguments)
  invoke : ∀ id arguments,
    Repeats (Eval.invoke access fuel id arguments) (Eval.invoke access bound id arguments)
  execute : ∀ statement,
    Repeats (Eval.execute access fuel statement) (Eval.execute access bound statement)
  executeAll : ∀ statements,
    Repeats (Eval.executeAll access fuel statements) (Eval.executeAll access bound statements)
  executeLoop : ∀ condition body, Repeats (Eval.executeLoop access fuel condition body)
    (Eval.executeLoop access bound condition body)

namespace RepeatsWithin

open Repeats

variable {access : Access} {fuel bound : Nat}

theorem zero (access : Access) (bound : Nat) : RepeatsWithin access 0 bound where
  evaluate _ := by unfold Eval.evaluate; exact exhausted
  evaluateAll _ := by unfold Eval.evaluateAll; exact exhausted
  call _ _ _ := by unfold Eval.call; exact exhausted
  apply _ _ := by unfold Eval.apply; exact exhausted
  invoke _ _ := by unfold Eval.invoke; exact exhausted
  execute _ := by unfold Eval.execute; exact exhausted
  executeAll _ := by unfold Eval.executeAll; exact exhausted
  executeLoop _ _ := by unfold Eval.executeLoop; exact exhausted

theorem evaluate_succ (runs : RepeatsWithin access fuel bound) (expression : Expr) :
    Repeats (Eval.evaluate access (fuel + 1) expression)
      (Eval.evaluate access (bound + 1) expression) := by
  unfold Eval.evaluate
  cases expression with
  | literal value => exact pure _
  | read id name => exact readVariable access id name
  | assign id name value =>
      exact (runs.evaluate value).bind fun _ => (assignVariable access id name _).bind fun _ =>
        pure _
  | unary op line operand => exact (runs.evaluate operand).bind fun _ => ofFault _ _
  | binary op line left right =>
      exact (runs.evaluate left).bind fun _ => (runs.evaluate right).bind fun _ => ofFault _ _
  | logical op left right =>
      refine (runs.evaluate left).bind fun value => ?_
      by_cases decided : Eval.decides op value = true
      · simp only [if_pos decided]
        exact pure value
      · simp only [if_neg decided]
        exact runs.evaluate right
  | group inner => exact runs.evaluate inner
  | call callee arguments line =>
      exact (runs.evaluate callee).bind fun _ => (runs.evaluateAll arguments).bind fun _ =>
        runs.call _ _ line
  | get object name =>
      refine (runs.evaluate object).bind fun value => ?_
      cases value with
      | object id => exact getProperty id name
      | _ => exact fail _ _
  | set object name value =>
      refine (runs.evaluate object).bind fun target => ?_
      cases target with
      | object id =>
          exact (runs.evaluate value).bind fun _ => (setField id name.text _).bind fun _ => pure _
      | _ => exact fail _ _
  | self id line => exact readRecorded access id _
  | superMethod id line method => exact readSuper access id method

theorem evaluateAll_succ (runs : RepeatsWithin access fuel bound) (expressions : List Expr) :
    Repeats (Eval.evaluateAll access (fuel + 1) expressions)
      (Eval.evaluateAll access (bound + 1) expressions) := by
  cases expressions with
  | nil =>
      unfold Eval.evaluateAll
      exact pure []
  | cons first rest =>
      unfold Eval.evaluateAll
      exact (runs.evaluate first).bind fun _ => (runs.evaluateAll rest).bind fun _ => pure _

theorem call_succ (runs : RepeatsWithin access fuel bound) (function : Value)
    (arguments : List Value) (line : Nat) :
    Repeats (Eval.call access (fuel + 1) function arguments line)
      (Eval.call access (bound + 1) function arguments line) := by
  unfold Eval.call
  refine get (fun _ _ => rfl) fun machine => ?_
  cases machine.heap.arity? function with
  | none => exact fail _ _
  | some arity =>
      dsimp only
      split
      · exact fail _ _
      · split
        · exact fail _ _
        · exact (runs.apply function arguments).counted

theorem apply_succ (runs : RepeatsWithin access fuel bound) (function : Value)
    (arguments : List Value) :
    Repeats (Eval.apply access (fuel + 1) function arguments)
      (Eval.apply access (bound + 1) function arguments) := by
  unfold Eval.apply
  cases function with
  | native function => exact callNative function
  | function id => exact runs.invoke id arguments
  | classRef id =>
      refine (newObject id).bind fun object => get (fun _ _ => rfl) fun machine => ?_
      cases machine.heap.initializer? id with
      | some method =>
          exact (bindMethod method object).bind fun bound => (runs.invoke bound arguments).bind
            fun _ => pure _
      | none => exact pure _
  | _ => exact pure _

theorem invoke_succ (runs : RepeatsWithin access fuel bound) (id : ClosureId)
    (arguments : List Value) :
    Repeats (Eval.invoke access (fuel + 1) id arguments)
      (Eval.invoke access (bound + 1) id arguments) := by
  unfold Eval.invoke
  refine get (fun _ _ => rfl) fun machine => ?_
  dsimp only
  split
  · exact stop _
  · refine (newFrame _ _).bind fun frame => ((runs.executeAll _).within frame).bind
      fun completion => ?_
    split
    · exact get (fun _ _ => rfl) fun _ => ofDesync _
    · cases completion with
      | returned value => exact pure _
      | normal => exact pure _

theorem execute_succ (runs : RepeatsWithin access fuel bound) (statement : Stmt) :
    Repeats (Eval.execute access (fuel + 1) statement)
      (Eval.execute access (bound + 1) statement) := by
  unfold Eval.execute
  cases statement with
  | expression value echo => exact (runs.evaluate value).bind fun _ => pure _
  | print value =>
      exact (runs.evaluate value).bind fun _ => (printLine _).bind fun _ => pure _
  | declare name initial =>
      cases initial with
      | none => exact (pure _).bind fun _ => (define name.text _).bind fun _ => pure _
      | some initial =>
          exact (runs.evaluate initial).bind fun _ => (define name.text _).bind fun _ => pure _
  | block body =>
      exact get (fun _ _ => rfl) fun _ => (newFrame _ _).bind fun frame =>
        (runs.executeAll body).within frame
  | branch condition consequence alternative =>
      refine (runs.evaluate condition).bind fun value => ?_
      by_cases holds : value.isTruthy = true
      · simp only [if_pos holds]
        exact runs.execute consequence
      · simp only [if_neg holds]
        cases alternative with
        | some alternative => exact runs.execute alternative
        | none => exact pure _
  | loop condition body => exact runs.executeLoop condition body
  | function declaration =>
      exact get (fun _ _ => rfl) fun _ => (newClosure _).bind fun _ =>
        (define _ _).bind fun _ => pure _
  | leave line value =>
      cases value with
      | some value => exact (runs.evaluate value).bind fun _ => pure _
      | none => exact pure _
  | classDecl name superclass methods =>
      exact (declareClass access name superclass methods).bind fun _ => pure _

theorem executeAll_succ (runs : RepeatsWithin access fuel bound) (statements : List Stmt) :
    Repeats (Eval.executeAll access (fuel + 1) statements)
      (Eval.executeAll access (bound + 1) statements) := by
  cases statements with
  | nil =>
      unfold Eval.executeAll
      exact pure _
  | cons first rest =>
      unfold Eval.executeAll
      refine (runs.execute first).bind fun completion => ?_
      cases completion with
      | normal => exact runs.executeAll rest
      | returned value => exact pure _

theorem executeLoop_succ (runs : RepeatsWithin access fuel bound) (condition : Expr)
    (body : Stmt) :
    Repeats (Eval.executeLoop access (fuel + 1) condition body)
      (Eval.executeLoop access (bound + 1) condition body) := by
  unfold Eval.executeLoop
  refine (runs.evaluate condition).bind fun value => ?_
  by_cases holds : value.isTruthy = true
  · simp only [if_pos holds]
    refine (runs.execute body).bind fun completion => ?_
    cases completion with
    | normal => exact runs.executeLoop condition body
    | returned value => exact pure _
  · simp only [if_neg holds]
    exact pure _

theorem succ (runs : RepeatsWithin access fuel bound) :
    RepeatsWithin access (fuel + 1) (bound + 1) where
  evaluate := runs.evaluate_succ
  evaluateAll := runs.evaluateAll_succ
  call := runs.call_succ
  apply := runs.apply_succ
  invoke := runs.invoke_succ
  execute := runs.execute_succ
  executeAll := runs.executeAll_succ
  executeLoop := runs.executeLoop_succ

theorem all (access : Access) (room : fuel ≤ bound) : RepeatsWithin access fuel bound := by
  induction fuel generalizing bound with
  | zero => exact zero access bound
  | succ fuel inductionHypothesis =>
      obtain ⟨bound, rfl⟩ := Nat.exists_eq_add_of_le' room
      exact (inductionHypothesis (Nat.le_add_left fuel bound)).succ

end RepeatsWithin

end LoxLang
