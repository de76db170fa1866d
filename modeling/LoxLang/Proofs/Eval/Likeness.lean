import LoxLang.Proofs.Eval.Parallel
import LoxLang.Proofs.Eval.Soundness

/-!
Alike programs run in parallel.  By induction on the bound, trees that are alike
evaluate and execute in parallel from machines that correspond, whether or not the
code is well scoped: they print the same lines, take the same input and stop for the
same reason.
-/

namespace LoxLang

open Pair (Leads)

/-- Arguments bound to parameters under the spelling of a function's scope. -/
theorem Bindings.get?_insertAll_spell {α : Type} (inner : Spelling) (name : Bytes) :
    ∀ (pairs : List (Bytes × α)) (bound others : Bindings α),
      (∀ name, others.get? (inner.spell name) = bound.get? name) →
        (others.insertAll (pairs.map (Prod.map inner.spell id))).get? (inner.spell name) =
          (bound.insertAll pairs).get? name
  | [], _, _, same => same name
  | (key, value) :: rest, bound, others, same => by
      apply get?_insertAll_spell inner name rest
      intro text
      by_cases equal : text = key
      · rw [equal, get?_insert_self]
        exact get?_insert_self ..
      · have apart : inner.spell text ≠ inner.spell key := fun images =>
          equal (inner.distinct images)
        rw [get?_insert_of_ne _ _ equal]
        exact (get?_insert_of_ne _ _ apart).trans (same text)

namespace Parallel

variable {like : Likeness} {before : Pair} {table other : Resolution} {around : Spellings}

/-- Rebinding a name that the active frame binds. -/
theorem assignActive (same : before.Correspond like) {name image : Name} {value : Value}
    (stands : before.around = around) (kept : name.IsKept around image)
    (bound : (before.left.heap.frames.binding? before.left.active name.text).isSome)
    (valid : before.IsValid like value) :
    Parallel like before (Eval.assignFrom before.left.active name value)
      (Eval.assignFrom before.right.active image value) fun _ _ => True := by
  have spelled : name.text = (before.spellings before.left.active).spell name.text := by
    have spelling := kept.spelling
    rw [← stands] at spelling
    exact spelling.symm
  have binding : before.right.heap.frames.binding? before.left.active name.text =
      before.left.heap.frames.binding? before.left.active name.text := by
    have found := same.heaps.frames.binding before.left.active name.text
    rw [show before.twins.spellings = before.spellings from rfl, ← spelled] at found
    exact found
  have right : before.right.heap.frames.holder? before.right.active image.text =
      some before.left.active := by
    rw [same.active, kept.text]
    exact Frames.holder?_of_binding? (by rw [binding]; exact bound)
  exact (bindName same valid (by rw [kept.text]; exact spelled)
    (Eval.assignFrom_of_holder? before.left value (Frames.holder?_of_binding? bound))
    (Eval.assignFrom_of_holder? before.right value right)).weaken fun _ _ _ _ => trivial

/-- A class body made on both sides after its name was bound, and the name rebound. -/
theorem finishClass (same : before.Correspond like) {name image : Name}
    (stands : before.around = around) (kept : name.IsKept around image)
    {make otherMake : Eval ClassId}
    (body : ∀ {between : Pair}, between.Correspond like → between.around = around →
      Parallel like between make otherMake fun _ _ => True) :
    Parallel like before
      (do
        Eval.define name.text .nil
        let id ← make
        Eval.assignFrom (← MonadState.get).active name (.classRef id))
      (do
        Eval.define image.text .nil
        let id ← otherMake
        Eval.assignFrom (← MonadState.get).active image (.classRef id))
      fun _ _ => True := by
  have spelled : image.text = (before.around 0).spell name.text := by
    rw [stands, kept.text, kept.spelling]
  apply bind (define same spelled (Twins.isValid_of_ne (by simp)))
  intro between _ leads bound
  have inside := (leads.around same).trans stands
  apply bind (body leads.same inside)
  intro after id further _
  apply get
  refine assignActive further.same ((further.around leads.same).trans inside) kept ?_
    (Twins.isValid_of_ne (by simp))
  rw [further.active]
  exact further.grows.binds _ _ bound

/-- A class declared on both sides. -/
theorem declareClass (same : before.Correspond like) {name image : Name}
    {methods images : List Function} (stands : before.around = around)
    (kept : name.IsKept around image)
    (alike : Function.AlikeAll like (around.enter .same) methods images) :
    Parallel like before (Eval.declareClass ⟨table, .recorded⟩ name none methods)
      (Eval.declareClass ⟨other, .recorded⟩ image none images) fun _ _ => True := by
  apply finishClass same stands kept
  intro between same stands
  unfold Eval.makeClass
  rw [kept.text]
  exact makeClassBody same name.text none stands alike

theorem declareSubclass (agrees : like.Agrees table other) (same : before.Correspond like)
    {name image parent otherParent : Name} {id otherId : RefId} {methods images : List Function}
    (stands : before.around = around) (kept : name.IsKept around image)
    (link : like.links around id parent.text otherId otherParent.text)
    (tokens : like.tokens parent.token otherParent.token)
    (alike : Function.AlikeAll like ((around.enter .same).enter .same) methods images) :
    Parallel like before (Eval.declareClass ⟨table, .recorded⟩ name (some (id, parent)) methods)
      (Eval.declareClass ⟨other, .recorded⟩ image (some (otherId, otherParent)) images)
      fun _ _ => True := by
  unfold Eval.declareClass
  dsimp only
  apply bind (readVariable agrees same (by rw [stands]; exact link) tokens)
  intro between value leads _
  cases value with
  | classRef superclass =>
      apply finishClass leads.same ((leads.around same).trans stands) kept
      intro inside same stands
      exact makeSubclass same superclass kept.text stands alike
  | _ => exact fail leads.same _ tokens

end Parallel

/-- A value that a statement returns stands for the same on both sides. -/
def ReturnsAlike (like : Likeness) (after : Pair) (completion : Completion) : Prop :=
  ∀ value, completion = .returned value → after.IsValid like value

theorem ReturnsAlike.normal {like : Likeness} {after : Pair} : ReturnsAlike like after .normal := by
  intro value isReturned
  cases isReturned

theorem ReturnsAlike.returned {like : Likeness} {after : Pair} {value : Value}
    (valid : after.IsValid like value) : ReturnsAlike like after (.returned value) := by
  rintro _ ⟨⟩
  exact valid

/-- Within a bound, alike trees run in parallel. -/
structure RunsAlike (like : Likeness) (table other : Resolution) (fuel : Nat) : Prop where
  evaluate : ∀ {before : Pair} {around : Spellings} {expression image : Expr},
    before.Correspond like → before.around = around → expression.Alike like around image →
      Parallel like before (Eval.evaluate ⟨table, .recorded⟩ fuel expression)
        (Eval.evaluate ⟨other, .recorded⟩ fuel image) fun after value => after.IsValid like value
  evaluateAll : ∀ {before : Pair} {around : Spellings} {expressions images : List Expr},
    before.Correspond like → before.around = around →
    Expr.AlikeAll like around expressions images →
      Parallel like before (Eval.evaluateAll ⟨table, .recorded⟩ fuel expressions)
        (Eval.evaluateAll ⟨other, .recorded⟩ fuel images)
        fun after values => ∀ value ∈ values, after.IsValid like value
  call : ∀ {before : Pair} {function : Value} {arguments : List Value} {line otherLine : Nat},
    before.Correspond like → before.IsValid like function →
    (∀ value ∈ arguments, before.IsValid like value) →
    like.tokens (closingToken line) (closingToken otherLine) →
      Parallel like before (Eval.call ⟨table, .recorded⟩ fuel function arguments line)
        (Eval.call ⟨other, .recorded⟩ fuel function arguments otherLine)
        fun after value => after.IsValid like value
  apply : ∀ {before : Pair} {function : Value} {arguments : List Value},
    before.Correspond like → before.IsValid like function →
    (∀ value ∈ arguments, before.IsValid like value) →
      Parallel like before (Eval.apply ⟨table, .recorded⟩ fuel function arguments)
        (Eval.apply ⟨other, .recorded⟩ fuel function arguments)
        fun after value => after.IsValid like value
  invoke : ∀ {before : Pair} {id : ClosureId} {arguments : List Value},
    before.Correspond like → before.twins.IsCallable like id →
    (∀ value ∈ arguments, before.IsValid like value) →
      Parallel like before (Eval.invoke ⟨table, .recorded⟩ fuel id arguments)
        (Eval.invoke ⟨other, .recorded⟩ fuel id arguments)
        fun after value => after.IsValid like value
  execute : ∀ {before : Pair} {around : Spellings} {statement image : Stmt},
    before.Correspond like → before.around = around → Stmt.Alike like around statement image →
      Parallel like before (Eval.execute ⟨table, .recorded⟩ fuel statement)
        (Eval.execute ⟨other, .recorded⟩ fuel image) (ReturnsAlike like)
  executeAll : ∀ {before : Pair} {around : Spellings} {statements images : List Stmt},
    before.Correspond like → before.around = around →
    Stmt.AlikeAll like around statements images →
      Parallel like before (Eval.executeAll ⟨table, .recorded⟩ fuel statements)
        (Eval.executeAll ⟨other, .recorded⟩ fuel images) (ReturnsAlike like)
  executeLoop : ∀ {before : Pair} {around : Spellings} {condition otherCondition : Expr}
    {body image : Stmt}, before.Correspond like → before.around = around →
    condition.Alike like around otherCondition → Stmt.Alike like around body image →
      Parallel like before (Eval.executeLoop ⟨table, .recorded⟩ fuel condition body)
        (Eval.executeLoop ⟨other, .recorded⟩ fuel otherCondition image) (ReturnsAlike like)

namespace RunsAlike

variable {like : Likeness} {table other : Resolution} {fuel : Nat} {before : Pair}
  {around : Spellings}

theorem zero (like : Likeness) (table other : Resolution) : RunsAlike like table other 0 where
  evaluate same _ _ := Parallel.outOfFuel same
  evaluateAll same _ _ := Parallel.outOfFuel same
  call same _ _ _ := Parallel.outOfFuel same
  apply same _ _ := Parallel.outOfFuel same
  invoke same _ _ := Parallel.outOfFuel same
  execute same _ _ := Parallel.outOfFuel same
  executeAll same _ _ := Parallel.outOfFuel same
  executeLoop same _ _ _ := Parallel.outOfFuel same

/-- One more step of evaluation, by the form of the expression. -/
theorem evaluate_succ (agrees : like.Agrees table other) (alike : RunsAlike like table other fuel)
    {expression image : Expr} (same : before.Correspond like) (stands : before.around = around)
    (trees : expression.Alike like around image) :
    Parallel like before (Eval.evaluate ⟨table, .recorded⟩ (fuel + 1) expression)
      (Eval.evaluate ⟨other, .recorded⟩ (fuel + 1) image)
      fun after value => after.IsValid like value := by
  cases trees with
  | @literal value =>
      simp only [Eval.evaluate]
      exact Parallel.pure same (Twins.isValid_of_ne value.value_isPlain.function)
  | read link tokens =>
      simp only [Eval.evaluate]
      exact Parallel.readVariable agrees same (by rw [stands]; exact link) tokens
  | assign link tokens value =>
      simp only [Eval.evaluate]
      apply Parallel.bind (alike.evaluate same stands value)
      intro between result leads valid
      have inside := (leads.around same).trans stands
      apply Parallel.bind
        (Parallel.assignVariable agrees leads.same (by rw [inside]; exact link) tokens valid)
      intro after _ further _
      exact Parallel.pure further.same (further.isValid valid)
  | unary tokens operand =>
      simp only [Eval.evaluate]
      apply Parallel.bind (alike.evaluate same stands operand)
      intro between value leads _
      apply Parallel.ofFault leads.same tokens
      intro result applied
      exact Twins.isValid_of_ne (UnaryOp.apply_isPlain applied).function
  | binary tokens left right =>
      simp only [Eval.evaluate]
      apply Parallel.bind (alike.evaluate same stands left)
      intro between leftValue leads _
      apply Parallel.bind (alike.evaluate leads.same ((leads.around same).trans stands) right)
      intro after rightValue further _
      apply Parallel.ofFault further.same tokens
      intro result applied
      exact Twins.isValid_of_ne (BinaryOp.apply_isPlain applied).function
  | logical left right =>
      simp only [Eval.evaluate]
      apply Parallel.bind (alike.evaluate same stands left)
      intro between leftValue leads valid
      split
      · exact Parallel.pure leads.same valid
      · exact alike.evaluate leads.same ((leads.around same).trans stands) right
  | group inner =>
      simp only [Eval.evaluate]
      exact alike.evaluate same stands inner
  | call tokens callee arguments =>
      simp only [Eval.evaluate]
      apply Parallel.bind (alike.evaluate same stands callee)
      intro between function leads validFunction
      apply Parallel.bind
        (alike.evaluateAll leads.same ((leads.around same).trans stands) arguments)
      intro after values further validValues
      exact alike.call further.same (further.isValid validFunction) validValues tokens
  | get text tokens object =>
      simp only [Eval.evaluate]
      apply Parallel.bind (alike.evaluate same stands object)
      intro between value leads _
      cases value with
      | object id => exact Parallel.getProperty leads.same id text tokens
      | _ => exact Parallel.fail leads.same _ tokens
  | set text tokens object value =>
      simp only [Eval.evaluate]
      apply Parallel.bind (alike.evaluate same stands object)
      intro between target leads _
      cases target with
      | object id =>
          apply Parallel.bind (alike.evaluate leads.same ((leads.around same).trans stands) value)
          intro middle result further valid
          rw [text]
          apply Parallel.bind (Parallel.setField further.same id _ valid)
          intro after _ last _
          exact Parallel.pure last.same (last.isValid valid)
      | _ => exact Parallel.fail leads.same _ tokens
  | self link tokens =>
      simp only [Eval.evaluate]
      exact Parallel.readRecorded agrees same (by rw [stands]; exact link) tokens
        fun _ => .desync
  | superMethod link text tokens =>
      simp only [Eval.evaluate]
      exact Parallel.readSuper agrees same (by rw [stands]; exact link) text tokens

theorem evaluateAll_succ (alike : RunsAlike like table other fuel)
    {expressions images : List Expr} (same : before.Correspond like)
    (stands : before.around = around) (trees : Expr.AlikeAll like around expressions images) :
    Parallel like before (Eval.evaluateAll ⟨table, .recorded⟩ (fuel + 1) expressions)
      (Eval.evaluateAll ⟨other, .recorded⟩ (fuel + 1) images)
      fun after values => ∀ value ∈ values, after.IsValid like value := by
  cases trees with
  | nil =>
      simp only [Eval.evaluateAll]
      exact Parallel.pure same (by simp)
  | cons first rest =>
      simp only [Eval.evaluateAll]
      apply Parallel.bind (alike.evaluate same stands first)
      intro between value leads valid
      apply Parallel.bind (alike.evaluateAll leads.same ((leads.around same).trans stands) rest)
      intro after values further validRest
      apply Parallel.pure further.same
      intro held member
      rcases List.mem_cons.mp member with rfl | inRest
      · exact further.isValid valid
      · exact validRest held inRest

theorem call_succ (alike : RunsAlike like table other fuel) {function : Value}
    {arguments : List Value} {line otherLine : Nat} (same : before.Correspond like)
    (validFunction : before.IsValid like function)
    (valid : ∀ value ∈ arguments, before.IsValid like value)
    (tokens : like.tokens (closingToken line) (closingToken otherLine)) :
    Parallel like before (Eval.call ⟨table, .recorded⟩ (fuel + 1) function arguments line)
      (Eval.call ⟨other, .recorded⟩ (fuel + 1) function arguments otherLine)
      fun after value => after.IsValid like value := by
  simp only [Eval.call]
  apply Parallel.get
  rw [same.arity? validFunction, same.depth]
  split
  · exact Parallel.fail same _ tokens
  · split
    · exact Parallel.fail same _ tokens
    · split
      · exact Parallel.fail same _ tokens
      · apply Parallel.counted same
        have deeper : (before.atDepth (before.left.depth + 1)).Correspond like :=
          ⟨same.heaps, same.active, same.within, rfl, same.input, same.printed, same.clock,
            same.ticks⟩
        exact alike.apply deeper validFunction valid

theorem apply_succ (alike : RunsAlike like table other fuel) {function : Value}
    {arguments : List Value} (same : before.Correspond like)
    (validFunction : before.IsValid like function)
    (valid : ∀ value ∈ arguments, before.IsValid like value) :
    Parallel like before (Eval.apply ⟨table, .recorded⟩ (fuel + 1) function arguments)
      (Eval.apply ⟨other, .recorded⟩ (fuel + 1) function arguments)
      fun after value => after.IsValid like value := by
  cases function with
  | native function =>
      simp only [Eval.apply]
      exact Parallel.callNative same function
  | function id =>
      simp only [Eval.apply]
      exact alike.invoke same (validFunction id rfl) valid
  | classRef id =>
      simp only [Eval.apply]
      apply Parallel.bind (Parallel.newObject same id)
      intro between object leads _
      apply Parallel.get
      have initializer : between.right.heap.initializer? id = between.left.heap.initializer? id :=
        leads.same.findMethod? id _
      rw [initializer]
      cases found : between.left.heap.initializer? id with
      | none => exact Parallel.pure leads.same (Twins.isValid_of_ne (by simp))
      | some method =>
          have isMethod := leads.same.heaps.isMethod_of_findMethod? found
          apply Parallel.bind (Parallel.bindMethod leads.same object isMethod)
          intro middle bound further callable
          apply Parallel.bind (alike.invoke further.same callable
            fun value member => further.isValid (leads.isValid (valid value member)))
          intro after _ last _
          exact Parallel.pure last.same (Twins.isValid_of_ne (by simp))
  | _ =>
      simp only [Eval.apply]
      exact Parallel.pure same (Twins.isValid_of_ne (by simp))

/-- The parameters of a call are bound to its arguments, as the function's scope spells
them. -/
theorem invoke_succ (alike : RunsAlike like table other fuel) {id : ClosureId}
    {arguments : List Value} (same : before.Correspond like)
    (callable : before.twins.IsCallable like id)
    (valid : ∀ value ∈ arguments, before.IsValid like value) :
    Parallel like before (Eval.invoke ⟨table, .recorded⟩ (fuel + 1) id arguments)
      (Eval.invoke ⟨other, .recorded⟩ (fuel + 1) id arguments)
      fun after value => after.IsValid like value := by
  have within : (before.left.heap.closure id).frame < before.left.heap.frames.size :=
    callable.within
  have frame : (before.right.heap.closure id).frame = (before.left.heap.closure id).frame :=
    callable.frame
  have initializer : (before.right.heap.closure id).isInitializer =
      (before.left.heap.closure id).isInitializer := callable.initializer
  have declaration : Function.Alike like
      (before.twins.around (before.left.heap.closure id).frame)
      (before.left.heap.closure id).declaration (before.right.heap.closure id).declaration :=
    callable.declaration
  have count : ((before.right.heap.closure id).declaration.parameters.map Name.text).length =
      ((before.left.heap.closure id).declaration.parameters.map Name.text).length := by
    rw [List.length_map, List.length_map, declaration.length_parameters]
  simp only [Eval.invoke]
  apply Parallel.get
  by_cases mismatch : ((before.left.heap.closure id).declaration.parameters.map
      Name.text).length ≠ arguments.length
  · rw [if_pos mismatch, if_pos (by rw [count]; exact mismatch), count]
    exact Parallel.ofStop same rfl rfl .desync
  · rw [if_neg mismatch, if_neg (by rw [count]; exact mismatch)]
    -- The closures are taken apart, so that the two declarations can be compared.
    clear callable mismatch count
    generalize before.left.heap.closure id = closure at *
    generalize before.right.heap.closure id = image at *
    rw [frame, initializer]
    obtain ⟨function, home, isInitializer⟩ := closure
    obtain ⟨otherFunction, _, _⟩ := image
    dsimp only at *
    cases declaration with
    | @intro _ _ _ parameters others body otherBody inner _ names trees =>
        have spelled (name : Bytes) :
            (Bindings.insertAll [] ((others.map Name.text).zip arguments)).get?
                (inner.spell name) =
              (Bindings.insertAll [] ((parameters.map Name.text).zip arguments)).get? name := by
          rw [names, List.zip_map_left]
          exact Bindings.get?_insertAll_spell inner name _ [] [] fun _ => rfl
        have bound (name : Bytes) (value : Value) (found : (Bindings.insertAll []
            ((parameters.map Name.text).zip arguments)).get? name = some value) :
            before.IsValid like value := by
          rcases Bindings.mem_of_get?_insertAll found with paired | absent
          · exact valid value (List.of_mem_zip paired).2
          · simp [Bindings.get?] at absent
        -- The new frame is the one place where the spelling of the parameters comes in.
        apply Parallel.bind (Parallel.newFrame same within inner spelled bound)
        rintro between made leads ⟨room, inside⟩
        have entered : (between.enter made).Correspond like :=
          ⟨leads.same.heaps, rfl, room, leads.same.depth, leads.same.input, leads.same.printed,
            leads.same.clock, leads.same.ticks⟩
        have ran : Parallel like between
            (Eval.within made (Eval.executeAll ⟨table, .recorded⟩ fuel body))
            (Eval.within made (Eval.executeAll ⟨other, .recorded⟩ fuel otherBody))
            (ReturnsAlike like) :=
          Parallel.within leads.same (alike.executeAll entered inside trees)
        apply Parallel.bind ran
        intro after completion further returned
        split
        · apply Parallel.get
          exact Parallel.getAt further.same (fun holder _ => (after.spellings holder).this.symm)
            .desync
        · cases completion with
          | normal => exact Parallel.pure further.same (Twins.isValid_of_ne (by simp))
          | returned value => exact Parallel.pure further.same (returned value rfl)

/-- One more step of execution, by the form of the statement. -/
theorem execute_succ (agrees : like.Agrees table other) (alike : RunsAlike like table other fuel)
    {statement image : Stmt} (same : before.Correspond like) (stands : before.around = around)
    (trees : Stmt.Alike like around statement image) :
    Parallel like before (Eval.execute ⟨table, .recorded⟩ (fuel + 1) statement)
      (Eval.execute ⟨other, .recorded⟩ (fuel + 1) image) (ReturnsAlike like) := by
  cases trees with
  | expression value =>
      simp only [Eval.execute]
      apply Parallel.bind (alike.evaluate same stands value)
      intro after _ leads _
      exact Parallel.pure leads.same .normal
  | print value =>
      simp only [Eval.execute]
      apply Parallel.bind (alike.evaluate same stands value)
      intro between result leads valid
      apply Parallel.bind (Parallel.printLine leads.same valid)
      intro after _ further _
      exact Parallel.pure further.same .normal
  | @declare _ name otherName initial otherInitial spelled initials =>
      have finish {between : Pair} {value : Value} (leads : Leads like before between)
          (valid : between.IsValid like value) :
          Parallel like between (do Eval.define name.text value; return Completion.normal)
            (do Eval.define otherName.text value; return Completion.normal)
            (ReturnsAlike like) := by
        have here : otherName.text = (between.around 0).spell name.text := by
          rw [leads.around same, stands]
          exact spelled
        apply Parallel.bind (Parallel.define leads.same here valid)
        intro after _ further _
        exact Parallel.pure further.same .normal
      cases initials with
      | none =>
          simp only [Eval.execute, pure_bind]
          exact finish (.refl same) (Twins.isValid_of_ne (by simp))
      | some initial =>
          simp only [Eval.execute]
          apply Parallel.bind (alike.evaluate same stands initial)
          intro between value leads valid
          exact finish leads valid
  | block inner body =>
      simp only [Eval.execute]
      apply Parallel.get
      rw [same.active]
      apply Parallel.bind (Parallel.newFrame same same.within inner (fun _ => rfl)
        (by simp [Bindings.get?]))
      rintro between frame leads ⟨room, inside⟩
      have entered : (between.enter frame).Correspond like :=
        ⟨leads.same.heaps, rfl, room, leads.same.depth, leads.same.input, leads.same.printed,
          leads.same.clock, leads.same.ticks⟩
      apply Parallel.within leads.same
      rw [← stands] at body
      exact alike.executeAll entered inside body
  | branch condition consequence =>
      simp only [Eval.execute]
      apply Parallel.bind (alike.evaluate same stands condition)
      intro between value leads _
      split
      · exact alike.execute leads.same ((leads.around same).trans stands) consequence
      · exact Parallel.pure leads.same .normal
  | branchElse condition consequence alternative =>
      simp only [Eval.execute]
      apply Parallel.bind (alike.evaluate same stands condition)
      intro between value leads _
      split
      · exact alike.execute leads.same ((leads.around same).trans stands) consequence
      · exact alike.execute leads.same ((leads.around same).trans stands) alternative
  | loop condition body =>
      simp only [Eval.execute]
      exact alike.executeLoop same stands condition body
  | @function _ declaration image kept trees =>
      simp only [Eval.execute]
      apply Parallel.get
      rw [same.active]
      have made : Parallel like before
          (Eval.newClosure ⟨declaration, before.left.active, false⟩)
          (Eval.newClosure ⟨image, before.left.active, false⟩)
          fun after id => after.twins.IsCallable like id :=
        Parallel.newClosure same false same.within (by rw [← stands] at trees; exact trees)
      apply Parallel.bind made
      intro between id leads callable
      have spelled : image.name.text = (between.around 0).spell declaration.name.text := by
        rw [leads.around same, stands, kept.text, kept.spelling]
      apply Parallel.bind
        (Parallel.define leads.same spelled (Twins.isValid_function callable))
      intro after _ further _
      exact Parallel.pure further.same .normal
  | leave value =>
      simp only [Eval.execute]
      cases value with
      | none => exact Parallel.pure same (.returned (Twins.isValid_of_ne (by simp)))
      | some value =>
          apply Parallel.bind (alike.evaluate same stands value)
          intro after result leads valid
          exact Parallel.pure leads.same (.returned valid)
  | classDecl kept methods =>
      simp only [Eval.execute]
      apply Parallel.bind (Parallel.declareClass same stands kept methods)
      intro after _ leads _
      exact Parallel.pure leads.same .normal
  | subclass kept link tokens methods =>
      simp only [Eval.execute]
      apply Parallel.bind (Parallel.declareSubclass agrees same stands kept link tokens methods)
      intro after _ leads _
      exact Parallel.pure leads.same .normal

theorem executeAll_succ (alike : RunsAlike like table other fuel) {statements images : List Stmt}
    (same : before.Correspond like) (stands : before.around = around)
    (trees : Stmt.AlikeAll like around statements images) :
    Parallel like before (Eval.executeAll ⟨table, .recorded⟩ (fuel + 1) statements)
      (Eval.executeAll ⟨other, .recorded⟩ (fuel + 1) images) (ReturnsAlike like) := by
  cases trees with
  | nil =>
      simp only [Eval.executeAll]
      exact Parallel.pure same .normal
  | cons first rest =>
      simp only [Eval.executeAll]
      apply Parallel.bind (alike.execute same stands first)
      intro between completion leads returned
      cases completion with
      | normal => exact alike.executeAll leads.same ((leads.around same).trans stands) rest
      | returned value => exact Parallel.pure leads.same returned

theorem executeLoop_succ (alike : RunsAlike like table other fuel)
    {condition otherCondition : Expr} {body image : Stmt} (same : before.Correspond like)
    (stands : before.around = around) (conditions : condition.Alike like around otherCondition)
    (bodies : Stmt.Alike like around body image) :
    Parallel like before (Eval.executeLoop ⟨table, .recorded⟩ (fuel + 1) condition body)
      (Eval.executeLoop ⟨other, .recorded⟩ (fuel + 1) otherCondition image)
      (ReturnsAlike like) := by
  simp only [Eval.executeLoop]
  apply Parallel.bind (alike.evaluate same stands conditions)
  intro between value leads _
  have inside := (leads.around same).trans stands
  split
  · apply Parallel.bind (alike.execute leads.same inside bodies)
    intro after completion further returned
    cases completion with
    | normal =>
        exact alike.executeLoop further.same ((further.around leads.same).trans inside) conditions
          bodies
    | returned value => exact Parallel.pure further.same returned
  · exact Parallel.pure leads.same .normal

/-- Alike trees run in parallel within every bound. -/
theorem all (agrees : like.Agrees table other) (fuel : Nat) :
    RunsAlike like table other fuel := by
  induction fuel with
  | zero => exact zero like table other
  | succ fuel alike =>
      exact ⟨alike.evaluate_succ agrees, alike.evaluateAll_succ, alike.call_succ,
        alike.apply_succ, alike.invoke_succ, alike.execute_succ agrees, alike.executeAll_succ,
        alike.executeLoop_succ⟩

end RunsAlike

namespace Parallel

variable {like : Likeness} {table other : Resolution}

theorem executeTopLevel (agrees : like.Agrees table other) (fuel : Nat) (interactive : Bool)
    {before : Pair} {around : Spellings} {statement image : Stmt}
    (same : before.Correspond like) (stands : before.around = around)
    (trees : Stmt.Alike like around statement image) :
    Parallel like before (Eval.executeTopLevel ⟨table, .recorded⟩ fuel interactive statement)
      (Eval.executeTopLevel ⟨other, .recorded⟩ fuel interactive image) fun _ _ => True := by
  have alike := RunsAlike.all agrees fuel
  have executed : Parallel like before
      (do let _ ← Eval.execute ⟨table, .recorded⟩ fuel statement)
      (do let _ ← Eval.execute ⟨other, .recorded⟩ fuel image) fun _ _ => True := by
    apply Parallel.bind (alike.execute same stands trees)
    intro after _ leads _
    exact Parallel.pure leads.same trivial
  cases trees with
  | expression value =>
      simp only [Eval.executeTopLevel]
      split
      · apply Parallel.bind (alike.evaluate same stands value)
        intro between result leads valid
        exact Parallel.printLine leads.same valid
      · exact executed
  | _ => exact executed

/-- Alike programs run in parallel. -/
theorem interpret (agrees : like.Agrees table other) (fuel : Nat) (interactive : Bool)
    {around : Spellings} {statements images : List Stmt} {before : Pair}
    (same : before.Correspond like) (stands : before.around = around)
    (trees : Stmt.AlikeAll like around statements images) :
    Parallel like before (Eval.interpret ⟨table, .recorded⟩ fuel interactive statements)
      (Eval.interpret ⟨other, .recorded⟩ fuel interactive images) fun _ _ => True := by
  induction statements generalizing images before with
  | nil =>
      cases trees with
      | nil => exact Parallel.pure same trivial
  | cons first rest inductionHypothesis =>
      cases trees with
      | cons head tail =>
          simp only [Eval.interpret]
          apply Parallel.bind (executeTopLevel agrees fuel interactive same stands head)
          intro between _ leads _
          exact inductionHypothesis leads.same ((leads.around same).trans stands) tail

end Parallel

end LoxLang
