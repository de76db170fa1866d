import LoxLang.Proofs.Eval.Steps

/-!
Accepted code runs soundly.  By induction on the bound, no evaluation of an
accepted expression or statement stops on a desync, and searching for variables
makes no difference where the code is searchable.
-/

namespace LoxLang

open Scope

open Config (Leads)

namespace Code

/-- Expressions can be evaluated inside these scopes. -/
def AcceptsReferences (code : Code) (around : List Region) (references : List Reference) :
    Prop :=
  ∀ site ∈ sitesAt around references, code.AcceptsSite site

/-- A statement can be executed inside these scopes. -/
structure AcceptsStmt (code : Code) (around : List Region) (statement : Stmt) : Prop where
  regular : statement.IsRegular
  allows : Allows around statement.declares
  sites : ∀ site ∈ statement.sites around, code.AcceptsSite site

/-- Statements can be executed in order inside these scopes. -/
structure AcceptsAll (code : Code) (around : List Region) (statements : List Stmt) : Prop where
  regular : Stmt.IsRegularAll statements
  allows : Allows around (Stmt.declaresAll statements)
  sites : ∀ site ∈ Stmt.sitesAll around statements, code.AcceptsSite site

variable {code : Code} {around : List Region}

theorem AcceptsReferences.append {first second : List Reference}
    (accepts : code.AcceptsReferences around (first ++ second)) :
    code.AcceptsReferences around first ∧ code.AcceptsReferences around second := by
  unfold AcceptsReferences sitesAt at *
  rw [List.map_append] at accepts
  exact ⟨fun site member => accepts site (List.mem_append_left _ member),
    fun site member => accepts site (List.mem_append_right _ member)⟩

theorem AcceptsReferences.site {reference : Reference}
    (accepts : code.AcceptsReferences around [reference]) :
    code.AcceptsSite ⟨reference, around⟩ :=
  accepts _ (List.mem_singleton_self _)

theorem AcceptsAll.cons {first : Stmt} {rest : List Stmt}
    (accepts : code.AcceptsAll around (first :: rest)) :
    code.AcceptsStmt around first ∧ code.AcceptsAll (declared first.declares around) rest := by
  obtain ⟨regular, allows, sites⟩ := accepts
  obtain ⟨allowsFirst, allowsRest⟩ := Allows.append allows
  exact ⟨⟨regular.1, allowsFirst, fun site member => sites site (List.mem_append_left _ member)⟩,
    regular.2, allowsRest, fun site member => sites site (List.mem_append_right _ member)⟩

/-- The body of another statement declares nothing, so it is accepted where that
statement stands. -/
theorem AcceptsStmt.ofQuiet {statement : Stmt} (regular : statement.IsRegular)
    (quiet : statement.declares = [])
    (sites : ∀ site ∈ statement.sites around, code.AcceptsSite site) :
    code.AcceptsStmt around statement := by
  refine ⟨regular, ?_, sites⟩
  rw [quiet]
  simp [Allows]

theorem AcceptsStmt.branch {condition : Expr} {consequence : Stmt} {alternative : Option Stmt}
    (accepts : code.AcceptsStmt around (.branch condition consequence alternative)) :
    code.AcceptsReferences around condition.references ∧
      (code.AcceptsStmt around consequence ∧ consequence.declares = []) ∧
        ∀ other, alternative = some other →
          code.AcceptsStmt around other ∧ other.declares = [] := by
  obtain ⟨regular, -, sites⟩ := accepts
  cases alternative with
  | none =>
      obtain ⟨regularThen, quiet⟩ := regular
      refine ⟨fun site member => sites site (List.mem_append_left _ member),
        ⟨.ofQuiet regularThen quiet fun site member => ?_, quiet⟩, by simp⟩
      exact sites site (List.mem_append_right _ member)
  | some alternative =>
      obtain ⟨⟨regularThen, quietThen⟩, regularElse, quietElse⟩ := regular
      simp only [Stmt.sites, quietThen, declared_nil, List.mem_append] at sites
      refine ⟨fun site member => sites site (.inl (.inl member)),
        ⟨.ofQuiet regularThen quietThen fun site member => ?_, quietThen⟩, ?_⟩
      · exact sites site (.inl (.inr member))
      · rintro other ⟨⟩
        exact ⟨.ofQuiet regularElse quietElse fun site member => sites site (.inr member),
          quietElse⟩

theorem AcceptsStmt.loop {condition : Expr} {body : Stmt}
    (accepts : code.AcceptsStmt around (.loop condition body)) :
    code.AcceptsReferences around condition.references ∧ code.AcceptsStmt around body ∧
      body.declares = [] := by
  obtain ⟨⟨regular, quiet⟩, -, sites⟩ := accepts
  refine ⟨fun site member => sites site (List.mem_append_left _ member),
    .ofQuiet regular quiet fun site member => ?_, quiet⟩
  exact sites site (List.mem_append_right _ member)

theorem AcceptsFunction.ordinary {declaration : Function}
    (accepts : code.AcceptsFunction around declaration) :
    ∀ parameter ∈ declaration.parameters, IsOrdinary parameter.text := by
  cases declaration with
  | mk name parameters body => exact accepts.regular.2.1

theorem AcceptsFunction.ordinary_of_mem {declaration : Function}
    (accepts : code.AcceptsFunction around declaration) :
    ∀ name ∈ (Region.function declaration.parameters declaration.body).all, IsOrdinary name := by
  cases declaration with
  | mk name parameters body =>
      exact ordinary_of_mem_function accepts.regular.2.1 accepts.regular.2.2

/-- The body of an accepted function is accepted in the function's scope. -/
theorem AcceptsFunction.body {declaration : Function}
    (accepts : code.AcceptsFunction around declaration) :
    code.AcceptsAll (.function declaration.parameters declaration.body :: around)
      declaration.body := by
  cases declaration with
  | mk name parameters body =>
      exact ⟨accepts.regular.2.2, .function accepts.regular.2.2 parameters around, accepts.sites⟩

end Code

theorem BinaryOp.apply_isPlain {op : BinaryOp} {left right value : Value}
    (result : op.apply left right = .ok value) : value.IsPlain := by
  constructor
  all_goals
    rintro _ rfl
    cases op <;> cases left <;> cases right <;>
      simp [BinaryOp.apply, Comparison.values, Value.add, Value.subtract, Value.multiply,
        Value.divide] at result
    split at result <;> cases result

theorem UnaryOp.apply_isPlain {op : UnaryOp} {operand value : Value}
    (result : op.apply operand = .ok value) : value.IsPlain := by
  constructor
  all_goals
    rintro _ rfl
    cases op <;> cases operand <;> simp [UnaryOp.apply, Value.negate] at result

theorem Literal.value_isPlain (literal : Literal) : literal.value.IsPlain := by
  cases literal <;> exact ⟨by simp [Literal.value], by simp [Literal.value]⟩

/-- How a statement may end inside scopes. -/
def Completes (code : Code) (around : List Region) (after : Config) : Completion → Prop
  | .normal => after.Fits around
  | .returned value => after.IsValid code value

/-- Evaluation within a bound runs soundly. -/
structure RunsSoundly (code : Code) (fuel : Nat) : Prop where
  evaluate : ∀ {before : Config} {around : List Region} {expression : Expr},
    before.Conforms code → before.Fits around →
    code.AcceptsReferences around expression.references →
      Runs code before (Eval.evaluate ⟨code.table, .recorded⟩ fuel expression)
        (Eval.evaluate ⟨code.table, .searched⟩ fuel expression)
        fun after value => after.IsValid code value
  evaluateAll : ∀ {before : Config} {around : List Region} {expressions : List Expr},
    before.Conforms code → before.Fits around →
    code.AcceptsReferences around (Expr.referencesAll expressions) →
      Runs code before (Eval.evaluateAll ⟨code.table, .recorded⟩ fuel expressions)
        (Eval.evaluateAll ⟨code.table, .searched⟩ fuel expressions)
        fun after values => ∀ value ∈ values, after.IsValid code value
  call : ∀ {before : Config} {function : Value} {arguments : List Value} {line : Nat},
    before.Conforms code → before.IsValid code function →
    (∀ value ∈ arguments, before.IsValid code value) →
      Runs code before (Eval.call ⟨code.table, .recorded⟩ fuel function arguments line)
        (Eval.call ⟨code.table, .searched⟩ fuel function arguments line)
        fun after value => after.IsValid code value
  apply : ∀ {before : Config} {function : Value} {arguments : List Value},
    before.Conforms code → before.IsValid code function →
    (∀ value ∈ arguments, before.IsValid code value) →
    before.machine.heap.arity? function = some arguments.length →
      Runs code before (Eval.apply ⟨code.table, .recorded⟩ fuel function arguments)
        (Eval.apply ⟨code.table, .searched⟩ fuel function arguments)
        fun after value => after.IsValid code value
  invoke : ∀ {before : Config} {id : ClosureId} {arguments : List Value},
    before.Conforms code → before.IsCallable code id →
    (∀ value ∈ arguments, before.IsValid code value) →
    (before.machine.heap.closure id).declaration.parameters.length = arguments.length →
      Runs code before (Eval.invoke ⟨code.table, .recorded⟩ fuel id arguments)
        (Eval.invoke ⟨code.table, .searched⟩ fuel id arguments)
        fun after value => after.IsValid code value
  execute : ∀ {before : Config} {around : List Region} {statement : Stmt},
    before.Conforms code → before.Fits around → code.AcceptsStmt around statement →
      Runs code before (Eval.execute ⟨code.table, .recorded⟩ fuel statement)
        (Eval.execute ⟨code.table, .searched⟩ fuel statement)
        (Completes code (declared statement.declares around))
  executeAll : ∀ {before : Config} {around : List Region} {statements : List Stmt},
    before.Conforms code → before.Fits around → code.AcceptsAll around statements →
      Runs code before (Eval.executeAll ⟨code.table, .recorded⟩ fuel statements)
        (Eval.executeAll ⟨code.table, .searched⟩ fuel statements)
        (Completes code (declared (Stmt.declaresAll statements) around))
  executeLoop : ∀ {before : Config} {around : List Region} {condition : Expr} {body : Stmt},
    before.Conforms code → before.Fits around →
    code.AcceptsReferences around condition.references → code.AcceptsStmt around body →
    body.declares = [] →
      Runs code before (Eval.executeLoop ⟨code.table, .recorded⟩ fuel condition body)
        (Eval.executeLoop ⟨code.table, .searched⟩ fuel condition body)
        (Completes code around)

namespace RunsSoundly

variable {code : Code} {fuel : Nat} {before : Config} {around : List Region}

theorem zero (code : Code) : RunsSoundly code 0 where
  evaluate conforms _ _ := Runs.outOfFuel conforms
  evaluateAll conforms _ _ := Runs.outOfFuel conforms
  call conforms _ _ := Runs.outOfFuel conforms
  apply conforms _ _ _ := Runs.outOfFuel conforms
  invoke conforms _ _ _ := Runs.outOfFuel conforms
  execute conforms _ _ := Runs.outOfFuel conforms
  executeAll conforms _ _ := Runs.outOfFuel conforms
  executeLoop conforms _ _ _ _ := Runs.outOfFuel conforms

/-- One more step of evaluation, by the form of the expression. -/
theorem evaluate_succ (sound : RunsSoundly code fuel) {expression : Expr}
    (conforms : before.Conforms code) (fits : before.Fits around)
    (accepts : code.AcceptsReferences around expression.references) :
    Runs code before (Eval.evaluate ⟨code.table, .recorded⟩ (fuel + 1) expression)
      (Eval.evaluate ⟨code.table, .searched⟩ (fuel + 1) expression)
      fun after value => after.IsValid code value := by
  cases expression with
  | literal value =>
      simp only [Eval.evaluate]
      exact Runs.pure conforms value.value_isPlain.isValid
  | read id name =>
      simp only [Eval.evaluate]
      exact Runs.readVariable conforms fits accepts.site
  | assign id name value =>
      obtain ⟨acceptsValue, acceptsName⟩ := accepts.append
      simp only [Eval.evaluate]
      apply Runs.bind (sound.evaluate conforms fits acceptsValue)
      intro between result leads valid
      apply Runs.bind (Runs.assignVariable leads.conforms (leads.fits fits) acceptsName.site valid)
      intro after _ further _
      exact Runs.pure further.conforms (further.isValid valid)
  | unary op line operand =>
      have acceptsOperand : code.AcceptsReferences around operand.references := accepts
      simp only [Eval.evaluate]
      apply Runs.bind (sound.evaluate conforms fits acceptsOperand)
      intro between value leads _
      apply Runs.ofFault leads.conforms
      intro result applied
      exact (UnaryOp.apply_isPlain applied).isValid
  | binary op line left right =>
      obtain ⟨acceptsLeft, acceptsRight⟩ := accepts.append
      simp only [Eval.evaluate]
      apply Runs.bind (sound.evaluate conforms fits acceptsLeft)
      intro between leftValue leads _
      apply Runs.bind (sound.evaluate leads.conforms (leads.fits fits) acceptsRight)
      intro after rightValue further _
      apply Runs.ofFault further.conforms
      intro result applied
      exact (BinaryOp.apply_isPlain applied).isValid
  | logical op left right =>
      obtain ⟨acceptsLeft, acceptsRight⟩ := accepts.append
      simp only [Eval.evaluate]
      apply Runs.bind (sound.evaluate conforms fits acceptsLeft)
      intro between leftValue leads valid
      split
      · exact Runs.pure leads.conforms valid
      · exact sound.evaluate leads.conforms (leads.fits fits) acceptsRight
  | group inner =>
      simp only [Eval.evaluate]
      exact sound.evaluate conforms fits accepts
  | call callee arguments line =>
      obtain ⟨acceptsCallee, acceptsArguments⟩ := accepts.append
      simp only [Eval.evaluate]
      apply Runs.bind (sound.evaluate conforms fits acceptsCallee)
      intro between function leads validFunction
      apply Runs.bind (sound.evaluateAll leads.conforms (leads.fits fits) acceptsArguments)
      intro after values further validValues
      exact sound.call further.conforms (further.isValid validFunction) validValues
  | get object name =>
      have acceptsObject : code.AcceptsReferences around object.references := accepts
      simp only [Eval.evaluate]
      apply Runs.bind (sound.evaluate conforms fits acceptsObject)
      intro between value leads _
      split
      · exact Runs.getProperty leads.conforms _ name
      · exact Runs.fail leads.conforms _ _
  | set object name value =>
      obtain ⟨acceptsObject, acceptsValue⟩ := accepts.append
      simp only [Eval.evaluate]
      apply Runs.bind (sound.evaluate conforms fits acceptsObject)
      intro between target leads _
      split
      · apply Runs.bind (sound.evaluate leads.conforms (leads.fits fits) acceptsValue)
        intro middle result further valid
        apply Runs.bind (Runs.setField further.conforms _ name.text valid)
        intro after _ last _
        exact Runs.pure last.conforms (last.isValid valid)
      · exact Runs.fail leads.conforms _ _
  | self id line =>
      simp only [Eval.evaluate]
      exact Runs.readSelf conforms fits accepts.site
  | superMethod id line method =>
      simp only [Eval.evaluate]
      exact Runs.readSuper conforms fits accepts.site

theorem evaluateAll_succ (sound : RunsSoundly code fuel) {expressions : List Expr}
    (conforms : before.Conforms code) (fits : before.Fits around)
    (accepts : code.AcceptsReferences around (Expr.referencesAll expressions)) :
    Runs code before (Eval.evaluateAll ⟨code.table, .recorded⟩ (fuel + 1) expressions)
      (Eval.evaluateAll ⟨code.table, .searched⟩ (fuel + 1) expressions)
      fun after values => ∀ value ∈ values, after.IsValid code value := by
  cases expressions with
  | nil =>
      simp only [Eval.evaluateAll]
      exact Runs.pure conforms (by simp)
  | cons first rest =>
      obtain ⟨acceptsFirst, acceptsRest⟩ := accepts.append
      simp only [Eval.evaluateAll]
      apply Runs.bind (sound.evaluate conforms fits acceptsFirst)
      intro between value leads valid
      apply Runs.bind (sound.evaluateAll leads.conforms (leads.fits fits) acceptsRest)
      intro after values further validRest
      apply Runs.pure further.conforms
      intro other member
      rcases List.mem_cons.mp member with rfl | inRest
      · exact further.isValid valid
      · exact validRest other inRest

/-- A call checks the number of arguments before it goes on. -/
theorem call_succ (sound : RunsSoundly code fuel) {function : Value} {arguments : List Value}
    {line : Nat} (conforms : before.Conforms code) (validFunction : before.IsValid code function)
    (valid : ∀ value ∈ arguments, before.IsValid code value) :
    Runs code before (Eval.call ⟨code.table, .recorded⟩ (fuel + 1) function arguments line)
      (Eval.call ⟨code.table, .searched⟩ (fuel + 1) function arguments line)
      fun after value => after.IsValid code value := by
  simp only [Eval.call]
  apply Runs.get
  split
  · exact Runs.fail conforms _ _
  · next arity takes =>
      split
      · exact Runs.fail conforms _ _
      · next count =>
          split
          · exact Runs.fail conforms _ _
          · apply Runs.counted
            obtain rfl : arguments.length = arity := by simpa using count
            exact sound.apply conforms validFunction valid takes

theorem apply_succ (sound : RunsSoundly code fuel) {function : Value} {arguments : List Value}
    (conforms : before.Conforms code) (validFunction : before.IsValid code function)
    (valid : ∀ value ∈ arguments, before.IsValid code value)
    (takes : before.machine.heap.arity? function = some arguments.length) :
    Runs code before (Eval.apply ⟨code.table, .recorded⟩ (fuel + 1) function arguments)
      (Eval.apply ⟨code.table, .searched⟩ (fuel + 1) function arguments)
      fun after value => after.IsValid code value := by
  cases function with
  | native function =>
      simp only [Eval.apply]
      exact Runs.callNative conforms function
  | function id =>
      simp only [Eval.apply]
      exact sound.invoke conforms (validFunction.callable id rfl) valid (Option.some.inj takes)
  | classRef id =>
      simp only [Eval.apply]
      apply Runs.bind (Runs.newObject conforms id)
      intro between object leads made
      apply Runs.get
      have initializer : between.machine.heap.initializer? id =
          before.machine.heap.initializer? id := by
        rw [made, Heap.initializer?_addObject]
      simp only [initializer]
      cases found : before.machine.heap.initializer? id with
      | none => exact Runs.pure leads.conforms (Value.IsPlain.isValid ⟨by simp, by simp⟩)
      | some method =>
          have isMethod := leads.conforms.isMethod_of_findMethod? (initializer.trans found)
          have count : (between.machine.heap.closure method).declaration.parameters.length =
              arguments.length := by
            simp only [Heap.arity?, found, Option.some.injEq] at takes
            rw [made]
            exact takes
          apply Runs.bind (Runs.bindMethod leads.conforms object isMethod)
          rintro middle bound further ⟨callable, declaration⟩
          apply Runs.bind (sound.invoke further.conforms callable
            (fun value member => further.isValid (leads.isValid (valid value member)))
            (by rw [declaration, count]))
          intro after _ last _
          exact Runs.pure last.conforms (Value.IsPlain.isValid ⟨by simp, by simp⟩)
  | _ =>
      simp only [Eval.apply]
      exact Runs.pure conforms (Value.IsPlain.isValid ⟨by simp, by simp⟩)

/-- The parameters of a call are bound to its arguments. -/
theorem invoke_succ (sound : RunsSoundly code fuel) {id : ClosureId} {arguments : List Value}
    (conforms : before.Conforms code) (callable : before.IsCallable code id)
    (valid : ∀ value ∈ arguments, before.IsValid code value)
    (count : (before.machine.heap.closure id).declaration.parameters.length =
      arguments.length) :
    Runs code before (Eval.invoke ⟨code.table, .recorded⟩ (fuel + 1) id arguments)
      (Eval.invoke ⟨code.table, .searched⟩ (fuel + 1) id arguments)
      fun after value => after.IsValid code value := by
  obtain ⟨bound, initializer, around, fits, accepts⟩ := callable
  have counted : ¬ (List.map Name.text
      (before.machine.heap.closure id).declaration.parameters).length ≠ arguments.length := by
    simpa using count
  simp only [Eval.invoke]
  apply Runs.get
  rw [if_neg counted, if_neg counted]
  apply Runs.bind (Runs.newFrame conforms fits
    (.function (before.machine.heap.closure id).declaration.parameters
      (before.machine.heap.closure id).declaration.body)
    (.parameters (.ofOrdinary accepts.ordinary_of_mem) accepts.ordinary
      (fun parameter member => List.mem_append_left _ (List.mem_map_of_mem member)) valid) ?_)
  · intro between frame leads inside
    have entered : (between.enter frame).Conforms code := leads.conforms
    have body : Runs code between
        (Eval.within frame (Eval.executeAll ⟨code.table, .recorded⟩ fuel
          (before.machine.heap.closure id).declaration.body))
        (Eval.within frame (Eval.executeAll ⟨code.table, .searched⟩ fuel
          (before.machine.heap.closure id).declaration.body))
        fun after completion =>
          ∀ value, completion = .returned value → after.IsValid code value := by
      apply Runs.within
      apply (sound.executeAll entered inside accepts.body).weaken
      intro after completion _ completes value isReturned
      subst isReturned
      exact completes
    apply Runs.bind body
    intro after completion further returned
    split
    · next isInitializer =>
        apply Runs.get
        apply Runs.readWhere further.conforms
        exact further.grows.binds _ _ (leads.grows.binds _ _ (initializer isInitializer))
    · cases completion with
      | normal => exact Runs.pure further.conforms (Value.IsPlain.isValid ⟨by simp, by simp⟩)
      | returned value => exact Runs.pure further.conforms (returned value rfl)
  · intro name complete
    apply Bindings.get?_insertAll_isSome
    rw [List.map_fst_zip (by simp [count])]
    exact .inl complete

/-- One more step of execution, by the form of the statement. -/
theorem execute_succ (sound : RunsSoundly code fuel) {statement : Stmt}
    (conforms : before.Conforms code) (fits : before.Fits around)
    (accepts : code.AcceptsStmt around statement) :
    Runs code before (Eval.execute ⟨code.table, .recorded⟩ (fuel + 1) statement)
      (Eval.execute ⟨code.table, .searched⟩ (fuel + 1) statement)
      (Completes code (declared statement.declares around)) := by
  have ⟨regular, allows, sites⟩ := accepts
  cases statement with
  | expression value echo =>
      have acceptsValue : code.AcceptsReferences around value.references := sites
      simp only [Eval.execute]
      apply Runs.bind (sound.evaluate conforms fits acceptsValue)
      intro after _ leads _
      exact Runs.pure leads.conforms (Fits.declared_nil (leads.fits fits))
  | print value =>
      have acceptsValue : code.AcceptsReferences around value.references := sites
      simp only [Eval.execute]
      apply Runs.bind (sound.evaluate conforms fits acceptsValue)
      intro between result leads _
      apply Runs.bind (Runs.printLine leads.conforms result)
      intro after _ further _
      exact Runs.pure further.conforms (Fits.declared_nil (further.fits (leads.fits fits)))
  | declare name initial =>
      have finish {between : Config} {value : Value} (leads : Leads code before between)
          (valid : between.IsValid code value) :
          Runs code between (do Eval.define name.text value; return Completion.normal)
            (do Eval.define name.text value; return Completion.normal)
            (Completes code (declared [name.text] around)) := by
        apply Runs.bind (Runs.define leads.conforms (leads.fits fits) regular allows valid)
        intro after _ further inside
        exact Runs.pure further.conforms inside
      cases initial with
      | none =>
          simp only [Eval.execute, pure_bind]
          exact finish (.refl conforms) (Value.IsPlain.isValid ⟨by simp, by simp⟩)
      | some initial =>
          have acceptsInitial :
              code.AcceptsReferences (declaring name.text around) initial.references := sites
          simp only [Eval.execute]
          apply Runs.bind (sound.evaluate conforms (Fits.declaring fits name.text) acceptsInitial)
          intro between value leads valid
          exact finish leads valid
  | block body =>
      simp only [Eval.execute]
      apply Runs.get
      apply Runs.bind (Runs.newFrame conforms fits (.block body) (.block regular)
        (by simp [Region.block]))
      intro between frame leads inside
      have entered : (between.enter frame).Conforms code := leads.conforms
      apply Runs.within
      apply (sound.executeAll entered inside ⟨regular, .block regular around, sites⟩).weaken
      intro after completion further completes
      cases completion with
      | normal => exact Fits.declared_nil (further.grows.fits (leads.fits fits))
      | returned value => exact completes
  | branch condition consequence alternative =>
      obtain ⟨acceptsCondition, ⟨acceptsThen, quietThen⟩, acceptsElse⟩ := accepts.branch
      have nothing : (Stmt.branch condition consequence alternative).declares = [] := by
        cases alternative with
        | none => exact quietThen
        | some other => simp [Stmt.declares, quietThen, (acceptsElse other rfl).2]
      rw [nothing]
      simp only [Eval.execute]
      apply Runs.bind (sound.evaluate conforms fits acceptsCondition)
      intro between value leads _
      split
      · rw [← quietThen]
        exact sound.execute leads.conforms (leads.fits fits) acceptsThen
      · cases alternative with
        | none => exact Runs.pure leads.conforms (Fits.declared_nil (leads.fits fits))
        | some other =>
            obtain ⟨acceptsOther, quiet⟩ := acceptsElse other rfl
            rw [← quiet]
            exact sound.execute leads.conforms (leads.fits fits) acceptsOther
  | loop condition body =>
      obtain ⟨acceptsCondition, acceptsBody, quiet⟩ := accepts.loop
      simp only [Eval.execute, Stmt.declares, quiet, declared_nil]
      exact sound.executeLoop conforms fits acceptsCondition acceptsBody quiet
  | function declaration =>
      have ordinary : IsOrdinary declaration.name.text := by
        cases declaration with
        | mk name parameters body => exact regular.1
      have acceptsFunction :
          code.AcceptsFunction (declared [declaration.name.text] around) declaration :=
        ⟨regular, sites⟩
      simp only [Eval.execute]
      apply Runs.get
      rw [← bind_assoc]
      apply Runs.bind (Runs.declareFunction conforms fits ordinary allows acceptsFunction)
      intro after _ leads inside
      exact Runs.pure leads.conforms inside
  | leave line value =>
      simp only [Eval.execute]
      cases value with
      | none => exact Runs.pure conforms (Value.IsPlain.isValid ⟨by simp, by simp⟩)
      | some value =>
          have acceptsValue : code.AcceptsReferences around value.references := sites
          apply Runs.bind (sound.evaluate conforms fits acceptsValue)
          intro after result leads valid
          exact Runs.pure leads.conforms valid
  | classDecl name superclass methods =>
      simp only [Eval.execute]
      apply Runs.bind (Runs.declareClass conforms fits regular allows sites)
      intro after _ leads inside
      exact Runs.pure leads.conforms inside

theorem executeAll_succ (sound : RunsSoundly code fuel) {statements : List Stmt}
    (conforms : before.Conforms code) (fits : before.Fits around)
    (accepts : code.AcceptsAll around statements) :
    Runs code before (Eval.executeAll ⟨code.table, .recorded⟩ (fuel + 1) statements)
      (Eval.executeAll ⟨code.table, .searched⟩ (fuel + 1) statements)
      (Completes code (declared (Stmt.declaresAll statements) around)) := by
  cases statements with
  | nil =>
      simp only [Eval.executeAll]
      exact Runs.pure conforms (Fits.declared_nil fits)
  | cons first rest =>
      obtain ⟨acceptsFirst, acceptsRest⟩ := accepts.cons
      simp only [Eval.executeAll]
      apply Runs.bind (sound.execute conforms fits acceptsFirst)
      intro between completion leads completes
      cases completion with
      | normal =>
          have runsRest := sound.executeAll leads.conforms completes acceptsRest
          rw [declared_declared] at runsRest
          exact runsRest
      | returned value => exact Runs.pure leads.conforms completes

/-- The scopes of a loop are the same before every round. -/
theorem executeLoop_succ (sound : RunsSoundly code fuel) {condition : Expr} {body : Stmt}
    (conforms : before.Conforms code) (fits : before.Fits around)
    (acceptsCondition : code.AcceptsReferences around condition.references)
    (acceptsBody : code.AcceptsStmt around body) (quiet : body.declares = []) :
    Runs code before (Eval.executeLoop ⟨code.table, .recorded⟩ (fuel + 1) condition body)
      (Eval.executeLoop ⟨code.table, .searched⟩ (fuel + 1) condition body)
      (Completes code around) := by
  simp only [Eval.executeLoop]
  apply Runs.bind (sound.evaluate conforms fits acceptsCondition)
  intro between value leads _
  split
  · apply Runs.bind (sound.execute leads.conforms (leads.fits fits) acceptsBody)
    intro after completion further completes
    cases completion with
    | normal =>
        exact sound.executeLoop further.conforms (further.fits (leads.fits fits))
          acceptsCondition acceptsBody quiet
    | returned value => exact Runs.pure further.conforms completes
  · exact Runs.pure leads.conforms (leads.fits fits)

/-- Evaluation runs soundly within every bound. -/
theorem all (code : Code) (fuel : Nat) : RunsSoundly code fuel := by
  induction fuel with
  | zero => exact zero code
  | succ fuel sound =>
      exact ⟨sound.evaluate_succ, sound.evaluateAll_succ, sound.call_succ, sound.apply_succ,
        sound.invoke_succ, sound.execute_succ, sound.executeAll_succ, sound.executeLoop_succ⟩

end RunsSoundly

namespace Runs

variable {code : Code} {before : Config}

/-- A statement of the top level runs among the globals. -/
theorem executeTopLevel {statement : Stmt} (fuel : Nat) (interactive : Bool)
    (conforms : before.Conforms code) (fits : before.Fits [])
    (accepts : code.AcceptsStmt [] statement) :
    Runs code before (Eval.executeTopLevel ⟨code.table, .recorded⟩ fuel interactive statement)
      (Eval.executeTopLevel ⟨code.table, .searched⟩ fuel interactive statement)
      fun _ _ => True := by
  have sound := RunsSoundly.all code fuel
  have executed : Runs code before
      (do let _ ← Eval.execute ⟨code.table, .recorded⟩ fuel statement)
      (do let _ ← Eval.execute ⟨code.table, .searched⟩ fuel statement) fun _ _ => True := by
    apply Runs.bind (sound.execute conforms fits accepts)
    intro after _ leads _
    exact Runs.pure leads.conforms trivial
  cases statement with
  | expression value echo =>
      simp only [Eval.executeTopLevel]
      split
      · have acceptsValue : code.AcceptsReferences [] value.references := accepts.sites
        apply Runs.bind (sound.evaluate conforms fits acceptsValue)
        intro between result leads _
        exact Runs.printLine leads.conforms result
      · exact executed
  | _ => exact executed

/-- Statements of the top level run soundly one after the other. -/
theorem interpret (fuel : Nat) (interactive : Bool) :
    ∀ {statements : List Stmt} {before : Config}, before.Conforms code → before.Fits [] →
      code.AcceptsAll [] statements →
        Runs code before (Eval.interpret ⟨code.table, .recorded⟩ fuel interactive statements)
          (Eval.interpret ⟨code.table, .searched⟩ fuel interactive statements) fun _ _ => True
  | [], _, conforms, _, _ => Runs.pure conforms trivial
  | first :: rest, before, conforms, fits, accepts => by
      obtain ⟨acceptsFirst, acceptsRest⟩ := accepts.cons
      simp only [Eval.interpret]
      apply Runs.bind (Runs.executeTopLevel fuel interactive conforms fits acceptsFirst)
      intro between _ leads _
      exact interpret fuel interactive leads.conforms (leads.fits fits) acceptsRest

end Runs

end LoxLang
