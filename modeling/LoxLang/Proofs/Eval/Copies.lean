import LoxLang.Proofs.Eval.Retraces
import LoxLang.Proofs.Eval.Soundness

/-!
A copy of some code retraces it.  By induction on the bound, code whose references and
declarations keep clear of the hidden frame is evaluated and executed as its copy is, and
the copy never needs a larger bound.
-/

namespace LoxLang

open Scope

open Scene (Leads)

/-- Other identities leave the parameters of a function as they are. -/
theorem Function.relabel_renumber (ids : RefId → RefId) (name : Name) (parameters : List Name)
    (body : List Stmt) :
    (Function.mk name parameters body).relabel (.renumber ids) =
      .mk name parameters (Stmt.relabelAll (.renumber ids) body) :=
  congrArg (Function.mk name · _) (Name.map_renumber ids parameters)

namespace Scope.Passage

/-- The references of an expression have copies. -/
def LinksAt (passage : Passage) (table other : Resolution) (around : List Region)
    (references : List Reference) : Prop :=
  ∀ site ∈ sitesAt around references, passage.Links table other site

/-- A statement has a copy, and declares nothing in the scope that the copy does without. -/
structure Copies (passage : Passage) (table other : Resolution) (around : List Region)
    (statement : Stmt) : Prop where
  reaches : passage.Reaches around
  quiet : passage.gap around = some 0 → statement.declares = []
  links : ∀ site ∈ statement.sites around, passage.Links table other site

/-- Statements have a copy, and declare nothing in the scope that the copy does without. -/
structure CopiesAll (passage : Passage) (table other : Resolution) (around : List Region)
    (statements : List Stmt) : Prop where
  reaches : passage.Reaches around
  quiet : passage.gap around = some 0 → Stmt.declaresAll statements = []
  links : ∀ site ∈ Stmt.sitesAll around statements, passage.Links table other site

variable {passage : Passage} {table other : Resolution} {around : List Region}

theorem LinksAt.append {first second : List Reference}
    (links : passage.LinksAt table other around (first ++ second)) :
    passage.LinksAt table other around first ∧ passage.LinksAt table other around second := by
  unfold LinksAt sitesAt at *
  rw [List.map_append] at links
  exact ⟨fun site member => links site (List.mem_append_left _ member),
    fun site member => links site (List.mem_append_right _ member)⟩

theorem LinksAt.site {reference : Reference}
    (links : passage.LinksAt table other around [reference]) :
    passage.Links table other ⟨reference, around⟩ :=
  links _ (List.mem_singleton_self _)

theorem CopiesAll.cons {first : Stmt} {rest : List Stmt}
    (copies : passage.CopiesAll table other around (first :: rest)) :
    passage.Copies table other around first ∧
      passage.CopiesAll table other (declared first.declares around) rest := by
  obtain ⟨reaches, quiet, links⟩ := copies
  refine ⟨⟨reaches, fun here => ?_, fun site member => links site (List.mem_append_left _ member)⟩,
    reaches.declared _, fun here => ?_,
    fun site member => links site (List.mem_append_right _ member)⟩
  · exact (List.append_eq_nil_iff.mp (quiet here)).1
  · rw [gap_declared] at here
    exact (List.append_eq_nil_iff.mp (quiet here)).2

/-- The body of a new scope has a copy with a scope of its own. -/
theorem CopiesAll.ofScope {region : Region} {statements : List Stmt}
    (reaches : passage.Reaches around)
    (links : ∀ site ∈ Stmt.sitesAll (region :: around) statements,
      passage.Links table other site) :
    passage.CopiesAll table other (region :: around) statements := by
  refine ⟨reaches.cons region, fun here => ?_, links⟩
  rw [gap_cons reaches] at here
  cases given : passage.gap around <;> rw [given] at here <;> cases here

theorem Copies.branch {condition : Expr} {consequence : Stmt} {alternative : Option Stmt}
    (copies : passage.Copies table other around (.branch condition consequence alternative)) :
    passage.LinksAt table other around condition.references ∧
      passage.Copies table other around consequence ∧
        ∀ otherwise, alternative = some otherwise →
          passage.Copies table other (declared consequence.declares around) otherwise := by
  obtain ⟨reaches, quiet, links⟩ := copies
  cases alternative with
  | none =>
      exact ⟨fun site member => links site (List.mem_append_left _ member),
        ⟨reaches, quiet, fun site member => links site (List.mem_append_right _ member)⟩, by simp⟩
  | some alternative =>
      simp only [Stmt.sites, List.mem_append] at links
      refine ⟨fun site member => links site (.inl (.inl member)),
        ⟨reaches, fun here => (List.append_eq_nil_iff.mp (quiet here)).1,
          fun site member => links site (.inl (.inr member))⟩, ?_⟩
      rintro otherwise ⟨⟩
      refine ⟨reaches.declared _, fun here => ?_, fun site member => links site (.inr member)⟩
      rw [gap_declared] at here
      exact (List.append_eq_nil_iff.mp (quiet here)).2

theorem Copies.loop {condition : Expr} {body : Stmt}
    (copies : passage.Copies table other around (.loop condition body)) :
    passage.LinksAt table other around condition.references ∧
      passage.Copies table other around body :=
  ⟨fun site member => copies.links site (List.mem_append_left _ member),
    copies.reaches, copies.quiet,
    fun site member => copies.links site (List.mem_append_right _ member)⟩

/-- A declaration does not stand in the scope that the copy does without. -/
theorem Copies.apart {statement : Stmt} (copies : passage.Copies table other around statement)
    (declares : statement.declares ≠ []) : passage.gap around ≠ some 0 :=
  fun here => declares (copies.quiet here)

end Scope.Passage

/-- A value that a statement returns stands for the same on both sides. -/
def ReturnsCopy (table other : Resolution) (after : Scene) (completion : Completion) : Prop :=
  ∀ value, completion = .returned value → after.IsValid table other value

theorem ReturnsCopy.normal {table other : Resolution} {after : Scene} :
    ReturnsCopy table other after .normal := by
  intro value isReturned
  cases isReturned

theorem ReturnsCopy.returned {table other : Resolution} {after : Scene} {value : Value}
    (valid : after.IsValid table other value) : ReturnsCopy table other after (.returned value) := by
  rintro _ ⟨⟩
  exact valid

/-- Within a bound, copies with a bound of their own retrace code, and calls retrace calls. -/
structure RunsCopied (table other : Resolution) (fuel bound : Nat) : Prop where
  evaluate : ∀ {before : Scene} {passage : Passage} {around : List Region} {expression : Expr},
    before.Corresponds table other →
    before.Hides (passage.gap around) → passage.LinksAt table other around expression.references →
      Retraces table other before (Eval.evaluate ⟨table, .recorded⟩ fuel expression)
        (Eval.evaluate ⟨other, .recorded⟩ bound (expression.relabel (.renumber passage.ids)))
        fun after value => after.IsValid table other value
  evaluateAll : ∀ {before : Scene} {passage : Passage} {around : List Region}
    {expressions : List Expr}, before.Corresponds table other →
    before.Hides (passage.gap around) →
    passage.LinksAt table other around (Expr.referencesAll expressions) →
      Retraces table other before (Eval.evaluateAll ⟨table, .recorded⟩ fuel expressions)
        (Eval.evaluateAll ⟨other, .recorded⟩ bound
          (Expr.relabelAll (.renumber passage.ids) expressions))
        fun after values => ∀ value ∈ values, after.IsValid table other value
  call : ∀ {before : Scene} {function : Value} {arguments : List Value} {line : Nat},
    before.Corresponds table other → before.IsValid table other function →
    (∀ value ∈ arguments, before.IsValid table other value) →
      Retraces table other before (Eval.call ⟨table, .recorded⟩ fuel function arguments line)
        (Eval.call ⟨other, .recorded⟩ bound function arguments line)
        fun after value => after.IsValid table other value
  apply : ∀ {before : Scene} {function : Value} {arguments : List Value},
    before.Corresponds table other → before.IsValid table other function →
    (∀ value ∈ arguments, before.IsValid table other value) →
      Retraces table other before (Eval.apply ⟨table, .recorded⟩ fuel function arguments)
        (Eval.apply ⟨other, .recorded⟩ bound function arguments)
        fun after value => after.IsValid table other value
  invoke : ∀ {before : Scene} {id : ClosureId} {arguments : List Value},
    before.Corresponds table other → before.overlay.IsCallable table other id →
    (∀ value ∈ arguments, before.IsValid table other value) →
      Retraces table other before (Eval.invoke ⟨table, .recorded⟩ fuel id arguments)
        (Eval.invoke ⟨other, .recorded⟩ bound id arguments)
        fun after value => after.IsValid table other value
  execute : ∀ {before : Scene} {passage : Passage} {around : List Region} {statement : Stmt},
    before.Corresponds table other →
    before.Hides (passage.gap around) → passage.Copies table other around statement →
      Retraces table other before (Eval.execute ⟨table, .recorded⟩ fuel statement)
        (Eval.execute ⟨other, .recorded⟩ bound (statement.relabel (.renumber passage.ids)))
        (ReturnsCopy table other)
  executeAll : ∀ {before : Scene} {passage : Passage} {around : List Region}
    {statements : List Stmt}, before.Corresponds table other →
    before.Hides (passage.gap around) → passage.CopiesAll table other around statements →
      Retraces table other before (Eval.executeAll ⟨table, .recorded⟩ fuel statements)
        (Eval.executeAll ⟨other, .recorded⟩ bound
          (Stmt.relabelAll (.renumber passage.ids) statements))
        (ReturnsCopy table other)
  executeLoop : ∀ {before : Scene} {passage : Passage} {around : List Region}
    {condition : Expr} {body : Stmt},
    before.Corresponds table other → before.Hides (passage.gap around) →
    passage.LinksAt table other around condition.references →
    passage.Copies table other around body →
      Retraces table other before (Eval.executeLoop ⟨table, .recorded⟩ fuel condition body)
        (Eval.executeLoop ⟨other, .recorded⟩ bound (condition.relabel (.renumber passage.ids))
          (body.relabel (.renumber passage.ids)))
        (ReturnsCopy table other)

namespace RunsCopied

variable {table other : Resolution} {fuel bound : Nat} {before : Scene} {passage : Passage}
  {around : List Region}

theorem zero (table other : Resolution) (bound : Nat) : RunsCopied table other 0 bound where
  evaluate _ _ _ := Retraces.outOfFuel
  evaluateAll _ _ _ := Retraces.outOfFuel
  call _ _ _ := Retraces.outOfFuel
  apply _ _ _ := Retraces.outOfFuel
  invoke _ _ _ := Retraces.outOfFuel
  execute _ _ _ := Retraces.outOfFuel
  executeAll _ _ _ := Retraces.outOfFuel
  executeLoop _ _ _ _ := Retraces.outOfFuel

/-- One more step of evaluation, by the form of the expression. -/
theorem evaluate_succ (runs : RunsCopied table other fuel bound) {expression : Expr}
    (same : before.Corresponds table other)
    (hides : before.Hides (passage.gap around))
    (links : passage.LinksAt table other around expression.references) :
    Retraces table other before (Eval.evaluate ⟨table, .recorded⟩ (fuel + 1) expression)
      (Eval.evaluate ⟨other, .recorded⟩ (bound + 1) (expression.relabel (.renumber passage.ids)))
      fun after value => after.IsValid table other value := by
  cases expression with
  | literal value =>
      simp only [Eval.evaluate, Expr.relabel]
      exact Retraces.pure same (Overlay.isValid_of_ne value.value_isPlain.function)
  | read id name =>
      simp only [Eval.evaluate, Expr.relabel]
      exact Retraces.readVariable same links.site hides name
  | assign id name value =>
      obtain ⟨inValue, own⟩ := links.append
      simp only [Eval.evaluate, Expr.relabel]
      apply Retraces.bind (runs.evaluate same hides inValue)
      intro between result leads valid
      apply Retraces.bind
        (Retraces.assignVariable leads.same own.site (leads.hides hides) name valid)
      intro after _ further _
      exact Retraces.pure further.same (further.isValid valid)
  | unary op line operand =>
      have inOperand : passage.LinksAt table other around operand.references := links
      simp only [Eval.evaluate, Expr.relabel]
      apply Retraces.bind (runs.evaluate same hides inOperand)
      intro between value leads _
      apply Retraces.ofExcept leads.same
      intro result applied
      exact Overlay.isValid_of_ne (UnaryOp.apply_isPlain applied).function
  | binary op line left right =>
      obtain ⟨inLeft, inRight⟩ := links.append
      simp only [Eval.evaluate, Expr.relabel]
      apply Retraces.bind (runs.evaluate same hides inLeft)
      intro between leftValue leads _
      apply Retraces.bind (runs.evaluate leads.same (leads.hides hides) inRight)
      intro after rightValue further _
      apply Retraces.ofExcept further.same
      intro result applied
      exact Overlay.isValid_of_ne (BinaryOp.apply_isPlain applied).function
  | logical op left right =>
      obtain ⟨inLeft, inRight⟩ := links.append
      simp only [Eval.evaluate, Expr.relabel]
      apply Retraces.bind (runs.evaluate same hides inLeft)
      intro between leftValue leads valid
      split
      · exact Retraces.pure leads.same valid
      · exact runs.evaluate leads.same (leads.hides hides) inRight
  | group inner =>
      simp only [Eval.evaluate, Expr.relabel]
      exact runs.evaluate same hides links
  | call callee arguments line =>
      obtain ⟨inCallee, inArguments⟩ := links.append
      simp only [Eval.evaluate, Expr.relabel]
      apply Retraces.bind (runs.evaluate same hides inCallee)
      intro between function leads validFunction
      apply Retraces.bind (runs.evaluateAll leads.same (leads.hides hides) inArguments)
      intro after values further validValues
      exact runs.call further.same (further.isValid validFunction) validValues
  | get object name =>
      have inObject : passage.LinksAt table other around object.references := links
      simp only [Eval.evaluate, Expr.relabel]
      apply Retraces.bind (runs.evaluate same hides inObject)
      intro between value leads _
      cases value with
      | object id => exact Retraces.getProperty leads.same id name
      | _ => exact Retraces.fail leads.same _ _
  | set object name value =>
      obtain ⟨inObject, inValue⟩ := links.append
      simp only [Eval.evaluate, Expr.relabel]
      apply Retraces.bind (runs.evaluate same hides inObject)
      intro between target leads _
      cases target with
      | object id =>
          apply Retraces.bind (runs.evaluate leads.same (leads.hides hides) inValue)
          intro middle result further valid
          apply Retraces.bind (Retraces.setField further.same id name.text valid)
          intro after _ last _
          exact Retraces.pure last.same (last.isValid valid)
      | _ => exact Retraces.fail leads.same _ _
  | self id line =>
      simp only [Eval.evaluate, Expr.relabel]
      exact Retraces.readRecorded same links.site hides _
  | superMethod id line method =>
      simp only [Eval.evaluate, Expr.relabel]
      exact Retraces.readSuper same links.site hides method

theorem evaluateAll_succ (runs : RunsCopied table other fuel bound) {expressions : List Expr}
    (same : before.Corresponds table other)
    (hides : before.Hides (passage.gap around))
    (links : passage.LinksAt table other around (Expr.referencesAll expressions)) :
    Retraces table other before (Eval.evaluateAll ⟨table, .recorded⟩ (fuel + 1) expressions)
      (Eval.evaluateAll ⟨other, .recorded⟩ (bound + 1)
        (Expr.relabelAll (.renumber passage.ids) expressions))
      fun after values => ∀ value ∈ values, after.IsValid table other value := by
  cases expressions with
  | nil =>
      simp only [Eval.evaluateAll, Expr.relabelAll]
      exact Retraces.pure same (by simp)
  | cons first rest =>
      obtain ⟨inFirst, inRest⟩ := links.append
      simp only [Eval.evaluateAll, Expr.relabelAll]
      apply Retraces.bind (runs.evaluate same hides inFirst)
      intro between value leads valid
      apply Retraces.bind (runs.evaluateAll leads.same (leads.hides hides) inRest)
      intro after values further validRest
      apply Retraces.pure further.same
      intro held member
      rcases List.mem_cons.mp member with rfl | inRest
      · exact further.isValid valid
      · exact validRest held inRest

theorem call_succ (runs : RunsCopied table other fuel bound) {function : Value}
    {arguments : List Value} {line : Nat}
    (same : before.Corresponds table other) (validFunction : before.IsValid table other function)
    (valid : ∀ value ∈ arguments, before.IsValid table other value) :
    Retraces table other before (Eval.call ⟨table, .recorded⟩ (fuel + 1) function arguments line)
      (Eval.call ⟨other, .recorded⟩ (bound + 1) function arguments line)
      fun after value => after.IsValid table other value := by
  simp only [Eval.call]
  apply Retraces.get
  rw [same.arity? validFunction, same.depth]
  split
  · exact Retraces.fail same _ _
  · split
    · exact Retraces.fail same _ _
    · split
      · exact Retraces.fail same _ _
      · apply Retraces.counted same
        have deeper : (before.atDepth (before.upper.depth + 1)).Corresponds table other :=
          ⟨same.heaps, same.active, same.within, rfl, same.input, same.printed, same.clock,
            same.ticks⟩
        exact runs.apply deeper validFunction valid

theorem apply_succ (runs : RunsCopied table other fuel bound) {function : Value}
    {arguments : List Value} (same : before.Corresponds table other)
    (validFunction : before.IsValid table other function)
    (valid : ∀ value ∈ arguments, before.IsValid table other value) :
    Retraces table other before (Eval.apply ⟨table, .recorded⟩ (fuel + 1) function arguments)
      (Eval.apply ⟨other, .recorded⟩ (bound + 1) function arguments)
      fun after value => after.IsValid table other value := by
  cases function with
  | native function =>
      simp only [Eval.apply]
      exact Retraces.callNative same function
  | function id =>
      simp only [Eval.apply]
      exact runs.invoke same (validFunction id rfl) valid
  | classRef id =>
      simp only [Eval.apply]
      apply Retraces.bind (Retraces.newObject same id)
      intro between object leads _
      apply Retraces.get
      have initializer : between.lower.heap.initializer? id = between.upper.heap.initializer? id :=
        leads.same.findMethod? id _
      rw [initializer]
      cases found : between.upper.heap.initializer? id with
      | none => exact Retraces.pure leads.same (Overlay.isValid_of_ne (by simp))
      | some method =>
          have isMethod := leads.same.heaps.isMethod_of_findMethod? found
          apply Retraces.bind (Retraces.bindMethod leads.same object isMethod)
          intro middle made further callable
          apply Retraces.bind (runs.invoke further.same callable
            fun value member => further.isValid (leads.isValid (valid value member)))
          intro after _ last _
          exact Retraces.pure last.same (Overlay.isValid_of_ne (by simp))
  | _ =>
      simp only [Eval.apply]
      exact Retraces.pure same (Overlay.isValid_of_ne (by simp))

/-- A call of a function, by what the function is. -/
theorem invoke_apply {access : Access} {id : ClosureId} {arguments : List Value}
    {machine : Machine} {name : Name} {parameters : List Name} {body : List Stmt}
    {home : FrameId} {isInitializer : Bool}
    (stands : machine.heap.closure id = ⟨.mk name parameters body, home, isInitializer⟩) :
    Eval.invoke access (fuel + 1) id arguments machine =
      (if (parameters.map Name.text).length ≠ arguments.length then
        throw (.desync
          (.argumentMismatch (parameters.map Name.text).length arguments.length))
      else do
        let frame ← Eval.newFrame home
          (Bindings.insertAll [] ((parameters.map Name.text).zip arguments))
        let completion ← Eval.within frame (Eval.executeAll access fuel body)
        if isInitializer then
          Eval.ofDesync ((← MonadState.get).heap.frames.getAt home 0 (thisName 0).text)
        else
          match completion with
          | .returned value => return value
          | .normal => return .nil : Eval Value) machine := by
  simp only [Eval.invoke, Bind.bind, EStateM.bind, Eval.get_apply, stands]
  by_cases mismatch : (parameters.map Name.text).length ≠ arguments.length
  · rw [if_pos mismatch]
    exact congrFun (if_pos mismatch) machine
  · rw [if_neg mismatch]
    exact congrFun (if_neg mismatch) machine

/-- The copy of a body runs in a frame of its own, as the body does. -/
theorem invoke_succ (runs : RunsCopied table other fuel bound) {id : ClosureId}
    {arguments : List Value} (same : before.Corresponds table other)
    (callable : before.overlay.IsCallable table other id)
    (valid : ∀ value ∈ arguments, before.IsValid table other value) :
    Retraces table other before (Eval.invoke ⟨table, .recorded⟩ (fuel + 1) id arguments)
      (Eval.invoke ⟨other, .recorded⟩ (bound + 1) id arguments)
      fun after value => after.IsValid table other value := by
  obtain ⟨-, passage, around, reaches, hides, copied, links⟩ := callable
  generalize stands : before.overlay.upper.closure id = closure at hides copied links
  obtain ⟨⟨name, parameters, body⟩, home, isInitializer⟩ := closure
  rw [Function.relabel_renumber] at copied
  unfold Retraces
  rw [invoke_apply stands, invoke_apply copied]
  change before.projection.Hides before.upper.heap.frames _ home at hides
  change Retraces table other before (ite _ _ _) (ite _ _ _) _
  split
  · exact Retraces.desync _
  · have given (text : Bytes) (value : Value) (found : (Bindings.insertAll []
        ((parameters.map Name.text).zip arguments)).get? text = some value) :
        before.IsValid table other value := by
      rcases Bindings.mem_of_get?_insertAll found with paired | absent
      · exact valid value (List.of_mem_zip paired).2
      · simp [Bindings.get?] at absent
    apply Retraces.newFrame same hides given
    intro between frame leads inside
    rw [← Passage.gap_cons reaches (.function parameters body)] at inside
    have ran : Retraces table other between
        (Eval.within frame (Eval.executeAll ⟨table, .recorded⟩ fuel body))
        (Eval.within (between.projection.image frame) (Eval.executeAll ⟨other, .recorded⟩ bound
          (Stmt.relabelAll (.renumber passage.ids) body)))
        (ReturnsCopy table other) :=
      Retraces.within leads.same
        (runs.executeAll (leads.same.enter inside.lt_size) inside (.ofScope reaches links))
    apply Retraces.bind ran
    intro after completion further returned
    have sameHome : before.projection.image home = after.projection.image home :=
      (leads.grows.trans further.grows).projection.image home hides.lt_size |>.symm
    cases isInitializer with
    | true =>
        simp only [if_true]
        apply Retraces.get
        change Retraces table other after _ (Eval.ofDesync
          (after.lower.heap.frames.getAt (before.projection.image home) 0 (thisName 0).text)) _
        rw [sameHome]
        apply (Retraces.getAt further.same (further.grows.hides (leads.grows.hides hides)) _
          _).weaken
        · exact fun _ _ _ valid => valid.1
        · intro _
          exact (shift_zero _).symm
    | false =>
        simp only [Bool.false_eq_true, if_false]
        cases completion with
        | normal => exact Retraces.pure further.same (Overlay.isValid_of_ne (by simp))
        | returned value => exact Retraces.pure further.same (returned value rfl)

/-- The copy of a declaration binds its name to the same value. -/
theorem retraces_define (same : before.Corresponds table other)
    (hides : before.Hides (passage.gap around)) (apart : passage.gap around ≠ some 0)
    (name : Bytes) {value : Value} (valid : before.IsValid table other value) :
    Retraces table other before (do Eval.define name value; return Completion.normal)
      (do Eval.define name value; return Completion.normal) (ReturnsCopy table other) := by
  apply Retraces.bind (Retraces.define same hides apart name valid)
  intro after _ leads _
  exact Retraces.pure leads.same .normal

theorem execute_declare (runs : RunsCopied table other fuel bound) {name : Name}
    {initial : Option Expr} (same : before.Corresponds table other)
    (hides : before.Hides (passage.gap around))
    (copies : passage.Copies table other around (.declare name initial)) :
    Retraces table other before
      (Eval.execute ⟨table, .recorded⟩ (fuel + 1) (.declare name initial))
      (Eval.execute ⟨other, .recorded⟩ (bound + 1)
        ((Stmt.declare name initial).relabel (.renumber passage.ids)))
      (ReturnsCopy table other) := by
  have apart : passage.gap around ≠ some 0 := copies.apart (by simp [Stmt.declares])
  cases initial with
  | none =>
      simp only [Eval.execute, Stmt.relabel, Option.map_none, pure_bind]
      exact retraces_define same hides apart name.text (Overlay.isValid_of_ne (by simp))
  | some initial =>
      have hidesInside : before.Hides (passage.gap (declaring name.text around)) := by
        rw [Passage.gap_declaring]
        exact hides
      simp only [Eval.execute, Stmt.relabel, Option.map_some]
      apply Retraces.bind (runs.evaluate same hidesInside copies.links)
      intro between value leads valid
      exact retraces_define leads.same (leads.hides hides) apart name.text valid

theorem execute_branch (runs : RunsCopied table other fuel bound) {condition : Expr}
    {consequence : Stmt} {alternative : Option Stmt} (same : before.Corresponds table other)
    (hides : before.Hides (passage.gap around))
    (copies : passage.Copies table other around (.branch condition consequence alternative)) :
    Retraces table other before
      (Eval.execute ⟨table, .recorded⟩ (fuel + 1) (.branch condition consequence alternative))
      (Eval.execute ⟨other, .recorded⟩ (bound + 1)
        ((Stmt.branch condition consequence alternative).relabel (.renumber passage.ids)))
      (ReturnsCopy table other) := by
  obtain ⟨inCondition, copiesThen, copiesElse⟩ := copies.branch
  cases alternative with
  | none =>
      simp only [Eval.execute, Stmt.relabel]
      apply Retraces.bind (runs.evaluate same hides inCondition)
      intro between value leads _
      split
      · exact runs.execute leads.same (leads.hides hides) copiesThen
      · exact Retraces.pure leads.same .normal
  | some alternative =>
      simp only [Eval.execute, Stmt.relabel]
      apply Retraces.bind (runs.evaluate same hides inCondition)
      intro between value leads _
      split
      · exact runs.execute leads.same (leads.hides hides) copiesThen
      · have hidesElse : between.Hides (passage.gap (declared consequence.declares around)) := by
          rw [Passage.gap_declared]
          exact leads.hides hides
        exact runs.execute leads.same hidesElse (copiesElse alternative rfl)

theorem execute_function {declaration : Function} (same : before.Corresponds table other)
    (hides : before.Hides (passage.gap around))
    (copies : passage.Copies table other around (.function declaration)) :
    Retraces table other before
      (Eval.execute ⟨table, .recorded⟩ (fuel + 1) (.function declaration))
      (Eval.execute ⟨other, .recorded⟩ (bound + 1)
        ((Stmt.function declaration).relabel (.renumber passage.ids)))
      (ReturnsCopy table other) := by
  have hidesInside : before.Hides (passage.gap (declared [declaration.name.text] around)) := by
    rw [Passage.gap_declared]
    exact hides
  simp only [Eval.execute, Stmt.relabel]
  apply Retraces.get
  rw [same.active]
  have made : Retraces table other before
      (Eval.newClosure ⟨declaration, before.upper.active, false⟩)
      (Eval.newClosure ⟨declaration.relabel (.renumber passage.ids),
        before.projection.image before.upper.active, false⟩)
      fun after id => after.overlay.IsCallable table other id :=
    Retraces.newClosure same false (copies.reaches.declared [declaration.name.text])
      hidesInside copies.links
  apply Retraces.bind made
  intro between id leads holds
  have named : (declaration.relabel (.renumber passage.ids)).name.text =
      declaration.name.text := by
    cases declaration
    rfl
  rw [named]
  exact retraces_define leads.same (leads.hides hides)
    (copies.apart (by simp [Stmt.declares])) _ (Overlay.isValid_function holds)

theorem execute_classDecl {name : Name} {superclass : Option (RefId × Name)}
    {methods : List Function} (same : before.Corresponds table other)
    (hides : before.Hides (passage.gap around))
    (copies : passage.Copies table other around (.classDecl name superclass methods)) :
    Retraces table other before
      (Eval.execute ⟨table, .recorded⟩ (fuel + 1) (.classDecl name superclass methods))
      (Eval.execute ⟨other, .recorded⟩ (bound + 1)
        ((Stmt.classDecl name superclass methods).relabel (.renumber passage.ids)))
      (ReturnsCopy table other) := by
  have hidesInside : before.Hides (passage.gap (declared [name.text] around)) := by
    rw [Passage.gap_declared]
    exact hides
  have apart : passage.gap (declared [name.text] around) ≠ some 0 := by
    rw [Passage.gap_declared]
    exact copies.apart (by simp [Stmt.declares])
  cases superclass with
  | none =>
      simp only [Eval.execute, Stmt.relabel, Option.map_none]
      apply Retraces.bind (Retraces.declareClass same name (copies.reaches.declared _)
        hidesInside apart copies.links)
      intro after _ leads _
      exact Retraces.pure leads.same .normal
  | some superclass =>
      obtain ⟨id, parent⟩ := superclass
      simp only [Eval.execute, Stmt.relabel, Option.map_some]
      have named : passage.Links table other ⟨⟨.read, id, parent⟩, declaring name.text around⟩ :=
        copies.links _ (List.mem_append_left _ (List.mem_singleton_self _))
      apply Retraces.bind (Retraces.declareSubclass same name parent
        (copies.reaches.declared _) hidesInside apart named (by simp)
        fun site member => copies.links site (List.mem_append_right _ member))
      intro after _ leads _
      exact Retraces.pure leads.same .normal

/-- One more step of execution, by the form of the statement. -/
theorem execute_succ (runs : RunsCopied table other fuel bound) {statement : Stmt}
    (same : before.Corresponds table other)
    (hides : before.Hides (passage.gap around))
    (copies : passage.Copies table other around statement) :
    Retraces table other before (Eval.execute ⟨table, .recorded⟩ (fuel + 1) statement)
      (Eval.execute ⟨other, .recorded⟩ (bound + 1) (statement.relabel (.renumber passage.ids)))
      (ReturnsCopy table other) := by
  cases statement with
  | expression value echo =>
      simp only [Eval.execute, Stmt.relabel]
      apply Retraces.bind (runs.evaluate same hides copies.links)
      intro after _ leads _
      exact Retraces.pure leads.same .normal
  | print value =>
      simp only [Eval.execute, Stmt.relabel]
      apply Retraces.bind (runs.evaluate same hides copies.links)
      intro between result leads valid
      apply Retraces.bind (Retraces.printLine leads.same valid)
      intro after _ further _
      exact Retraces.pure further.same .normal
  | declare _ _ => exact runs.execute_declare same hides copies
  | block body =>
      simp only [Eval.execute, Stmt.relabel]
      apply Retraces.get
      rw [same.active]
      apply Retraces.newFrame same hides (by simp [Bindings.get?])
      intro between frame leads inside
      rw [← Passage.gap_cons copies.reaches (.block body)] at inside
      apply Retraces.within leads.same
      exact runs.executeAll (leads.same.enter inside.lt_size) inside
        (.ofScope copies.reaches copies.links)
  | branch _ _ _ => exact runs.execute_branch same hides copies
  | loop condition body =>
      obtain ⟨inCondition, copiesBody⟩ := copies.loop
      simp only [Eval.execute, Stmt.relabel]
      exact runs.executeLoop same hides inCondition copiesBody
  | function _ => exact execute_function same hides copies
  | leave line value =>
      cases value with
      | none =>
          simp only [Eval.execute, Stmt.relabel, Option.map_none]
          exact Retraces.pure same (.returned (Overlay.isValid_of_ne (by simp)))
      | some value =>
          simp only [Eval.execute, Stmt.relabel, Option.map_some]
          apply Retraces.bind (runs.evaluate same hides copies.links)
          intro after result leads valid
          exact Retraces.pure leads.same (.returned valid)
  | classDecl _ _ _ => exact execute_classDecl same hides copies

theorem executeAll_succ (runs : RunsCopied table other fuel bound) {statements : List Stmt}
    (same : before.Corresponds table other)
    (hides : before.Hides (passage.gap around))
    (copies : passage.CopiesAll table other around statements) :
    Retraces table other before (Eval.executeAll ⟨table, .recorded⟩ (fuel + 1) statements)
      (Eval.executeAll ⟨other, .recorded⟩ (bound + 1)
        (Stmt.relabelAll (.renumber passage.ids) statements)) (ReturnsCopy table other) := by
  cases statements with
  | nil =>
      simp only [Eval.executeAll, Stmt.relabelAll]
      exact Retraces.pure same .normal
  | cons first rest =>
      obtain ⟨copiesFirst, copiesRest⟩ := copies.cons
      simp only [Eval.executeAll, Stmt.relabelAll]
      apply Retraces.bind (runs.execute same hides copiesFirst)
      intro between completion leads returned
      cases completion with
      | normal =>
          have hidesRest : between.Hides (passage.gap (declared first.declares around)) := by
            rw [Passage.gap_declared]
            exact leads.hides hides
          exact runs.executeAll leads.same hidesRest copiesRest
      | returned value => exact Retraces.pure leads.same returned

theorem executeLoop_succ (runs : RunsCopied table other fuel bound) {condition : Expr} {body : Stmt}
    (same : before.Corresponds table other)
    (hides : before.Hides (passage.gap around))
    (inCondition : passage.LinksAt table other around condition.references)
    (copies : passage.Copies table other around body) :
    Retraces table other before (Eval.executeLoop ⟨table, .recorded⟩ (fuel + 1) condition body)
      (Eval.executeLoop ⟨other, .recorded⟩ (bound + 1)
        (condition.relabel (.renumber passage.ids)) (body.relabel (.renumber passage.ids)))
      (ReturnsCopy table other) := by
  simp only [Eval.executeLoop]
  apply Retraces.bind (runs.evaluate same hides inCondition)
  intro between value leads _
  split
  · apply Retraces.bind (runs.execute leads.same (leads.hides hides) copies)
    intro after completion further returned
    cases completion with
    | normal =>
        exact runs.executeLoop further.same (further.hides (leads.hides hides)) inCondition
          copies
    | returned value => exact Retraces.pure further.same returned
  · exact Retraces.pure leads.same .normal

/-- Copies retrace code when their bound is as large. -/
theorem all (table other : Resolution) {fuel bound : Nat} (room : fuel ≤ bound) :
    RunsCopied table other fuel bound := by
  induction fuel generalizing bound with
  | zero => exact zero table other bound
  | succ fuel inductionHypothesis =>
      obtain ⟨bound, rfl⟩ := Nat.exists_eq_add_one_of_ne_zero (Nat.ne_zero_of_lt room)
      have runs := inductionHypothesis (Nat.le_of_succ_le_succ room)
      exact ⟨runs.evaluate_succ, runs.evaluateAll_succ, runs.call_succ, runs.apply_succ,
        runs.invoke_succ, runs.execute_succ, runs.executeAll_succ, runs.executeLoop_succ⟩

end RunsCopied

end LoxLang
