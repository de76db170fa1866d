import LoxLang.Proofs.Eval.Updates

/-!
Executions that keep a machine to its layout.  An action runs soundly when it
never stops on a desync, however it ends it leaves the machine conforming and
the same frame active, and, for searchable code, the action that searches for
variables does exactly the same.  Sound runs compose, and the steps of a machine
run soundly.
-/

namespace LoxLang

open Scope

/-- A machine with the layout of its frames. -/
structure Config where
  layout : Layout
  machine : Machine

namespace Config

/-- The machine keeps to the layout. -/
def Conforms (code : Code) (config : Config) : Prop :=
  LoxLang.Conforms code config.layout config.machine.heap

/-- The active frame and those around it fit the scopes. -/
def Fits (config : Config) (around : List Region) : Prop :=
  LoxLang.Fits config.layout config.machine.heap.frames config.machine.active around

def IsValid (code : Code) (config : Config) (value : Value) : Prop :=
  LoxLang.IsValid code config.layout config.machine.heap value

def IsCallable (code : Code) (config : Config) (id : ClosureId) : Prop :=
  LoxLang.IsCallable code config.layout config.machine.heap id

def IsMethod (code : Code) (config : Config) (id : ClosureId) : Prop :=
  LoxLang.IsMethod code config.layout config.machine.heap id

/-- The same machine with another frame active. -/
def enter (config : Config) (frame : FrameId) : Config :=
  ⟨config.layout, { config.machine with active := frame }⟩

/-- An execution leads from one machine to a later one. -/
structure Leads (code : Code) (before after : Config) : Prop where
  conforms : after.Conforms code
  active : after.machine.active = before.machine.active
  grows : Grows before.layout before.machine.heap after.layout after.machine.heap

namespace Leads

variable {code : Code} {before middle after : Config}

theorem refl (conforms : before.Conforms code) : Leads code before before :=
  ⟨conforms, rfl, .refl _ _⟩

theorem trans (first : Leads code before middle) (second : Leads code middle after) :
    Leads code before after :=
  ⟨second.conforms, second.active.trans first.active, first.grows.trans second.grows⟩

theorem fits {around : List Region} (leads : Leads code before after)
    (fits : before.Fits around) : after.Fits around := by
  unfold Config.Fits
  rw [leads.active]
  exact leads.grows.fits fits

theorem isValid {value : Value} (leads : Leads code before after)
    (valid : before.IsValid code value) : after.IsValid code value :=
  leads.grows.isValid valid

theorem isMethod {id : ClosureId} (leads : Leads code before after)
    (method : before.IsMethod code id) : after.IsMethod code id :=
  leads.grows.isMethod method

/-- Only the heap counts, as long as the same frame is active. -/
theorem ofHeap {machine : Machine} (conforms : before.Conforms code)
    (heap : machine.heap = before.machine.heap) (active : machine.active = before.machine.active) :
    Leads code before ⟨before.layout, machine⟩ := by
  refine ⟨?_, active, ?_⟩
  · unfold Config.Conforms
    rw [heap]
    exact conforms
  · rw [heap]
    exact .refl _ _

end Leads

end Config

open Config (Leads)

/-- An action runs soundly from a machine, and `searching` runs as it does if the
code is searchable.  What holds afterwards is stated of the value and the later
machine. -/
def Runs {α : Type} (code : Code) (before : Config) (action searching : Eval α)
    (post : Config → α → Prop) : Prop :=
  (code.searchable → searching before.machine = action before.machine) ∧
    match action before.machine with
    | .ok value machine =>
        ∃ layout, Leads code before ⟨layout, machine⟩ ∧ post ⟨layout, machine⟩ value
    | .error stop machine =>
        (∀ cause, stop ≠ .desync cause) ∧ ∃ layout, Leads code before ⟨layout, machine⟩

namespace Runs

variable {α β : Type} {code : Code} {before : Config}

theorem weaken {action searching : Eval α} {post weaker : Config → α → Prop}
    (runs : Runs code before action searching post)
    (implies : ∀ after value, Leads code before after → post after value →
      weaker after value) : Runs code before action searching weaker := by
  refine ⟨runs.1, ?_⟩
  have outcome := runs.2
  cases result : action before.machine with
  | ok value machine =>
      simp only [result] at outcome ⊢
      obtain ⟨layout, leads, holds⟩ := outcome
      exact ⟨layout, leads, implies _ _ leads holds⟩
  | error stop machine =>
      simp only [result] at outcome ⊢
      exact outcome

/-- Sound runs follow each other. -/
theorem bind {action searching : Eval α} {next nextSearching : α → Eval β}
    {middle : Config → α → Prop} {post : Config → β → Prop}
    (first : Runs code before action searching middle)
    (second : ∀ between value, Leads code before between → middle between value →
      Runs code between (next value) (nextSearching value) post) :
    Runs code before (action >>= next) (searching >>= nextSearching) post := by
  obtain ⟨same, outcome⟩ := first
  unfold Runs
  simp only [Bind.bind, EStateM.bind]
  cases result : action before.machine with
  | ok value machine =>
      simp only [result] at same outcome ⊢
      obtain ⟨layout, leads, holds⟩ := outcome
      obtain ⟨sameNext, outcomeNext⟩ := second ⟨layout, machine⟩ value leads holds
      refine ⟨fun searchable => ?_, ?_⟩
      · simp only [same searchable]
        exact sameNext searchable
      · cases final : next value machine with
        | ok final after =>
            simp only [final] at outcomeNext ⊢
            obtain ⟨later, continues, holdsNext⟩ := outcomeNext
            exact ⟨later, leads.trans continues, holdsNext⟩
        | error stop after =>
            simp only [final] at outcomeNext ⊢
            obtain ⟨reported, later, continues⟩ := outcomeNext
            exact ⟨reported, later, leads.trans continues⟩
  | error stop machine =>
      simp only [result] at same outcome ⊢
      refine ⟨fun searchable => ?_, outcome⟩
      simp only [same searchable]

/-- An action that yields a value and leads to a known machine. -/
theorem ofOk {action : Eval α} {value : α} {machine : Machine} {post : Config → α → Prop}
    (layout : Layout) (result : action before.machine = .ok value machine)
    (leads : Leads code before ⟨layout, machine⟩) (holds : post ⟨layout, machine⟩ value) :
    Runs code before action action post := by
  refine ⟨fun _ => rfl, ?_⟩
  rw [result]
  exact ⟨layout, leads, holds⟩

theorem pure {post : Config → α → Prop} (conforms : before.Conforms code) {value : α}
    (holds : post before value) : Runs code before (pure value) (pure value) post :=
  ofOk before.layout rfl (.refl conforms) holds

/-- Reading the machine changes nothing. -/
theorem get {next nextSearching : Machine → Eval β} {post : Config → β → Prop}
    (runs : Runs code before (next before.machine) (nextSearching before.machine) post) :
    Runs code before (get >>= next) (get >>= nextSearching) post :=
  runs

theorem ofStop {action : Eval α} {stop : Stop} {post : Config → α → Prop}
    (conforms : before.Conforms code) (result : action before.machine = .error stop before.machine)
    (reported : ∀ cause, stop ≠ .desync cause) : Runs code before action action post := by
  refine ⟨fun _ => rfl, ?_⟩
  rw [result]
  exact ⟨reported, before.layout, .refl conforms⟩

theorem fail {post : Config → α → Prop} (conforms : before.Conforms code) (fault : Fault)
    (token : Token) : Runs code before (Eval.fail fault token) (Eval.fail fault token) post :=
  ofStop conforms rfl (by simp)

theorem outOfFuel {post : Config → α → Prop} (conforms : before.Conforms code) :
    Runs code before (throw .outOfFuel) (throw .outOfFuel) post :=
  ofStop conforms rfl (by simp)

theorem ofFault {post : Config → α → Prop} (conforms : before.Conforms code) (token : Token)
    {result : Except Fault α} (holds : ∀ value, result = .ok value → post before value) :
    Runs code before (Eval.ofFault token result) (Eval.ofFault token result) post := by
  cases result with
  | ok value => exact Runs.pure conforms (holds value rfl)
  | error fault => exact Runs.fail conforms fault token

/-- Going into a frame and back. -/
theorem within {action searching : Eval α} {post : Config → α → Prop} (frame : FrameId)
    (inside : Runs code (before.enter frame) action searching
      fun after value => post (after.enter before.machine.active) value) :
    Runs code before (Eval.within frame action) (Eval.within frame searching) post := by
  obtain ⟨same, outcome⟩ := inside
  have entered : (before.enter frame).machine = { before.machine with active := frame } := rfl
  rw [entered] at same outcome
  unfold Runs Eval.within
  dsimp only
  cases result : action { before.machine with active := frame } with
  | ok value machine =>
      simp only [result] at same outcome ⊢
      obtain ⟨layout, leads, holds⟩ := outcome
      refine ⟨fun searchable => by rw [same searchable], layout, ?_, holds⟩
      exact ⟨leads.conforms, rfl, leads.grows⟩
  | error stop machine =>
      simp only [result] at same outcome ⊢
      obtain ⟨reported, layout, leads⟩ := outcome
      refine ⟨fun searchable => by rw [same searchable], reported, layout, ?_⟩
      exact ⟨leads.conforms, rfl, leads.grows⟩

/-- The number of calls under way does not matter. -/
theorem counted {action searching : Eval α} {post : Config → α → Prop}
    (inside : Runs code ⟨before.layout, { before.machine with depth := before.machine.depth + 1 }⟩
      action searching fun after value =>
        post ⟨after.layout, { after.machine with depth := after.machine.depth - 1 }⟩ value) :
    Runs code before (Eval.counted action) (Eval.counted searching) post := by
  obtain ⟨same, outcome⟩ := inside
  dsimp only at same outcome
  unfold Runs Eval.counted
  cases result : action { before.machine with depth := before.machine.depth + 1 } with
  | ok value machine =>
      simp only [result] at same outcome ⊢
      obtain ⟨layout, leads, holds⟩ := outcome
      refine ⟨fun searchable => by rw [same searchable], layout, ?_, holds⟩
      exact ⟨leads.conforms, leads.active, leads.grows⟩
  | error stop machine =>
      simp only [result] at same outcome ⊢
      obtain ⟨reported, layout, leads⟩ := outcome
      refine ⟨fun searchable => by rw [same searchable], reported, layout, ?_⟩
      exact ⟨leads.conforms, leads.active, leads.grows⟩

end Runs

end LoxLang
