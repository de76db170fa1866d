import LoxLang.Proofs.Eval.Pieces
import LoxLang.Proofs.Eval.Trace

/-!
Code with the scopes around it.  Every task carries out code that stands somewhere in a
program, and every function was declared somewhere.  The references there are distinct and
recorded as the scope rules say for the place.
-/

namespace LoxLang

open Scope

/-- References are recorded where they stand. -/
structure Code.Records (code : Code) (sites : List Site) : Prop where
  distinct : (sites.map fun site => site.reference.id).Nodup
  below : ∀ site ∈ sites, site.reference.id < code.limit
  recorded : ∀ site ∈ sites, code.table[site.reference.id]? = site.record?

namespace Code.Records

variable {code : Code} {sites fewer : List Site}

theorem nil (code : Code) : code.Records [] :=
  ⟨.nil, by simp, by simp⟩

theorem sublist (records : code.Records sites) (sublist : fewer.Sublist sites) :
    code.Records fewer where
  distinct := records.distinct.sublist (sublist.map _)
  below site member := records.below site (sublist.subset member)
  recorded site member := records.recorded site (sublist.subset member)

end Code.Records

/-- The references of the code of a task with the scopes around them. -/
def Task.sites (around : List Region) : Task → List Site
  | .evaluate expression => sitesAt around expression.references
  | .evaluateAll expressions => sitesAt around (Expr.referencesAll expressions)
  | .execute statement => statement.sites around
  | .executeAll statements => Stmt.sitesAll around statements
  | .executeLoop condition body => sitesAt around condition.references ++ body.sites around
  | _ => []

/-- A method stands among the methods of its class. -/
theorem Function.sites_sublist {around : List Region} {methods : List Function}
    {method : Function} (listed : method ∈ methods) :
    (method.sites around).Sublist (Function.sitesAll around methods) := by
  induction methods with
  | nil => cases listed
  | cons first rest inductionHypothesis =>
      rcases List.mem_cons.mp listed with rfl | inRest
      · exact List.sublist_append_left _ _
      · exact (inductionHypothesis inRest).trans (List.sublist_append_right _ _)

namespace Task

theorem sites_of_isCall {task : Task} (isCall : task.isCall = true) (around : List Region) :
    task.sites around = [] := by
  cases task <;> first | rfl | cases isCall

/-- A piece of a statement has the scopes of the statement around it, unless the statement
opens a scope or the piece follows a declaration. -/
theorem exists_sites_of_execute (statement : Stmt) (around : List Region) :
    ∀ piece ∈ statement.pieces,
      ∃ inside, (piece.sites inside).Sublist (statement.sites around) := by
  cases statement with
  | declare name initial =>
      cases initial with
      | none => simp [Stmt.pieces]
      | some initial =>
          exact List.forall_mem_singleton.mpr ⟨declaring name.text around, .refl _⟩
  | block body => exact List.forall_mem_singleton.mpr ⟨.block body :: around, .refl _⟩
  | branch condition consequence alternative =>
      cases alternative with
      | none =>
          refine List.forall_mem_cons.mpr ⟨⟨around, ?_⟩,
            List.forall_mem_singleton.mpr ⟨around, ?_⟩⟩
          · exact List.sublist_append_left _ _
          · exact List.sublist_append_right _ _
      | some alternative =>
          refine List.forall_mem_cons.mpr ⟨⟨around, ?_⟩, List.forall_mem_cons.mpr
            ⟨⟨around, ?_⟩, List.forall_mem_singleton.mpr
              ⟨declared consequence.declares around, ?_⟩⟩⟩
          · exact (List.sublist_append_left _ _).trans (List.sublist_append_left _ _)
          · exact (List.sublist_append_right _ _).trans (List.sublist_append_left _ _)
          · exact List.sublist_append_right _ _
  | loop condition body => exact List.forall_mem_singleton.mpr ⟨around, .refl _⟩
  | leave line value =>
      cases value with
      | none => simp [Stmt.pieces]
      | some value => exact List.forall_mem_singleton.mpr ⟨around, .refl _⟩
  | expression value echo => exact List.forall_mem_singleton.mpr ⟨around, .refl _⟩
  | print value => exact List.forall_mem_singleton.mpr ⟨around, .refl _⟩
  | _ => simp [Stmt.pieces]

/-- A piece of code stands among the code. -/
theorem exists_sites_sublist (task : Task) (around : List Region) :
    ∀ piece ∈ task.pieces, ∃ inside, (piece.sites inside).Sublist (task.sites around) := by
  have here {task : Task} (sublist : ∀ piece ∈ task.pieces,
      (piece.sites around).Sublist (task.sites around)) :
      ∀ piece ∈ task.pieces, ∃ inside, (piece.sites inside).Sublist (task.sites around) :=
    fun piece member => ⟨around, sublist piece member⟩
  cases task with
  | evaluate expression =>
      apply here
      cases expression <;> simp [pieces, Expr.pieces, sites, sitesAt, Expr.references]
  | evaluateAll expressions =>
      apply here
      cases expressions <;> simp [pieces, sites, sitesAt, Expr.referencesAll]
  | execute statement => exact exists_sites_of_execute statement around
  | executeAll statements =>
      cases statements with
      | nil => simp [pieces]
      | cons first rest =>
          refine List.forall_mem_cons.mpr ⟨⟨around, ?_⟩,
            List.forall_mem_singleton.mpr ⟨declared first.declares around, ?_⟩⟩
          · exact List.sublist_append_left _ _
          · exact List.sublist_append_right _ _
  | executeLoop condition body =>
      apply here
      simp [pieces, sites]
  | _ => simp [pieces]

end Task

/-- The references of every function are recorded where it was declared. -/
def Heap.IsRecorded (code : Code) (heap : Heap) : Prop :=
  ∀ id < heap.closures.size, ∃ around, code.Records ((heap.closure id).declaration.sites around)

/-- The references of the code of a task are recorded where it stands. -/
def Activity.IsRecorded (code : Code) (activity : Activity) : Prop :=
  activity.access = ⟨code.table, .recorded⟩ ∧
    ∃ around, code.Records (activity.task.sites around)

namespace Activity

variable {code current : Code} {activity : Activity}

/-- What a maker makes is recorded. -/
theorem IsSound.isRecorded_final (sound : activity.IsSound current)
    (isMaker : activity.task.isMaker = true) (recorded : activity.IsRecorded code)
    (held : activity.machine.heap.IsRecorded code) : activity.final.heap.IsRecorded code := by
  have persists := sound.persists_of_maker isMaker
  intro id present
  by_cases old : id < activity.machine.heap.closures.size
  · rw [persists.closure id old]
    exact held id old
  have absent := Nat.not_lt.mp old
  obtain ⟨-, around, records⟩ := recorded
  have makes := sound.makes isMaker
  generalize activity.final.heap = heap at persists present makes
  cases makes with
  | nothing => exact absurd present old
  | @bound method receiver task =>
      rw [Heap.closure_eq_of_push _ rfl absent present]
      obtain ⟨-, layout, -, isMethod⟩ := sound
      rw [task] at isMethod
      exact held method isMethod.1
  | @function declaration task =>
      rw [Heap.closure_eq_of_push _ rfl absent present]
      rw [task] at records
      exact ⟨_, records⟩
  | @classDecl name superclass methods parent task inherits =>
      obtain ⟨method, numbered⟩ := Heap.exists_numbered _ _ _ _ _ absent present
      rw [Heap.closure_declareClass _ _ _ _ _ numbered]
      have listed (inside : List Region) :
          (method.sites inside).Sublist (Function.sitesAll inside methods) :=
        Function.sites_sublist (List.fst_mem_of_mem_zipIdx numbered)
      rw [task] at records
      cases superclass with
      | none => exact ⟨_, records.sublist (listed _)⟩
      | some superclass =>
          exact ⟨_, records.sublist ((listed _).trans (List.sublist_append_right _ _))⟩

/-- The parts of a recorded task are recorded. -/
theorem IsSound.isRecorded_inner (sound : activity.IsSound current)
    (recorded : activity.IsRecorded code) {part : Part} (member : part ∈ activity.parts)
    (held : part.before.heap.IsRecorded code) : (activity.inner part).IsRecorded code := by
  obtain ⟨access, around, records⟩ := recorded
  refine ⟨access, ?_⟩
  have ofPiece (piece : part.task ∈ activity.task.pieces) :
      ∃ inside, code.Records (part.task.sites inside) := by
    obtain ⟨inside, sublist⟩ := activity.task.exists_sites_sublist around _ piece
    exact ⟨inside, records.sublist sublist⟩
  cases activity.arises member with
  | here yields _ =>
      rcases yields with piece | isCall
      · exact ofPiece piece
      · refine ⟨[], ?_⟩
        change code.Records (part.task.sites [])
        rw [Task.sites_of_isCall isCall]
        exact .nil code
  | binding type name receiver found => exact ⟨[], .nil code⟩
  | block task =>
      apply ofPiece
      rw [task]
      exact List.mem_singleton_self _
  | @body id arguments task =>
      obtain ⟨-, layout, -, invokes⟩ := sound
      rw [task] at invokes
      obtain ⟨outside, recorded⟩ := held id invokes.1.1
      change ∃ inside, code.Records
        (Stmt.sitesAll inside (activity.machine.heap.closure id).declaration.body)
      change code.Records ((activity.machine.heap.closure id).declaration.sites outside) at recorded
      cases stands : (activity.machine.heap.closure id).declaration with
      | mk name parameters body =>
          rw [stands] at recorded
          exact ⟨_, recorded⟩

end Activity

/-- All code stays recorded. -/
theorem keeps_isRecorded (code : Code) : Keeps (Heap.IsRecorded code) (Activity.IsRecorded code) where
  change change held := by
    have grows := change.growsTo
    have same := Heap.Changes.closures_eq (.single change)
    intro id present
    rw [same] at present
    rw [grows.closure id present]
    exact held id present
  makes sound isMaker recorded held := sound.isRecorded_final isMaker recorded held
  inner sound recorded _ member held := sound.isRecorded_inner recorded member held

end LoxLang
