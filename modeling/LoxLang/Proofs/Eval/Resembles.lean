import LoxLang.Proofs.Eval.Copies
import LoxLang.Proofs.Eval.Layout

/-!
What a program can tell of a machine.  Two executions that begin on the same machine and
retrace each other end on machines with the same output and input, the same instances, and
the same values in every frame that was there before.  Whatever runs afterwards cannot tell
these machines apart either.
-/

namespace LoxLang

open Scope

open Scene (Leads)

/-- References have the same records in two tables. -/
def Scope.AgreeOn (table other : Resolution) (references : List Reference) : Prop :=
  ∀ reference ∈ references, other[reference.id]? = table[reference.id]?

/-- The references in all functions that there are. -/
def Heap.references (heap : Heap) : List Reference :=
  heap.closures.toList.flatMap fun closure => closure.declaration.references

/-- A machine and another one show the same, at least in what was in a heap before. -/
structure Machine.Resembles (heap : Heap) (machine other : Machine) : Prop where
  printed : other.printed = machine.printed
  input : other.input = machine.input
  clock : other.clock = machine.clock
  ticks : other.ticks = machine.ticks
  depth : other.depth = machine.depth
  active : other.active = machine.active
  bindings : ∀ frame < heap.frames.size, ∀ name,
    other.heap.frames.binding? frame name = machine.heap.frames.binding? frame name
  functions : ∀ id < heap.closures.size, other.heap.closure id = machine.heap.closure id
  classes : other.heap.classes = machine.heap.classes
  fields : other.heap.objects = machine.heap.objects

namespace Eval

/-- Two executions end alike, the one with the same value or the same runtime error as the
other.  Nothing is said where the first does not come to an end within its bound. -/
inductive EndsAlike {α : Type} (heap : Heap) :
    EStateM.Result Stop Machine α → EStateM.Result Stop Machine α → Prop where
  | ok {value : α} {machine other : Machine} : machine.Resembles heap other →
      EndsAlike heap (.ok value machine) (.ok value other)
  | fault {error : RuntimeError} {machine other : Machine} : machine.Resembles heap other →
      EndsAlike heap (.error (.fault error) machine) (.error (.fault error) other)
  | unfinished {stop : Stop} {machine : Machine} {result : EStateM.Result Stop Machine α} :
      (∀ error, stop ≠ .fault error) → EndsAlike heap (.error stop machine) result

/-- An execution that completes or fails, and what runs in a frame afterwards.  A value that
was returned is bound in that frame first. -/
def followedBy {α : Type} (action : Eval Completion) (frame : FrameId) (name : Bytes)
    (next : Eval α) : Eval α := fun machine =>
  match action machine with
  | .ok (.returned value) after =>
      within frame (do
        define name value
        next) after
  | .ok .normal after => within frame next after
  | .error (.fault _) after => within frame next after
  | .error stop after => .error stop after

end Eval

/-- The same machine twice. -/
def Scene.twice (machine : Machine) : Scene :=
  ⟨.same, machine, machine⟩

section Start

variable {table other : Resolution} {heap : Heap}

theorem Scope.AgreeOn.links {references : List Reference} (agree : AgreeOn table other references)
    {site : Site} (member : site.reference ∈ references) :
    Passage.Links ⟨id, none⟩ table other site where
  record := by
    change _ = table[site.reference.id]?.map id
    rw [Option.map_id_fun, id]
    exact agree _ member
  apart _ _ := by simp [Passage.gap]

theorem Heap.mem_references {id : ClosureId} (present : id < heap.closures.size)
    {reference : Reference} (member : reference ∈ (heap.closure id).declaration.references) :
    reference ∈ heap.references := by
  refine List.mem_flatMap.mpr ⟨heap.closure id, ?_, member⟩
  rw [Heap.closure, Array.getD_eq_getD_getElem?, Array.getElem?_eq_getElem present]
  exact Array.getElem_mem_toList present

/-- A function is a copy of itself. -/
theorem Overlay.holds_same (grounded : heap.IsGrounded)
    (agree : AgreeOn table other heap.references) {id : ClosureId}
    (present : id < heap.closures.size) (added : List Region) :
    Overlay.Holds table other ⟨.same, heap, heap⟩ added id := by
  refine ⟨present, ⟨fun id => id, none⟩, [], by simp [Passage.Reaches],
    .none_of_plain grounded.ordered (fun _ hidden => hidden) (grounded.closures id present), ?_, ?_⟩
  · rw [Function.relabel_eq_self _ fun _ _ => rfl]
    rfl
  · intro site member
    apply agree.links
    apply Heap.mem_references present
    rw [← Function.map_reference_sites (added ++ [])]
    exact List.mem_map_of_mem member

/-- A heap that keeps to a layout corresponds to itself. -/
theorem Overlay.Corresponds.same {code : Code} {layout : Layout}
    (conforms : Conforms code layout heap) (agree : AgreeOn table other heap.references) :
    Overlay.Corresponds table other ⟨.same, heap, heap⟩ := by
  have holds {id : ClosureId} (present : id < heap.closures.size) (added : List Region) :
      Overlay.Holds table other ⟨.same, heap, heap⟩ added id :=
    Overlay.holds_same conforms.toIsGrounded agree present added
  constructor
  case frames =>
    constructor
    case ordered => exact conforms.ordered
    case bound => exact fun _ below => below
    case enclosing => exact fun _ _ _ => (Option.map_id_fun ▸ rfl)
    case binding => exact fun _ _ _ _ => rfl
    case distinct => exact fun _ _ _ _ _ _ same => same
    case fresh => exact fun _ hidden => hidden.elim
    case around => exact fun _ _ hidden => hidden.elim
    case empty => exact fun _ _ hidden => hidden.elim
  case rooted => exact conforms.rooted
  case plain => exact fun hidden => hidden
  case global => rfl
  case closures => rfl
  case classes => rfl
  case objects => rfl
  case bound =>
    intro frame name value found id function
    exact holds ((conforms.bound frame name value found).callable id function).1 []
  case fields =>
    intro place name value found id function
    exact holds ((conforms.fields place name value found).callable id function).1 []
  case methods =>
    intro type name id found
    exact ⟨false, holds (conforms.methods type name id found).1 _⟩

variable {machine : Machine} {code : Code} {layout : Layout}

theorem Scene.Corresponds.twice (conforms : Conforms code layout machine.heap)
    (within : machine.active < machine.heap.frames.size)
    (agree : AgreeOn table other machine.heap.references) :
    (Scene.twice machine).Corresponds table other :=
  ⟨.same conforms agree, rfl, within, rfl, rfl, rfl, rfl, rfl⟩

/-- Nothing is hidden at first. -/
theorem Scene.hides_twice (grounded : machine.heap.IsGrounded) {frame : FrameId}
    (present : frame < machine.heap.frames.size) : ((twice machine).enter frame).Hides none :=
  .none_of_plain grounded.ordered (fun _ hidden => hidden) present

/-- Executions that begin alike lead to machines that look the same. -/
theorem Scene.Leads.resembles {after : Scene}
    (leads : Leads table other (.twice machine) after)
    (within : machine.active < machine.heap.frames.size) :
    after.upper.Resembles machine.heap after.lower where
  printed := leads.same.printed
  input := leads.same.input
  clock := leads.same.clock
  ticks := leads.same.ticks
  depth := leads.same.depth
  active := by
    rw [leads.same.active, leads.active]
    exact leads.grows.projection.image _ within
  bindings frame present name := by
    have image : after.overlay.projection.image frame = frame :=
      leads.grows.projection.image frame present
    have plain : ¬ after.overlay.projection.hidden frame :=
      (leads.grows.projection.hidden frame present).not.mpr fun hidden => hidden
    have binding := leads.same.heaps.frames.binding frame
      (Nat.lt_of_lt_of_le present leads.grows.frames) plain name
    rw [image] at binding
    exact binding
  functions id present := by
    obtain ⟨upper, lower⟩ := leads.grows.closure id present
    exact lower.trans upper.symm
  classes := leads.same.classes
  fields := leads.same.objects

theorem EndsRetraced.endsAlike {α : Type} {post : Scene → α → Prop}
    {result imageResult : EStateM.Result Stop Machine α}
    (ends : EndsRetraced table other (.twice machine) post result imageResult)
    (within : machine.active < machine.heap.frames.size) :
    Eval.EndsAlike machine.heap result imageResult := by
  cases ends with
  | ok after leads _ => exact .ok (leads.resembles within)
  | fault after leads => exact .fault (leads.resembles within)
  | unfinished stops => exact .unfinished stops

end Start

/-- What runs afterwards is retraced as well. -/
theorem Retraces.followedBy {α : Type} {table other : Resolution} {before : Scene}
    {action image : Eval Completion} {next imageNext : Eval α}
    (retraces : Retraces table other before action image (ReturnsCopy table other))
    {frame : FrameId} (hides : (before.enter frame).Hides none) (name : Bytes)
    (later : ∀ inside : Scene, inside.Corresponds table other → inside.Hides none →
      Retraces table other inside next imageNext fun _ _ => True) :
    Retraces table other before (Eval.followedBy action frame name next)
      (Eval.followedBy image (before.projection.image frame) name imageNext)
      fun _ _ => True := by
  have enters {after : Scene} (leads : Leads table other before after) :
      (after.enter frame).Corresponds table other ∧ (after.enter frame).Hides none ∧
        after.projection.image frame = before.projection.image frame := by
    have kept := leads.grows.hides hides
    exact ⟨leads.same.enter kept.lt_size, kept, leads.grows.projection.image _ hides.lt_size⟩
  have goesOn {after : Scene} (leads : Leads table other before after) :
      EndsRetraced table other before (fun _ _ => True) (Eval.within frame next after.upper)
        (Eval.within (before.projection.image frame) imageNext after.lower) := by
    obtain ⟨same, kept, image⟩ := enters leads
    rw [← image]
    exact (Retraces.within leads.same (later _ same kept)).after leads
  unfold Retraces at retraces ⊢
  unfold Eval.followedBy
  generalize action before.upper = result at retraces ⊢
  generalize image before.lower = imageResult at retraces ⊢
  cases retraces with
  | fault after leads => exact goesOn leads
  | @unfinished stop machine imageResult stops =>
      cases stop with
      | fault error => exact absurd rfl (stops error)
      | _ => exact .unfinished stops
  | @ok completion after leads returned =>
      cases completion with
      | normal => exact goesOn leads
      | returned value =>
          obtain ⟨same, kept, image⟩ := enters leads
          have valid := returned value rfl
          have bound : Retraces table other (after.enter frame)
              (do Eval.define name value; next) (do Eval.define name value; imageNext)
              fun _ _ => True := by
            apply Retraces.bind (Retraces.define same kept (by simp) name valid)
            intro inside _ further _
            exact later inside further.same (further.hides kept)
          rw [← image]
          exact EndsRetraced.after (Retraces.within leads.same bound) leads

/-- Code whose references have the same records is retraced by itself. -/
theorem Retraces.executeAll {table other : Resolution} {inside : Scene}
    (same : inside.Corresponds table other) (hides : inside.Hides none) {statements : List Stmt}
    (agree : AgreeOn table other (Stmt.referencesAll statements)) {fuel bound : Nat}
    (room : fuel ≤ bound) :
    Retraces table other inside (Eval.executeAll ⟨table, .recorded⟩ fuel statements)
      (Eval.executeAll ⟨other, .recorded⟩ bound statements) fun _ _ => True := by
  have copies : Passage.CopiesAll ⟨fun id => id, none⟩ table other [] statements := by
    refine ⟨by simp [Passage.Reaches], by simp [Passage.gap], fun site member => ?_⟩
    apply agree.links
    rw [← Stmt.map_reference_sitesAll []]
    exact List.mem_map_of_mem member
  have hidesHere : inside.Hides (Passage.gap ⟨fun id => id, none⟩ []) := hides
  have runs := (RunsCopied.all table other room).executeAll same hidesHere copies
  rw [Stmt.relabelAll_eq_self statements fun _ _ => rfl] at runs
  exact runs.weaken fun _ _ _ _ => trivial

end LoxLang
