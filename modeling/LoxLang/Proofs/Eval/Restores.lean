import LoxLang.Proofs.Eval.Changes

/-!
The active frame and the depth.  A task changes them only where it enters a part, and
changes them back when the part is left, so both are restored however a task ends.
-/

namespace LoxLang

/-- The same frame is active, and as many calls are under way. -/
structure Machine.Restores (before after : Machine) : Prop where
  active : after.active = before.active
  depth : after.depth = before.depth

namespace Machine.Restores

variable {before between after : Machine}

theorem trans (first : Restores before between) (second : Restores between after) :
    Restores before after :=
  ⟨second.active.trans first.active, second.depth.trans first.depth⟩

theorem moves {licence : Licence} (moves : before.Moves licence after) : Restores before after :=
  ⟨moves.active, moves.depth⟩

/-- What a part enters is left with it. -/
theorem leave (entry : Entrance) (restores : Restores (entry.enter before) after) :
    Restores before (entry.leave before after) := by
  obtain ⟨active, depth⟩ := restores
  cases entry with
  | here => exact ⟨active, depth⟩
  | inside frame => exact ⟨rfl, depth⟩
  | counted =>
      refine ⟨active, ?_⟩
      simp only [Entrance.enter, Entrance.leave] at depth ⊢
      rw [depth]
      exact Nat.add_sub_cancel _ 1

end Machine.Restores

theorem Entrance.active_enter {entry : Entrance} (stays : ∀ frame, entry ≠ .inside frame)
    (machine : Machine) : (entry.enter machine).active = machine.active := by
  cases entry with
  | inside frame => exact absurd rfl (stays frame)
  | _ => rfl

namespace Activity

/-- A task restores what its parts restore. -/
theorem restores_of_parts {activity : Activity}
    (kept : ∀ part ∈ activity.parts,
      (activity.inner part).machine.Restores (activity.inner part).final) :
    activity.machine.Restores activity.final ∧
      ∀ part ∈ activity.parts, activity.machine.Restores part.before := by
  obtain ⟨whole, inside⟩ := activity.linked.relates Machine.Restores .trans .moves
    fun part member => .leave part.entry (kept part member)
  exact ⟨whole, fun part member => (inside part member).1⟩

/-- However a task ends, it leaves the frame active that was active, and as many calls
under way. -/
theorem restores (activity : Activity) : activity.machine.Restores activity.final := by
  induction activity using Activity.induction with
  | step activity inductionHypothesis => exact (restores_of_parts inductionHypothesis).1

theorem restores_before (activity : Activity) {part : Part} (member : part ∈ activity.parts) :
    activity.machine.Restores part.before :=
  (restores_of_parts fun part _ => (activity.inner part).restores).2 part member

end Activity

end LoxLang
