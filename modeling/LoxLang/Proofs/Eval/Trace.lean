import LoxLang.Proofs.Eval.Makers

/-!
The course of the heap.  From one moment of an execution to the next the heap changes
plainly, or a task ends that makes functions or classes.  So what is there at a moment was
made at an earlier one, and what a step of either kind preserves is preserved throughout.
-/

namespace LoxLang

open Scope

/-- The licence of tasks that make nothing. -/
def Licence.plain : Licence :=
  ⟨IsOrdinary, False⟩

namespace Heap

/-- A heap has grown, and older frames still bind the same receivers and superclasses. -/
structure Persists (earlier later : Heap) : Prop extends GrowsTo earlier later where
  reserved : ∀ frame < earlier.frames.size, ∀ name, ¬ IsOrdinary name →
    later.frames.binding? frame name = earlier.frames.binding? frame name

namespace Persists

variable {earlier between later : Heap}

theorem refl (heap : Heap) : heap.Persists heap :=
  ⟨.refl heap, fun _ _ _ _ => rfl⟩

theorem trans (first : earlier.Persists between) (second : between.Persists later) :
    earlier.Persists later where
  toGrowsTo := first.toGrowsTo.trans second.toGrowsTo
  reserved frame bound name isReserved := by
    rw [second.reserved frame (Nat.lt_of_lt_of_le bound first.frames) name isReserved,
      first.reserved frame bound name isReserved]

end Persists

/-- Nothing overwrites a receiver or a superclass as long as ordinary names are bound. -/
theorem Change.persists {licence : Licence} {earlier later : Heap}
    (ordinary : ∀ name, licence.binds name → IsOrdinary name)
    (change : Change licence earlier later) : earlier.Persists later := by
  refine ⟨change.growsTo, fun frame bound name isReserved => ?_⟩
  cases change with
  | addFrame outer bindings _ =>
      rw [Heap.addFrame, Frames.binding?_push, if_neg (Nat.ne_of_lt bound)]
  | bindName other value licensed =>
      apply Frames.binding?_define_of_ne
      intro same
      rw [same.2] at isReserved
      exact isReserved (ordinary _ licensed)
  | _ => rfl

theorem Changes.persists {licence : Licence} {earlier later : Heap}
    (ordinary : ∀ name, licence.binds name → IsOrdinary name)
    (changes : Changes licence earlier later) : earlier.Persists later := by
  induction changes with
  | refl => exact .refl _
  | tail _ change inductionHypothesis =>
      exact inductionHypothesis.trans (change.persists ordinary)

theorem Changes.plain {licence : Licence} {earlier later : Heap}
    (ordinary : ∀ name, licence.binds name → IsOrdinary name) (makes : ¬ licence.makes)
    (changes : Changes licence earlier later) : Changes .plain earlier later := by
  refine Relation.ReflTransGen.mono (fun before after change => ?_) _ _ changes
  cases change with
  | addFrame outer bindings licensed =>
      exact .addFrame _ _ _ fun _ name bound => ordinary name (licensed makes name bound)
  | bindName frame value licensed => exact .bindName _ _ _ (ordinary _ licensed)
  | addClosure made never => exact absurd never makes
  | addClass made never => exact absurd never makes
  | addObject type => exact .addObject _ _
  | bindField id name value => exact .bindField _ _ _ _

/-- Plain changes make no function. -/
theorem Changes.closures_eq {earlier later : Heap} (changes : Changes .plain earlier later) :
    later.closures = earlier.closures := by
  induction changes with
  | refl => rfl
  | tail _ change inductionHypothesis =>
      rw [← inductionHypothesis]
      cases change with
      | addClosure made never => cases never
      | _ => rfl

/-- A moment comes next: the heap changes plainly up to it, or up to the beginning of a
maker that ends there. -/
inductive LeadsTo (earlier : Heap) (moment : Moment) : Prop where
  | plainly : Changes .plain earlier moment.machine.heap → LeadsTo earlier moment
  | making {code : Code} : moment.ended = true → moment.activity.task.isMaker = true →
      moment.activity.IsSound code → Changes .plain earlier moment.activity.machine.heap →
        LeadsTo earlier moment

/-- Moments lead from one heap to another. -/
def Spans (start : Heap) : List Moment → Heap → Prop
  | [], final => Changes .plain start final
  | moment :: rest, final => start.LeadsTo moment ∧ Spans moment.machine.heap rest final

end Heap

namespace Activity

variable {code : Code} {activity : Activity}

theorem parts_eq_nil (isMaker : activity.task.isMaker = true) : activity.parts = [] := by
  obtain ⟨access, fuel, task, machine⟩ := activity
  cases fuel with
  | zero => rfl
  | succ fuel =>
      cases task with
      | bind method receiver => rfl
      | execute statement =>
          cases statement with
          | function declaration => rfl
          | classDecl name superclass methods => rfl
          | _ => cases isMaker
      | _ => cases isMaker

@[simp]
theorem inner_heap (activity : Activity) (part : Part) :
    (activity.inner part).machine.heap = part.before.heap :=
  part.entry.heap_enter part.before

theorem not_makes (notMaker : activity.task.isMaker = false) :
    ¬ (activity.task.licence activity.machine).makes := by
  cases task : activity.task with
  | evaluate expression =>
      cases expression <;> exact id
  | execute statement =>
      rw [task] at notMaker
      cases statement with
      | function declaration => cases notMaker
      | classDecl name superclass methods => cases notMaker
      | _ => exact id
  | bind method receiver =>
      rw [task] at notMaker
      cases notMaker
  | _ => exact id

/-- A maker changes the heap itself. -/
theorem IsSound.persists_of_maker (sound : activity.IsSound code)
    (isMaker : activity.task.isMaker = true) :
    activity.machine.heap.Persists activity.final.heap := by
  have linked := activity.linked
  rw [parts_eq_nil isMaker] at linked
  exact Heap.Changes.persists (fun _ => sound.ordinary) linked.heap

end Activity

namespace Heap

theorem LeadsTo.persists {earlier : Heap} {moment : Moment} (leads : earlier.LeadsTo moment) :
    earlier.Persists moment.machine.heap := by
  cases leads with
  | plainly changes => exact changes.persists fun _ => id
  | making ended isMaker sound changes =>
      rw [Moment.machine_of_ended ended]
      exact (changes.persists fun _ => id).trans (sound.persists_of_maker isMaker)

theorem LeadsTo.ofChanges {earlier between : Heap} {moment : Moment}
    (changes : Changes .plain earlier between) (leads : between.LeadsTo moment) :
    earlier.LeadsTo moment := by
  cases leads with
  | plainly further => exact .plainly (changes.trans further)
  | making ended isMaker sound further =>
      exact .making ended isMaker sound (changes.trans further)

/-- The moment at which a function came to be: the end of a task that makes functions. -/
structure Creation (start : Heap) (before : List Moment) (moment : Moment) (after : List Moment)
    (final : Heap) (id : ClosureId) : Prop where
  ended : moment.ended = true
  sound : ∃ code, moment.activity.IsSound code
  isMaker : moment.activity.task.isMaker = true
  earlier : start.Spans before moment.activity.machine.heap
  later : moment.activity.final.heap.Spans after final
  absent : moment.activity.machine.heap.closures.size ≤ id
  present : id < moment.activity.final.heap.closures.size

namespace Spans

variable {start middle final : Heap} {moments first second : List Moment}

theorem ofChanges (changes : Changes .plain start middle) (spans : middle.Spans moments final) :
    start.Spans moments final := by
  cases moments with
  | nil => exact changes.trans spans
  | cons moment rest => exact ⟨spans.1.ofChanges changes, spans.2⟩

theorem append (left : start.Spans first middle) (right : middle.Spans second final) :
    start.Spans (first ++ second) final := by
  induction first generalizing start with
  | nil => exact ofChanges left right
  | cons moment rest inductionHypothesis => exact ⟨left.1, inductionHypothesis left.2⟩

theorem split (spans : start.Spans (first ++ second) final) :
    ∃ middle, start.Spans first middle ∧ middle.Spans second final := by
  induction first generalizing start with
  | nil => exact ⟨start, .refl, spans⟩
  | cons moment rest inductionHypothesis =>
      obtain ⟨middle, left, right⟩ := inductionHypothesis spans.2
      exact ⟨middle, ⟨spans.1, left⟩, right⟩

theorem persists (spans : start.Spans moments final) : start.Persists final := by
  induction moments generalizing start with
  | nil => exact Changes.persists (fun _ => id) spans
  | cons moment rest inductionHypothesis =>
      exact spans.1.persists.trans (inductionHypothesis spans.2)

/-- What is there at any moment is there at every later one. -/
theorem pairwise (spans : start.Spans moments final) :
    (start :: moments.map (fun moment => moment.machine.heap) ++ [final]).Pairwise Persists := by
  induction moments generalizing start with
  | nil => simpa using spans.persists
  | cons moment rest inductionHypothesis =>
      have later := inductionHypothesis spans.2
      rw [List.cons_append, List.pairwise_cons]
      refine ⟨fun heap member => ?_, later⟩
      rw [List.map_cons, List.cons_append, List.mem_cons] at member
      rcases member with rfl | further
      · exact spans.1.persists
      · exact spans.1.persists.trans (List.rel_of_pairwise_cons later further)

/-- The course of the heap up to the beginning of a task. -/
theorem upTo {before after : List Moment} {moment : Moment}
    (spans : start.Spans (before ++ moment :: after) final) (begins : moment.ended = false) :
    start.Spans before moment.machine.heap := by
  obtain ⟨middle, earlier, leads, -⟩ := spans.split
  cases leads with
  | plainly changes =>
      have whole : start.Spans (before ++ []) moment.machine.heap := earlier.append changes
      rw [List.append_nil] at whole
      exact whole
  | making ended _ _ _ =>
      rw [begins] at ended
      cases ended

/-- What is there at a moment is there at the end. -/
theorem persists_of_mem {earlier : Moment} (spans : start.Spans moments final)
    (member : earlier ∈ moments) : earlier.machine.heap.Persists final := by
  have apart := List.pairwise_append.mp spans.pairwise
  exact apart.2.2 _ (List.mem_cons_of_mem _ (List.mem_map_of_mem member)) _
    (List.mem_singleton_self _)

/-- A function that came to be was made by a task that ended in between. -/
theorem exists_creation {id : ClosureId} (spans : start.Spans moments final)
    (absent : start.closures.size ≤ id) (present : id < final.closures.size) :
    ∃ before moment after, moments = before ++ moment :: after ∧
      Creation start before moment after final id := by
  induction moments generalizing start with
  | nil =>
      rw [Changes.closures_eq spans] at present
      exact absurd present (Nat.not_lt.mpr absent)
  | cons moment rest inductionHypothesis =>
      by_cases old : moment.machine.heap.closures.size ≤ id
      · obtain ⟨before, maker, after, rfl, creation⟩ := inductionHypothesis spans.2 old
        exact ⟨moment :: before, maker, after, rfl,
          { creation with earlier := ⟨spans.1, creation.earlier⟩ }⟩
      · have new := Nat.not_le.mp old
        obtain ⟨leads, later⟩ := spans
        cases leads with
        | plainly changes =>
            rw [changes.closures_eq] at new
            exact absurd new (Nat.not_lt.mpr absent)
        | @making code ended isMaker sound changes =>
            rw [Moment.machine_of_ended ended] at new later
            rw [← changes.closures_eq] at absent
            exact ⟨[], moment, rest, rfl, ended, ⟨code, sound⟩, isMaker, changes, later, absent, new⟩

end Spans

end Heap

namespace Activity

variable {code : Code}

/-- Parts span the course of the heap between the changes of a plain task. -/
theorem spans_of_linked {access : Access} {fuel : Nat} {licence : Licence}
    (ordinary : ∀ name, licence.binds name → IsOrdinary name) (makes : ¬ licence.makes)
    {start final : Machine} {parts : List Part} {around : List Task}
    (linked : Linked access fuel licence start parts final)
    (spans : ∀ part ∈ parts, part.before.heap.Spans
      ((part.activity access fuel).moments around) (part.activity access fuel).final.heap) :
    start.heap.Spans (parts.flatMap fun part => (part.activity access fuel).moments around)
      final.heap := by
  induction parts generalizing start with
  | nil => exact Heap.Changes.plain ordinary makes linked.heap
  | cons part rest inductionHypothesis =>
      obtain ⟨-, moves, later⟩ := linked
      rw [List.flatMap_cons]
      have first := Heap.Spans.ofChanges (Heap.Changes.plain ordinary makes moves.heap)
        (spans part List.mem_cons_self)
      refine first.append ?_
      have next := inductionHypothesis later fun other member =>
        spans other (List.mem_cons_of_mem _ member)
      rw [Part.after, Entrance.heap_leave] at next
      exact next

/-- The moments of a sound task span the course of the heap from its beginning to its
end. -/
theorem IsSound.spans {activity : Activity} (sound : activity.IsSound code)
    (around : List Task) :
    activity.machine.heap.Spans (activity.moments around) activity.final.heap := by
  induction activity using Activity.induction generalizing around with
  | step activity inductionHypothesis =>
      rw [moments_eq]
      refine ⟨.plainly .refl, ?_⟩
      cases isMaker : activity.task.isMaker with
      | true =>
          rw [parts_eq_nil isMaker]
          exact ⟨.making rfl isMaker sound .refl, .refl⟩
      | false =>
          have inside : activity.machine.heap.Spans
              (activity.parts.flatMap fun part =>
                (activity.inner part).moments (activity.task :: around)) activity.final.heap := by
            refine spans_of_linked (fun _ => sound.ordinary) (not_makes isMaker) activity.linked ?_
            intro part member
            have inner := inductionHypothesis part member (sound.inner member)
              (activity.task :: around)
            rw [inner_heap] at inner
            exact inner
          exact inside.append ⟨.plainly .refl, .refl⟩

/-- What is there when a sound task begins is there when its parts begin. -/
theorem IsSound.persists_before {activity : Activity} (sound : activity.IsSound code)
    {part : Part} (member : part ∈ activity.parts) :
    activity.machine.heap.Persists part.before.heap := by
  obtain ⟨-, inside⟩ := activity.linked.relates
    (fun before after => before.heap.Persists after.heap) .trans
    (fun moves => moves.heap.persists fun _ => sound.ordinary)
    fun part member => by
      have spans := (sound.inner member).spans []
      rw [inner_heap] at spans
      rw [Part.after, Entrance.heap_leave]
      exact spans.persists
  exact (inside part member).1

end Activity

/-- What holds of heaps as long as the tasks under way are suitable. -/
structure Keeps (holds : Heap → Prop) (suits : Activity → Prop) : Prop where
  change : ∀ {earlier later}, Heap.Change .plain earlier later → holds earlier → holds later
  makes : ∀ {code activity}, activity.IsSound code → activity.task.isMaker = true →
    suits activity → holds activity.machine.heap → holds activity.final.heap
  inner : ∀ {code activity}, activity.IsSound code → suits activity →
    ∀ part ∈ activity.parts, holds part.before.heap → suits (activity.inner part)

/-- A moment at which a sound and suitable task begins or ends, on heaps that are as they
should be. -/
structure Moment.IsKept (holds : Heap → Prop) (suits : Activity → Prop) (moment : Moment) :
    Prop where
  sound : ∃ code, moment.activity.IsSound code
  suits : suits moment.activity
  begins : holds moment.activity.machine.heap
  holds : holds moment.machine.heap

namespace Keeps

variable {holds : Heap → Prop} {suits : Activity → Prop} {code : Code}

theorem changes (keeps : Keeps holds suits) {earlier later : Heap}
    (changes : Heap.Changes .plain earlier later) (held : holds earlier) : holds later := by
  induction changes with
  | refl => exact held
  | tail _ change inductionHypothesis => exact keeps.change change inductionHypothesis

/-- A task keeps what its parts keep. -/
theorem parts (keeps : Keeps holds suits) {activity : Activity} (sound : activity.IsSound code)
    (suitable : suits activity) (held : holds activity.machine.heap)
    (kept : ∀ part ∈ activity.parts, suits (activity.inner part) →
      holds part.before.heap → holds (activity.inner part).final.heap) :
    holds activity.final.heap ∧ ∀ part ∈ activity.parts, holds part.before.heap := by
  cases isMaker : activity.task.isMaker with
  | true =>
      rw [Activity.parts_eq_nil isMaker]
      exact ⟨keeps.makes sound isMaker suitable held, by simp⟩
  | false =>
      obtain ⟨whole, inside⟩ := activity.linked.relates
        (fun before after => holds before.heap → holds after.heap)
        (fun first second held => second (first held))
        (fun moves => keeps.changes
          (moves.heap.plain (fun _ => sound.ordinary) (Activity.not_makes isMaker)))
        fun part member before => by
          rw [Part.after, Entrance.heap_leave]
          exact kept part member (keeps.inner sound suitable part member before) before
      exact ⟨whole held, fun part member => (inside part member).1 held⟩

/-- At every moment of a suitable task everything is as it should be. -/
theorem moments (keeps : Keeps holds suits) {activity : Activity}
    (sound : activity.IsSound code) (suitable : suits activity)
    (held : holds activity.machine.heap) (around : List Task) :
    holds activity.final.heap ∧
      ∀ moment ∈ activity.moments around, moment.IsKept holds suits := by
  induction activity using Activity.induction generalizing around with
  | step activity inductionHypothesis =>
      obtain ⟨final, before⟩ := keeps.parts sound suitable held fun part member suitable held =>
        (inductionHypothesis part member (sound.inner member) suitable
          (by rw [Activity.inner_heap]; exact held) []).1
      refine ⟨final, fun moment member => ?_⟩
      rw [Activity.moments_eq, List.cons_append, List.mem_cons, List.mem_append,
        List.mem_flatMap, List.mem_singleton] at member
      rcases member with rfl | ⟨part, inParts, inside⟩ | rfl
      · exact ⟨⟨code, sound⟩, suitable, held, held⟩
      · have heldBefore := before part inParts
        have suitablePart := keeps.inner sound suitable part inParts heldBefore
        exact (inductionHypothesis part inParts (sound.inner inParts) suitablePart
          (by rw [Activity.inner_heap]; exact heldBefore) _).2 moment inside
      · exact ⟨⟨code, sound⟩, suitable, held, final⟩

end Keeps

end LoxLang
