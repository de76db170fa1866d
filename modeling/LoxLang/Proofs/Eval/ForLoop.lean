import LoxLang.Proofs.Eval.Resembles
import LoxLang.Proofs.Program.ForLoop

/-!
A `for` statement carried out as it is written, and the tree that it is read as along it.
A round of the tree executes the body and the increment in a frame of their own.  This
frame binds nothing, so it is hidden, and everything else is done alike.
-/

namespace LoxLang

open Scope

open Scene (Leads)

namespace ForLoop

section Rule

variable (access : Access) (fuel : Nat) (loop : ForLoop)

/-- Whether the condition holds.  Without a condition it does. -/
def holds : Eval Bool :=
  match loop.condition with
  | some condition => return (← Eval.evaluate access fuel condition).isTruthy
  | none => return true

def advance : Eval Unit :=
  match loop.increment with
  | some increment => do let _ ← Eval.evaluate access fuel increment
  | none => return ()

/-- The body, and the increment unless the body returns. -/
def pass : Eval Completion := do
  match ← Eval.execute access fuel loop.body with
  | .normal =>
      loop.advance access fuel
      return .normal
  | .returned value => return .returned value

end Rule

/-- Rounds as long as the condition holds, up to a return. -/
def rounds (access : Access) (loop : ForLoop) : Nat → Eval Completion
  | 0 => throw .outOfFuel
  | fuel + 1 => do
      if ← loop.holds access fuel then
        match ← loop.pass access fuel with
        | .normal => loop.rounds access fuel
        | .returned value => return .returned value
      else
        return .normal

/-- The initializer has a scope for the whole statement and is executed once. -/
def run (access : Access) (fuel : Nat) (loop : ForLoop) : Eval Completion :=
  match loop.initial with
  | none => loop.rounds access fuel
  | some initial => do
      let frame ← Eval.newFrame (← get).active []
      Eval.within frame do
        match ← Eval.execute access fuel initial with
        | .normal => loop.rounds access fuel
        | .returned value => return .returned value

/-- The tree is not an expression statement, so no session shows its value. -/
theorem executeTopLevel_lowered (loop : ForLoop) (access : Access) (fuel : Nat)
    (interactive : Bool) :
    Eval.executeTopLevel access fuel interactive loop.lowered =
      (do let _ ← Eval.execute access fuel loop.lowered) := by
  rw [lowered_eq]
  cases loop.initial <;> rfl

/-- The tree is recorded in one table, and the statement as it is written, with other
identities, in another. -/
structure IsCopied (loop : ForLoop) (around : List Region) (table : Resolution)
    (ids : RefId → RefId) (other : Resolution) : Prop where
  lowered : ∀ site ∈ loop.lowered.sites around, table[site.reference.id]? = site.record?
  written : ∀ site ∈ loop.sites around, other[ids site.reference.id]? = site.record?

end ForLoop

namespace Scope.Passage

variable {table other : Resolution} {ids : RefId → RefId} {site : Site}

theorem links_of_recorded (recorded : table[site.reference.id]? = site.record?)
    (copied : other[ids site.reference.id]? = site.record?) :
    Links ⟨ids, none⟩ table other site where
  record := by
    change _ = table[site.reference.id]?.map id
    rw [copied, recorded, Option.map_id_fun, id]
  apart _ _ := by simp [gap]

/-- The copy of a reference that leaves the empty scope. -/
theorem links_of_leaves {outer : List Region} {others : List Site}
    (recorded : table[site.reference.id]? = site.record?) (leaves : site.Leaves outer others)
    (copied : ∀ other' ∈ others, other[ids other'.reference.id]? = other'.record?) :
    Links ⟨ids, some outer.length⟩ table other site := by
  obtain ⟨reference, regions⟩ := site
  obtain ⟨inner, rfl, member⟩ := leaves
  obtain ⟨record, apart⟩ := Site.record?_leaving reference inner outer
  have gap : gap ⟨ids, some outer.length⟩ (inner ++ .block [] :: outer) = some inner.length := by
    simp only [Passage.gap, Option.map_some, List.length_append, List.length_cons,
      Option.some.injEq]
    omega
  refine ⟨?_, fun distance found => ?_⟩
  · rw [gap, recorded, copied _ member]
    exact record
  · rw [gap]
    rintro here
    rw [recorded, ← here] at found
    exact apart found

theorem Copies.ofRecorded {around : List Region} {statement : Stmt}
    (links : ∀ site ∈ statement.sites around, Links ⟨ids, none⟩ table other site) :
    Copies ⟨ids, none⟩ table other around statement :=
  ⟨fun _ given => absurd given.symm (Option.some_ne_none _),
    fun here => absurd here.symm (Option.some_ne_none _), links⟩

end Scope.Passage

/-- There is a table for places with distinct references that agrees with another one
elsewhere. -/
theorem Scope.exists_resolution (table : Resolution) (ids : RefId → RefId) (sites : List Site)
    (distinct : (sites.map fun site => ids site.reference.id).Nodup) :
    ∃ other : Resolution,
      (∀ site ∈ sites, other[ids site.reference.id]? = site.record?) ∧
        ∀ id ∉ sites.map fun site => ids site.reference.id, other[id]? = table[id]? := by
  induction sites with
  | nil => exact ⟨table, by simp, by simp⟩
  | cons site rest inductionHypothesis =>
      obtain ⟨apart, distinct⟩ := List.nodup_cons.mp distinct
      obtain ⟨other, recorded, kept⟩ := inductionHypothesis distinct
      refine ⟨other.alter (ids site.reference.id) fun _ => site.record?, ?_, ?_⟩
      · intro place member
        rw [Std.HashMap.getElem?_alter]
        rcases List.mem_cons.mp member with rfl | inRest
        · simp
        · have other : ids site.reference.id ≠ ids place.reference.id := by
            exact fun same => apart (List.mem_map.mpr ⟨place, inRest, same.symm⟩)
          simpa [other] using recorded place inRest
      · intro id absent
        rw [List.map_cons, List.mem_cons, not_or] at absent
        rw [Std.HashMap.getElem?_alter, if_neg (by simpa using Ne.symm absent.1)]
        exact kept id absent.2

/-- The statement can be recorded as it is written beside any other references. -/
theorem ForLoop.exists_isCopied {loop : ForLoop} {around : List Region} {table : Resolution}
    (distinct : ((loop.lowered.sites around).map fun site => site.reference.id).Nodup)
    (lowered : ∀ site ∈ loop.lowered.sites around, table[site.reference.id]? = site.record?)
    (others : List Reference) :
    ∃ ids other, loop.IsCopied around table ids other ∧ AgreeOn table other others := by
  obtain ⟨bound, bounded⟩ : ∃ bound, ∀ reference ∈ others, reference.id < bound := by
    induction others with
    | nil => exact ⟨0, by simp⟩
    | cons first rest inductionHypothesis =>
        obtain ⟨bound, bounded⟩ := inductionHypothesis
        refine ⟨max bound (first.id + 1), List.forall_mem_cons.mpr ⟨Nat.le_max_right _ _, ?_⟩⟩
        exact fun reference member =>
          Nat.lt_of_lt_of_le (bounded reference member) (Nat.le_max_left _ _)
  have fresh : ((loop.sites around).map fun site => bound + site.reference.id).Nodup := by
    have same := congrArg (List.map fun reference => bound + reference.id)
      (loop.map_reference_sites around)
    rw [List.map_map, List.map_map] at same
    have further : (((loop.lowered.sites around).map fun site => site.reference.id).map
        (bound + ·)).Nodup :=
      List.Pairwise.map _ (fun _ _ apart same => apart (Nat.add_left_cancel same)) distinct
    rw [List.map_map] at further
    exact same ▸ further
  obtain ⟨other, written, kept⟩ := exists_resolution table (bound + ·) (loop.sites around) fresh
  refine ⟨(bound + ·), other, ⟨lowered, written⟩, fun reference member => kept _ ?_⟩
  intro again
  obtain ⟨site, -, same⟩ := List.mem_map.mp again
  have below := bounded reference member
  rw [← same] at below
  exact absurd below (Nat.not_lt.mpr (Nat.le_add_right _ _))

namespace ForLoop.IsCopied

variable {loop : ForLoop} {around : List Region} {table other : Resolution}
  {ids : RefId → RefId}

theorem initial (copied : loop.IsCopied around table ids other) {initial : Stmt}
    (given : loop.initial = some initial) :
    Passage.Copies ⟨ids, none⟩ table other (.block [initial] :: around) initial := by
  refine .ofRecorded fun site member => ?_
  have here : site ∈ loop.initialSites around := by
    rw [initialSites, given]
    exact member
  refine Passage.links_of_recorded (copied.lowered site ?_) (copied.written site ?_)
  · rw [sites_lowered]
    exact List.mem_append_left _ here
  · exact List.mem_append_left _ here

theorem condition (copied : loop.IsCopied around table ids other) :
    Passage.LinksAt ⟨ids, none⟩ table other (loop.scopes around)
      (Expr.referencesOption loop.condition) := by
  intro site member
  refine Passage.links_of_recorded (copied.lowered site ?_) (copied.written site ?_)
  · rw [sites_lowered]
    exact List.mem_append_right _ (List.mem_append_left _ member)
  · exact List.mem_append_right _ (List.mem_append_left _ member)

/-- The references of a round are recorded, and so are those of the body and the increment
in their copy. -/
theorem round (copied : loop.IsCopied around table ids other) :
    (∀ site ∈ loop.round.sites (loop.scopes around),
        table[site.reference.id]? = site.record?) ∧
      (∀ site ∈ loop.body.sites (loop.scopes around),
        other[ids site.reference.id]? = site.record?) ∧
      ∀ site ∈ sitesAt (loop.scopes around) (Expr.referencesOption loop.increment),
        other[ids site.reference.id]? = site.record? := by
  refine ⟨fun site member => copied.lowered site ?_, fun site member => copied.written site ?_,
    fun site member => copied.written site ?_⟩
  · rw [sites_lowered]
    exact List.mem_append_right _ (List.mem_append_right _ member)
  · exact List.mem_append_right _ (List.mem_append_right _ (List.mem_append_left _ member))
  · exact List.mem_append_right _ (List.mem_append_right _ (List.mem_append_right _ member))

/-- Without an increment the body stands where it is written. -/
theorem body (copied : loop.IsCopied around table ids other) (absent : loop.increment = none) :
    Passage.Copies ⟨ids, none⟩ table other (loop.scopes around) loop.body := by
  obtain ⟨lowered, written, -⟩ := copied.round
  rw [sites_round, absent] at lowered
  exact .ofRecorded fun site member =>
    Passage.links_of_recorded (lowered site member) (written site member)

/-- The body and the increment stand in a block of their own. -/
theorem inside (copied : loop.IsCopied around table ids other) {increment : Expr}
    (given : loop.increment = some increment) :
    let passage : Passage := ⟨ids, some (loop.scopes around).length⟩
    passage.gap (.block [] :: loop.scopes around) = some 0 ∧
      passage.Copies table other (.block [] :: loop.scopes around) loop.body ∧
        passage.LinksAt table other (.block [] :: loop.scopes around) increment.references := by
  intro passage
  obtain ⟨lowered, written, writtenIncrement⟩ := copied.round
  rw [sites_round, given] at lowered
  rw [given] at writtenIncrement
  refine ⟨by simp [passage, Passage.gap], ⟨?_, fun _ => loop.quiet, ?_⟩, ?_⟩
  · rintro height ⟨⟩
    exact Nat.lt_succ_self _
  · intro site member
    exact Passage.links_of_leaves (lowered site (List.mem_append_left _ member))
      (loop.body.leaves_of_mem_sites [] (fun _ => loop.quiet) site member) written
  · intro site member
    exact Passage.links_of_leaves (lowered site (List.mem_append_right _ member))
      (leaves_of_mem_sitesAt [] site member) writtenIncrement

end ForLoop.IsCopied

namespace Scene

variable {table other : Resolution}

/-- The scene with another frame active above, and the same below. -/
def raise (scene : Scene) (frame : FrameId) : Scene :=
  ⟨scene.projection, { scene.upper with active := frame }, scene.lower⟩

/-- The scene inside a hidden frame. -/
def hideFrame (scene : Scene) : Scene :=
  (scene.withHeaps (scene.overlay.hideFrame scene.upper.active)).raise
    scene.upper.heap.frames.size

variable {scene : Scene}

theorem Corresponds.hideFrame (same : scene.Corresponds table other) :
    scene.hideFrame.Corresponds table other where
  heaps := same.heaps.hideFrame same.within
  active := same.active.trans (if_pos rfl).symm
  within := Nat.lt_of_lt_of_eq (Nat.lt_succ_self _) (Array.size_push ..).symm
  depth := same.depth
  input := same.input
  printed := same.printed
  clock := same.clock
  ticks := same.ticks

theorem Hides.hideFrame (hides : scene.Hides none) : scene.hideFrame.Hides (some 0) :=
  @Overlay.Corresponds.hides_hideFrame scene.overlay scene.upper.active hides

/-- Out of a hidden frame again. -/
theorem Leads.raise {after : Scene} (same : scene.Corresponds table other)
    (leads : Leads table other scene.hideFrame after) :
    Leads table other scene (after.raise scene.upper.active) := by
  have grows : Overlay.Grows scene.overlay after.overlay :=
    (Overlay.Corresponds.grows_hideFrame scene.overlay scene.upper.active).trans leads.grows
  have active : after.lower.active = scene.hideFrame.projection.image after.upper.active := by
    rw [leads.same.active, leads.active]
    exact leads.grows.projection.image _ same.hideFrame.within
  refine ⟨⟨leads.same.heaps, ?_, Nat.lt_of_lt_of_le same.within grows.frames, leads.same.depth,
    leads.same.input, leads.same.printed, leads.same.clock, leads.same.ticks⟩, rfl, grows⟩
  have kept : after.projection.image scene.upper.active =
      scene.projection.image scene.upper.active :=
    grows.projection.image _ same.within
  change after.lower.active = after.projection.image scene.upper.active
  rw [active, leads.active, kept]
  exact if_pos rfl

end Scene

namespace Retraces

variable {table other : Resolution} {before : Scene}

/-- How something ends that goes back to a frame in the end. -/
def backIn {α : Type} (frame : FrameId) :
    EStateM.Result Stop Machine α → EStateM.Result Stop Machine α
  | .ok value after => .ok value { after with active := frame }
  | .error stop after => .error stop { after with active := frame }

/-- Something done in a new frame above and right away below. -/
theorem hidden {α : Type} {action image : Eval α} {post : Scene → α → Prop}
    (same : before.Corresponds table other)
    (inside : Retraces table other before.hideFrame action image
      fun after value => post (after.raise before.upper.active) value) :
    Retraces table other before
      (do
        let frame ← Eval.newFrame (← MonadState.get).active []
        Eval.within frame action)
      image post := by
  unfold Retraces at inside ⊢
  simp only [Bind.bind, EStateM.bind, Eval.get_apply, Eval.newFrame_apply, Eval.within]
  change EndsRetraced table other before post
    (backIn before.upper.active (action before.hideFrame.upper)) (image before.hideFrame.lower)
  generalize action before.hideFrame.upper = result at inside ⊢
  generalize image before.hideFrame.lower = imageResult at inside ⊢
  cases inside with
  | ok after leads holds => exact .ok (after.raise _) (leads.raise same) holds
  | fault after leads => exact .fault (after.raise _) (leads.raise same)
  | unfinished stops => exact .unfinished stops

/-- A list of one statement does what the statement does. -/
theorem single {access : Access} {fuel : Nat} {statement : Stmt} {image : Eval Completion}
    {post : Scene → Completion → Prop}
    (retraces : ∀ smaller < fuel, Retraces table other before
      (Eval.execute access smaller statement) image post) :
    Retraces table other before (Eval.executeAll access fuel [statement]) image post := by
  cases fuel with
  | zero => exact Retraces.outOfFuel
  | succ fuel =>
      rw [← bind_pure image]
      simp only [Eval.executeAll]
      apply Retraces.bind (retraces fuel (Nat.lt_succ_self fuel))
      intro after completion leads holds
      cases completion with
      | returned value => exact Retraces.pure leads.same holds
      | normal =>
          cases fuel with
          | zero => exact Retraces.outOfFuel
          | succ fuel => exact Retraces.pure leads.same holds

end Retraces

namespace ForLoop

variable {loop : ForLoop} {around : List Region} {table other : Resolution}
  {ids : RefId → RefId} {before : Scene}

/-- What a round of the tree tests is the condition. -/
theorem retraces_holds (copied : loop.IsCopied around table ids other) {fuel bound : Nat}
    (room : fuel ≤ bound) (same : before.Corresponds table other) (hides : before.Hides none)
    {α : Type} {go stay imageGo imageStay : Eval α} {post : Scene → α → Prop}
    (goes : ∀ between, Leads table other before between →
      Retraces table other between go imageGo post)
    (stays : ∀ between, Leads table other before between →
      Retraces table other between stay imageStay post) :
    Retraces table other before
      (do if (← Eval.evaluate ⟨table, .recorded⟩ fuel loop.test).isTruthy then go else stay)
      (do if ← (loop.renumber ids).holds ⟨other, .recorded⟩ bound then imageGo else imageStay)
      post := by
  have links := copied.condition
  unfold test holds renumber
  cases given : loop.condition with
  | none =>
      cases fuel with
      | zero => exact Retraces.outOfFuel
      | succ fuel => exact goes before (.refl same)
  | some condition =>
      rw [given] at links
      have hidesHere : before.Hides (Passage.gap ⟨ids, none⟩ (loop.scopes around)) := hides
      simp only [Option.getD_some, Option.map_some, bind_assoc, pure_bind]
      apply Retraces.bind ((RunsCopied.all table other room).evaluate same hidesHere links)
      intro between value leads _
      split
      · exact goes between leads
      · exact stays between leads

/-- The body and the increment in the frame that only the tree makes. -/
theorem retraces_inside (copied : loop.IsCopied around table ids other) {increment : Expr}
    (given : loop.increment = some increment) {fuel bound : Nat} (room : fuel ≤ bound)
    (same : before.Corresponds table other) (hides : before.Hides (some 0)) :
    Retraces table other before
      (Eval.executeAll ⟨table, .recorded⟩ fuel [loop.body, .expression increment false])
      ((loop.renumber ids).pass ⟨other, .recorded⟩ bound) (ReturnsCopy table other) := by
  obtain ⟨here, copies, links⟩ := copied.inside given
  rw [← here] at hides
  have runs {smaller : Nat} (less : smaller < fuel) : RunsCopied table other smaller bound :=
    .all table other (Nat.le_trans (Nat.le_of_lt less) room)
  cases fuel with
  | zero => exact Retraces.outOfFuel
  | succ fuel =>
      unfold pass advance renumber
      simp only [Eval.executeAll, given, Option.map_some, bind_assoc, pure_bind]
      apply Retraces.bind ((runs (Nat.lt_succ_self fuel)).execute same hides copies)
      intro between completion leads returned
      cases completion with
      | returned value => exact Retraces.pure leads.same returned
      | normal =>
          apply Retraces.single
          intro smaller less
          cases smaller with
          | zero => exact Retraces.outOfFuel
          | succ smaller =>
              have runs := runs (Nat.lt_trans (Nat.lt_of_succ_lt less) (Nat.lt_succ_self fuel))
              simp only [Eval.execute]
              apply Retraces.bind (runs.evaluate leads.same (leads.hides hides) links)
              intro after _ further _
              exact Retraces.pure further.same .normal

/-- A round of the tree executes the body and the increment. -/
theorem retraces_pass (copied : loop.IsCopied around table ids other) {fuel bound : Nat}
    (room : fuel ≤ bound) (same : before.Corresponds table other) (hides : before.Hides none) :
    Retraces table other before (Eval.execute ⟨table, .recorded⟩ fuel loop.round)
      ((loop.renumber ids).pass ⟨other, .recorded⟩ bound) (ReturnsCopy table other) := by
  cases given : loop.increment with
  | none =>
      have hidesHere : before.Hides (Passage.gap ⟨ids, none⟩ (loop.scopes around)) := hides
      have runs := RunsCopied.all table other room
      rw [← bind_pure (Eval.execute _ fuel _)]
      unfold pass advance
      simp only [round, renumber, given, Option.map_none, pure_bind]
      apply Retraces.bind (runs.execute same hidesHere (copied.body given))
      intro after completion leads returned
      cases completion with
      | normal => exact Retraces.pure leads.same .normal
      | returned value => exact Retraces.pure leads.same returned
  | some increment =>
      cases fuel with
      | zero => exact Retraces.outOfFuel
      | succ fuel =>
          simp only [round, given, Eval.execute]
          exact Retraces.hidden same (retraces_inside copied given
            (Nat.le_trans (Nat.le_succ fuel) room) same.hideFrame hides.hideFrame)

theorem retraces_rounds (copied : loop.IsCopied around table ids other) {fuel bound : Nat}
    (room : fuel ≤ bound) (same : before.Corresponds table other) (hides : before.Hides none) :
    Retraces table other before (Eval.executeLoop ⟨table, .recorded⟩ fuel loop.test loop.round)
      ((loop.renumber ids).rounds ⟨other, .recorded⟩ bound) (ReturnsCopy table other) := by
  induction fuel generalizing bound before with
  | zero => exact Retraces.outOfFuel
  | succ fuel inductionHypothesis =>
      obtain ⟨bound, rfl⟩ := Nat.exists_eq_add_one_of_ne_zero (Nat.ne_zero_of_lt room)
      have room := Nat.le_of_succ_le_succ room
      simp only [Eval.executeLoop, rounds]
      apply retraces_holds copied room same hides
      · intro between leads
        apply Retraces.bind (retraces_pass copied room leads.same (leads.hides hides))
        intro after completion further returned
        cases completion with
        | normal =>
            exact inductionHypothesis room further.same (further.hides (leads.hides hides))
        | returned value => exact Retraces.pure further.same returned
      · intro after leads
        exact Retraces.pure leads.same .normal

/-- The tree is carried out as the statement is written. -/
theorem retraces_run (copied : loop.IsCopied around table ids other) {fuel bound : Nat}
    (room : fuel ≤ bound) (same : before.Corresponds table other) (hides : before.Hides none) :
    Retraces table other before (Eval.execute ⟨table, .recorded⟩ fuel loop.lowered)
      ((loop.renumber ids).run ⟨other, .recorded⟩ bound) (ReturnsCopy table other) := by
  have rounds {smaller : Nat} (less : smaller < fuel) {between : Scene}
      (same : between.Corresponds table other) (hides : between.Hides none) :
      Retraces table other between
        (Eval.execute ⟨table, .recorded⟩ smaller (.loop loop.test loop.round))
        ((loop.renumber ids).rounds ⟨other, .recorded⟩ bound) (ReturnsCopy table other) := by
    cases smaller with
    | zero => exact Retraces.outOfFuel
    | succ smaller =>
        simp only [Eval.execute]
        exact retraces_rounds copied (by omega) same hides
  rw [lowered_eq]
  unfold run
  have written : (loop.renumber ids).initial =
      loop.initial.map (Stmt.relabel (.renumber ids)) := rfl
  rw [written]
  cases given : loop.initial with
  | none =>
      cases fuel with
      | zero => exact Retraces.outOfFuel
      | succ fuel =>
          simp only [Eval.execute, Option.map_none]
          exact retraces_rounds copied (Nat.le_of_succ_le room) same hides
  | some initial =>
      cases fuel with
      | zero => exact Retraces.outOfFuel
      | succ fuel =>
          simp only [Eval.execute, Option.map_some]
          apply Retraces.get
          rw [same.active]
          apply Retraces.newFrame same hides (by simp [Bindings.get?])
          intro between frame leads inside
          apply Retraces.within leads.same
          have same := leads.same.enter inside.lt_size
          have hidesHere : (between.enter frame).Hides
              (Passage.gap ⟨ids, none⟩ (.block [initial] :: around)) := inside
          cases fuel with
          | zero => exact Retraces.outOfFuel
          | succ fuel =>
              have runs := RunsCopied.all table other
                (Nat.le_trans (Nat.le_add_right fuel 2) room)
              simp only [Eval.executeAll]
              apply Retraces.bind (runs.execute same hidesHere (copied.initial given))
              intro middle completion further returned
              cases completion with
              | returned value => exact Retraces.pure further.same returned
              | normal =>
                  apply Retraces.single
                  intro smaller less
                  exact rounds (Nat.lt_succ_of_lt (Nat.lt_succ_of_lt less)) further.same
                    (further.hides inside)

/-- Whatever the tree does, the statement does as it is written: it ends in the same way,
with the same effects, and nothing that runs afterwards tells them apart. -/
theorem endsAlike {machine : Machine} {code : Code} {layout : Layout}
    (conforms : Conforms code layout machine.heap)
    (within : machine.active < machine.heap.frames.size)
    (copied : loop.IsCopied around table ids other) {rest : List Stmt}
    (agree : AgreeOn table other (machine.heap.references ++ Stmt.referencesAll rest))
    {fuel bound : Nat} (room : fuel ≤ bound) :
    Eval.EndsAlike machine.heap (Eval.execute ⟨table, .recorded⟩ fuel loop.lowered machine)
        ((loop.renumber ids).run ⟨other, .recorded⟩ bound machine) ∧
      ∀ frame < machine.heap.frames.size, ∀ name later laterBound, later ≤ laterBound →
        Eval.EndsAlike machine.heap
          (Eval.followedBy (Eval.execute ⟨table, .recorded⟩ fuel loop.lowered) frame name
            (Eval.executeAll ⟨table, .recorded⟩ later rest) machine)
          (Eval.followedBy ((loop.renumber ids).run ⟨other, .recorded⟩ bound) frame name
            (Eval.executeAll ⟨other, .recorded⟩ laterBound rest) machine) := by
  have grounded := conforms.toIsGrounded
  have inHeap : AgreeOn table other machine.heap.references :=
    fun reference member => agree reference (List.mem_append_left _ member)
  have inRest : AgreeOn table other (Stmt.referencesAll rest) :=
    fun reference member => agree reference (List.mem_append_right _ member)
  have retraces := retraces_run copied room (.twice conforms within inHeap)
    (Scene.hides_twice grounded within)
  refine ⟨retraces.endsAlike within, ?_⟩
  intro frame present name later laterBound roomLater
  have followed := retraces.followedBy (Scene.hides_twice grounded present) name
    fun inside same hides => Retraces.executeAll same hides inRest roomLater
  exact EndsRetraced.endsAlike followed within

end ForLoop

end LoxLang
