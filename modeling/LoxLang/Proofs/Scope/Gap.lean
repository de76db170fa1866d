import LoxLang.Proofs.Scope.Lexical

/-!
A scope that declares nothing.  It can be left out from around a piece of code: every
reference finds its name in the same scope as before, which is one nearer if the empty
scope came first.
-/

namespace LoxLang

namespace Scope

/-- A distance when the scope at the gap is not counted. -/
def shift : Option Nat → Nat → Nat
  | none, distance => distance
  | some gap, distance => if gap < distance then distance - 1 else distance

@[simp]
theorem shift_none (distance : Nat) : shift none distance = distance := rfl

theorem shift_zero (gap : Option Nat) : shift gap 0 = 0 := by
  cases gap <;> simp [shift]

theorem shift_succ (gap : Option Nat) (distance : Nat) :
    shift (gap.map (· + 1)) (distance + 1) = shift gap distance + 1 := by
  cases gap with
  | none => rfl
  | some gap =>
      simp only [Option.map_some, shift]
      split <;> split <;> omega

/-- The distance without the empty scope, and that it never leads to the empty scope. -/
theorem findIdx?_leaving {inner outer : List Region} {gap : Region} (text : Bytes)
    (empty : ¬ gap.Holds text) :
    ((inner ++ outer).findIdx? fun region => region.Holds text) =
        ((inner ++ gap :: outer).findIdx? fun region => region.Holds text).map
          (shift (some inner.length)) ∧
      ((inner ++ gap :: outer).findIdx? fun region => region.Holds text) ≠ some inner.length := by
  rw [List.findIdx?_append, List.findIdx?_append, List.findIdx?_cons,
    if_neg (by simpa using empty)]
  cases nearer : inner.findIdx? fun region => region.Holds text with
  | some distance =>
      have inside := (List.findIdx?_eq_some_iff_getElem.mp nearer).1
      simp only [Option.some_or, Option.map_some, shift, ne_eq, Option.some.injEq]
      rw [if_neg (Nat.lt_asymm inside)]
      exact ⟨rfl, Nat.ne_of_lt inside⟩
  | none =>
      cases outer.findIdx? fun region => region.Holds text with
      | none => simp
      | some distance =>
          simp only [Option.none_or, Option.map_some, shift, ne_eq, Option.some.injEq]
          rw [if_pos (by omega)]
          exact ⟨by omega, by omega⟩

theorem classAround_leaving (inner outer : List Region) :
    classAround (inner ++ .block [] :: outer) = classAround (inner ++ outer) := by
  induction inner with
  | nil => rfl
  | cons region rest inductionHypothesis =>
      simp only [List.cons_append, classAround, inductionHypothesis]

/-- The record of a reference without the empty scope. -/
theorem Site.record?_leaving (reference : Reference) (inner outer : List Region) :
    Site.record? ⟨reference, inner ++ outer⟩ =
        (Site.record? ⟨reference, inner ++ .block [] :: outer⟩).map (shift (some inner.length)) ∧
      Site.record? ⟨reference, inner ++ .block [] :: outer⟩ ≠ some inner.length := by
  have empty : ¬ (Region.block []).Holds reference.name.text := by
    simp [Region.Holds, Region.block]
  simp only [Site.record?, classAround_leaving]
  split
  · simp
  · exact findIdx?_leaving reference.name.text empty

@[simp]
theorem length_declared (names : List Bytes) (around : List Region) :
    (declared names around).length = around.length := by
  cases around <;> rfl

@[simp]
theorem length_declaring (name : Bytes) (around : List Region) :
    (declaring name around).length = around.length := by
  cases around <;> rfl

theorem declared_append {inner : List Region} {names : List Bytes} (outer : List Region)
    (quiet : inner = [] → names = []) :
    declared names (inner ++ outer) = declared names inner ++ outer := by
  cases inner with
  | nil =>
      rw [quiet rfl]
      simp
  | cons region rest => rfl

theorem declared_eq_nil {inner : List Region} {names : List Bytes} :
    declared names inner = [] ↔ inner = [] := by
  cases inner <;> simp [declared]

/-- Without the empty scope, the reference stands at one of these sites. -/
def Site.Leaves (site : Site) (outer : List Region) (others : List Site) : Prop :=
  ∃ inner, site.regions = inner ++ .block [] :: outer ∧ ⟨site.reference, inner ++ outer⟩ ∈ others

theorem Site.Leaves.imp {site : Site} {outer : List Region} {sites others : List Site}
    (leaves : site.Leaves outer sites) (subset : sites ⊆ others) : site.Leaves outer others := by
  obtain ⟨inner, regions, member⟩ := leaves
  exact ⟨inner, regions, subset member⟩

theorem leaves_of_mem_sitesAt (inner : List Region) {outer : List Region}
    {references : List Reference} :
    ∀ site ∈ sitesAt (inner ++ .block [] :: outer) references,
      site.Leaves outer (sitesAt (inner ++ outer) references) := by
  intro site member
  obtain ⟨reference, listed, rfl⟩ := List.mem_map.mp member
  exact ⟨inner, rfl, List.mem_map_of_mem listed⟩

/-- A declaration around a place leaves the scopes further out as they are. -/
theorem leaves_of_mem_declaring {inner outer : List Region} {name : Bytes}
    {references : List Reference} (inside : inner ≠ []) :
    ∀ site ∈ sitesAt (declaring name (inner ++ .block [] :: outer)) references,
      site.Leaves outer (sitesAt (declaring name (inner ++ outer)) references) := by
  cases inner with
  | nil => exact absurd rfl inside
  | cons region rest => exact leaves_of_mem_sitesAt ({ region with pending := [name] } :: rest)

/-- How a copy of some code differs from it: the identities of its references, and the
number of scopes outside the one that the copy does without, if there is one. -/
structure Passage where
  ids : RefId → RefId
  height : Option Nat

namespace Passage

variable {passage : Passage} {around : List Region}

/-- How far out the scope is that the copy does without. -/
def gap (passage : Passage) (around : List Region) : Option Nat :=
  passage.height.map fun height => around.length - 1 - height

/-- The scope that the copy does without is among these. -/
def Reaches (passage : Passage) (around : List Region) : Prop :=
  ∀ height, passage.height = some height → height < around.length

/-- The copy of a reference is recorded at the same scope, which is never the one that the
copy does without. -/
structure Links (passage : Passage) (table other : Resolution) (site : Site) : Prop where
  record : other[passage.ids site.reference.id]? =
    table[site.reference.id]?.map (shift (passage.gap site.regions))
  apart : ∀ distance, table[site.reference.id]? = some distance →
    passage.gap site.regions ≠ some distance

theorem Reaches.cons (reaches : passage.Reaches around) (region : Region) :
    passage.Reaches (region :: around) :=
  fun height given => Nat.lt_succ_of_lt (reaches height given)

theorem gap_cons (reaches : passage.Reaches around) (region : Region) :
    passage.gap (region :: around) = (passage.gap around).map (· + 1) := by
  unfold gap
  cases given : passage.height with
  | none => rfl
  | some height =>
      have inside := reaches height given
      simp only [Option.map_some, List.length_cons, Option.some.injEq]
      omega

@[simp]
theorem gap_declared (passage : Passage) (names : List Bytes) (around : List Region) :
    passage.gap (declared names around) = passage.gap around := by
  simp [gap]

@[simp]
theorem gap_declaring (passage : Passage) (name : Bytes) (around : List Region) :
    passage.gap (declaring name around) = passage.gap around := by
  simp [gap]

theorem Reaches.declared (reaches : passage.Reaches around) (names : List Bytes) :
    passage.Reaches (declared names around) := by
  simpa [Reaches] using reaches

end Passage

end Scope

open Scope

mutual

/-- Code that declares nothing in the empty scope can do without it. -/
theorem Stmt.leaves_of_mem_sites {outer : List Region} :
    ∀ (statement : Stmt) (inner : List Region), (inner = [] → statement.declares = []) →
      ∀ site ∈ statement.sites (inner ++ .block [] :: outer),
        site.Leaves outer (statement.sites (inner ++ outer))
  | .expression _ _, _, _ => leaves_of_mem_sitesAt _
  | .print _, _, _ => leaves_of_mem_sitesAt _
  | .declare _ _, _, quiet =>
      leaves_of_mem_declaring fun outermost => absurd (quiet outermost) (by simp [Stmt.declares])
  | .block body, inner, _ =>
      Stmt.leaves_of_mem_sitesAll body (.block body :: inner) (by simp)
  | .branch _ consequence none, _, quiet => by
      intro site member
      rcases List.mem_append.mp member with inCondition | inConsequence
      · exact (leaves_of_mem_sitesAt _ site inCondition).imp (List.subset_append_left _ _)
      · exact (consequence.leaves_of_mem_sites _ quiet site inConsequence).imp
          (List.subset_append_right _ _)
  | .branch _ consequence (some alternative), inner, quiet => by
      have quietThen : inner = [] → consequence.declares = [] := fun outermost =>
        (List.append_eq_nil_iff.mp (quiet outermost)).1
      have quietElse : declared consequence.declares inner = [] → alternative.declares = [] :=
        fun outermost => (List.append_eq_nil_iff.mp (quiet (declared_eq_nil.mp outermost))).2
      intro site member
      simp only [Stmt.sites, declared_append _ quietThen, List.mem_append] at member ⊢
      rcases member with (inCondition | inConsequence) | inAlternative
      · exact (leaves_of_mem_sitesAt _ site inCondition).imp
          (List.Subset.trans (List.subset_append_left _ _) (List.subset_append_left _ _))
      · exact (consequence.leaves_of_mem_sites _ quietThen site inConsequence).imp
          (List.Subset.trans (List.subset_append_right _ _) (List.subset_append_left _ _))
      · exact (alternative.leaves_of_mem_sites _ quietElse site inAlternative).imp
          (List.subset_append_right _ _)
  | .loop _ body, _, quiet => by
      intro site member
      rcases List.mem_append.mp member with inCondition | inBody
      · exact (leaves_of_mem_sitesAt _ site inCondition).imp (List.subset_append_left _ _)
      · exact (body.leaves_of_mem_sites _ quiet site inBody).imp (List.subset_append_right _ _)
  | .function declaration, inner, quiet => by
      have apart : inner = [] → [declaration.name.text] = [] := quiet
      simp only [Stmt.sites, declared_append _ apart]
      exact Function.leaves_of_mem_sites declaration _
  | .leave _ _, _, _ => leaves_of_mem_sitesAt _
  | .classDecl name none methods, inner, quiet => by
      have apart : inner = [] → [name.text] = [] := quiet
      simp only [Stmt.sites, declared_append _ apart]
      exact Function.leaves_of_mem_sitesAll methods
        (.receiver false :: declared [name.text] inner)
  | .classDecl name (some (_, _)) methods, inner, quiet => by
      have apart : inner = [] → [name.text] = [] := quiet
      intro site member
      simp only [Stmt.sites, declared_append _ apart] at member ⊢
      rcases List.mem_append.mp member with inSuperclass | inMethods
      · exact (leaves_of_mem_declaring (fun outermost => absurd (apart outermost) (by simp)) site
          inSuperclass).imp (List.subset_append_left _ _)
      · exact (Function.leaves_of_mem_sitesAll methods
          (.receiver true :: .superclass :: declared [name.text] inner) site
          inMethods).imp (List.subset_append_right _ _)

theorem Stmt.leaves_of_mem_sitesAll {outer : List Region} :
    ∀ (statements : List Stmt) (inner : List Region),
      (inner = [] → Stmt.declaresAll statements = []) →
      ∀ site ∈ Stmt.sitesAll (inner ++ .block [] :: outer) statements,
        site.Leaves outer (Stmt.sitesAll (inner ++ outer) statements)
  | [], _, _ => by simp [Stmt.sitesAll]
  | first :: rest, inner, quiet => by
      have quietFirst : inner = [] → first.declares = [] := fun outermost =>
        (List.append_eq_nil_iff.mp (quiet outermost)).1
      have quietRest : declared first.declares inner = [] → Stmt.declaresAll rest = [] :=
        fun outermost => (List.append_eq_nil_iff.mp (quiet (declared_eq_nil.mp outermost))).2
      intro site member
      simp only [Stmt.sitesAll, declared_append _ quietFirst] at member ⊢
      rcases List.mem_append.mp member with inFirst | inRest
      · exact (first.leaves_of_mem_sites _ quietFirst site inFirst).imp
          (List.subset_append_left _ _)
      · exact (Stmt.leaves_of_mem_sitesAll rest _ quietRest site inRest).imp
          (List.subset_append_right _ _)

theorem Function.leaves_of_mem_sites {outer : List Region} :
    ∀ (function : Function) (inner : List Region),
      ∀ site ∈ function.sites (inner ++ .block [] :: outer),
        site.Leaves outer (function.sites (inner ++ outer))
  | .mk _ parameters body, inner =>
      Stmt.leaves_of_mem_sitesAll body (.function parameters body :: inner) (by simp)

theorem Function.leaves_of_mem_sitesAll {outer : List Region} :
    ∀ (functions : List Function) (inner : List Region),
      ∀ site ∈ Function.sitesAll (inner ++ .block [] :: outer) functions,
        site.Leaves outer (Function.sitesAll (inner ++ outer) functions)
  | [], _ => by simp [Function.sitesAll]
  | first :: rest, _ => by
      intro site member
      rcases List.mem_append.mp member with inFirst | inRest
      · exact (first.leaves_of_mem_sites _ site inFirst).imp (List.subset_append_left _ _)
      · exact (Function.leaves_of_mem_sitesAll rest _ site inRest).imp
          (List.subset_append_right _ _)

end

end LoxLang
