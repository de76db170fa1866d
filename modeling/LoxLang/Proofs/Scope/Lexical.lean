import LoxLang.Proofs.Scope.Sites
import Mathlib.Data.List.Forall2

/-!
Resolution is lexical scoping.  The walk over the tree carries a stack of scopes
and changes it as it goes; here its outcome is read off the sites of the
program.  What a walk over a piece of the tree does is a relation between the
states before and after it, and this relation composes along the tree.
-/

namespace LoxLang

namespace Scope

/-- An open scope of the walk holds the names that the region holds. -/
def Shows (names : Names) (region : Region) : Prop :=
  ∀ text, (names.get? text).isSome ↔ region.Holds text

/-- An open scope of the walk agrees with a region between two statements,
where no declaration is under way. -/
def Mirrors (names : Names) (region : Region) : Prop :=
  region.pending = [] ∧
    ∀ text, names.get? text = if text ∈ region.complete then some true else none

/-- The open scopes of the walk hold what the regions hold, and the innermost
one marks as incomplete what is pending. -/
structure Reflects (scopes : List Names) (around : List Region) : Prop where
  shows : List.Forall₂ Shows scopes around
  marks : ∀ text, (∃ names ∈ scopes.head?, names.get? text = some false) ↔
    ∃ region ∈ around.head?, text ∈ region.pending

theorem Mirrors.shows {names : Names} {region : Region} (mirrors : Mirrors names region) :
    Shows names region := by
  intro text
  rw [mirrors.2 text, Region.Holds, mirrors.1]
  by_cases held : text ∈ region.complete <;> simp [held]

theorem Mirrors.reflects {scopes : List Names} {around : List Region}
    (mirrors : List.Forall₂ Mirrors scopes around) : Reflects scopes around where
  shows := mirrors.imp fun _ _ => Mirrors.shows
  marks text := by
    cases mirrors with
    | nil => simp
    | @cons names region _ _ first _ =>
        by_cases held : text ∈ region.complete <;> simp [first.1, first.2 text, held]

/-- Counting outward through the open scopes or through the regions is the
same. -/
theorem distance?_eq_findIdx? {scopes : List Names} {around : List Region} (text : Bytes)
    (shows : List.Forall₂ Shows scopes around) :
    distance? text scopes = around.findIdx? fun region => region.Holds text := by
  unfold distance?
  induction shows with
  | nil => rfl
  | @cons names region _ _ first _ inductionHypothesis =>
      have same : (names.get? text).isSome = decide (region.Holds text) := by
        rw [Bool.eq_iff_iff, decide_eq_true_iff]
        exact first text
      rw [List.findIdx?_cons, List.findIdx?_cons, same, inductionHypothesis]

@[simp]
theorem declared_nil (around : List Region) : declared [] around = around := by
  cases around <;> simp [declared]

theorem declared_declared (first second : List Bytes) (around : List Region) :
    declared second (declared first around) = declared (first ++ second) around := by
  cases around <;> simp [declared]

@[simp]
theorem classAround_declared (names : List Bytes) (around : List Region) :
    classAround (declared names around) = classAround around := by
  cases around <;> simp [declared, classAround]

@[simp]
theorem classAround_declaring (name : Bytes) (around : List Region) :
    classAround (declaring name around) = classAround around := by
  cases around <;> simp [declaring, classAround]

/-- What the rules ask of a reference before its names are looked up: it does not
read a name in that name's own declaration, and it is placed. -/
def Site.IsPermitted (site : Site) : Prop :=
  site.IsPlaced ∧
    (site.reference.form = .read →
      ∀ region ∈ site.regions.head?, site.reference.name.text ∉ region.pending)

/-- The effect of a walk over a piece of the tree with these sites: entries of
other references are kept, each reference that had no entry gets its own, and
the walk is silent only if every reference is permitted. -/
structure Resolves (sites : List Site) (before after : State) : Prop where
  kept : ∀ id, (∀ site ∈ sites, site.reference.id ≠ id) →
    after.table[id]? = before.table[id]?
  recorded : ∀ site ∈ sites, before.table[site.reference.id]? = none →
    after.table[site.reference.id]? = site.record?
  reported : before.errors <+: after.errors
  permitted : after.errors = before.errors → ∀ site ∈ sites, site.IsPermitted

/-- No two of the sites are of one reference. -/
def Distinct (sites : List Site) : Prop :=
  (sites.map (·.reference.id)).Nodup

theorem Distinct.append {first second : List Site} (distinct : Distinct (first ++ second)) :
    Distinct first ∧ Distinct second ∧
      ∀ left ∈ first, ∀ right ∈ second, left.reference.id ≠ right.reference.id := by
  unfold Distinct at distinct
  rw [List.map_append, List.nodup_append] at distinct
  refine ⟨distinct.1, distinct.2.1, ?_⟩
  intro left leftMember right rightMember
  exact distinct.2.2 _ (List.mem_map_of_mem leftMember) _ (List.mem_map_of_mem rightMember)

namespace Resolves

/-- A walk that meets no reference and keeps the table. -/
theorem ofTable {before after : State} (table : after.table = before.table)
    (reported : before.errors <+: after.errors) : Resolves [] before after where
  kept id _ := by rw [table]
  recorded := by simp
  reported := reported
  permitted := by simp

/-- Walks follow each other. -/
theorem append {first second : List Site} {before middle after : State}
    (left : Resolves first before middle) (right : Resolves second middle after)
    (apart : ∀ one ∈ first, ∀ other ∈ second, one.reference.id ≠ other.reference.id) :
    Resolves (first ++ second) before after where
  kept id absent := by
    have absentLeft : ∀ site ∈ first, site.reference.id ≠ id :=
      fun site member => absent site (List.mem_append_left _ member)
    have absentRight : ∀ site ∈ second, site.reference.id ≠ id :=
      fun site member => absent site (List.mem_append_right _ member)
    rw [right.kept id absentRight, left.kept id absentLeft]
  recorded site member fresh := by
    rcases List.mem_append.mp member with inFirst | inSecond
    · have later : ∀ other ∈ second, other.reference.id ≠ site.reference.id :=
        fun other otherMember => (apart site inFirst other otherMember).symm
      rw [right.kept _ later]
      exact left.recorded site inFirst fresh
    · have earlier : ∀ other ∈ first, other.reference.id ≠ site.reference.id :=
        fun other otherMember => apart other otherMember site inSecond
      apply right.recorded site inSecond
      rw [left.kept _ earlier]
      exact fresh
  reported := left.reported.trans right.reported
  permitted silent := by
    have silentLeft : middle.errors = before.errors :=
      (left.reported.eq_of_length_le (by
        rw [← silent]
        exact right.reported.length_le)).symm
    have silentRight : after.errors = middle.errors := silent.trans silentLeft.symm
    intro site member
    rcases List.mem_append.mp member with inFirst | inSecond
    · exact left.permitted silentLeft site inFirst
    · exact right.permitted silentRight site inSecond

/-- The order of a list of sites does not matter. -/
theorem ofMemIff {sites others : List Site} {before after : State}
    (resolves : Resolves sites before after) (same : ∀ site, site ∈ others ↔ site ∈ sites) :
    Resolves others before after where
  kept id absent := resolves.kept id fun site member => absent site ((same site).mpr member)
  recorded site member := resolves.recorded site ((same site).mp member)
  reported := resolves.reported
  permitted silent site member := resolves.permitted silent site ((same site).mp member)

/-- The stack of scopes is not part of a walk's effect. -/
theorem enter {sites : List Site} {before after : State} {names : Names}
    (resolves : Resolves sites before after) : Resolves sites before (after.enter names) :=
  { resolves with }

theorem leave {sites : List Site} {before after : State}
    (resolves : Resolves sites before after) : Resolves sites before after.leave :=
  { resolves with }

theorem within {sites : List Site} {before after : State} {names : Names}
    (resolves : Resolves sites (before.enter names) after) : Resolves sites before after.leave :=
  { resolves with }

end Resolves

namespace State

@[simp]
theorem report_scopes (state : State) (name : Name) (cause : Diagnostic.Cause) :
    (state.report name cause).scopes = state.scopes := rfl

@[simp]
theorem report_table (state : State) (name : Name) (cause : Diagnostic.Cause) :
    (state.report name cause).table = state.table := rfl

theorem report_errors_ne (state : State) (name : Name) (cause : Diagnostic.Cause) :
    (state.report name cause).errors ≠ state.errors := by
  simp [report]

theorem errors_prefix_report (state : State) (name : Name) (cause : Diagnostic.Cause) :
    state.errors <+: (state.report name cause).errors :=
  List.prefix_append _ _

@[simp]
theorem bind_scopes (state : State) (id : RefId) (text : Bytes) :
    (state.bind id text).scopes = state.scopes := by
  unfold bind
  split <;> rfl

@[simp]
theorem bind_errors (state : State) (id : RefId) (text : Bytes) :
    (state.bind id text).errors = state.errors := by
  unfold bind
  split <;> rfl

theorem bind_table_of_ne (state : State) {id other : RefId} (text : Bytes) (apart : id ≠ other) :
    (state.bind id text).table[other]? = state.table[other]? := by
  unfold bind
  split
  · simp [Std.HashMap.getElem?_insert, apart]
  · rfl

theorem bind_table_self (state : State) (id : RefId) (text : Bytes)
    (fresh : state.table[id]? = none) :
    (state.bind id text).table[id]? = distance? text state.scopes := by
  unfold bind
  split
  · next distance found => simp [found]
  · next absent => rw [fresh, absent]

@[simp]
theorem read_scopes (state : State) (id : RefId) (name : Name) :
    (state.read id name).scopes = state.scopes := by
  unfold read
  split <;> simp

theorem isIncomplete_iff (state : State) (text : Bytes) :
    state.isIncomplete text = true ↔
      ∃ names ∈ state.scopes.head?, names.get? text = some false := by
  unfold isIncomplete
  cases state.scopes <;> simp

end State

/-- Looking a reference up after a check that may report it. -/
theorem Resolves.bind {before checked : State} (reference : Reference) {around : List Region}
    (shows : List.Forall₂ Shows before.scopes around)
    (scopes : checked.scopes = before.scopes) (table : checked.table = before.table)
    (reported : before.errors <+: checked.errors)
    (looked : ¬ (reference.form = .self ∧ classAround around = .none))
    (permitted : checked.errors = before.errors → Site.IsPermitted ⟨reference, around⟩) :
    Resolves [⟨reference, around⟩] before
      (checked.bind reference.id reference.name.text) where
  kept id absent := by
    rw [State.bind_table_of_ne _ _ (absent _ (List.mem_singleton_self _)), table]
  recorded site member fresh := by
    obtain rfl := List.mem_singleton.mp member
    rw [State.bind_table_self _ _ _ (by rw [table]; exact fresh), scopes,
      Site.record?, if_neg looked]
    exact distance?_eq_findIdx? _ shows
  reported := by simpa using reported
  permitted silent site member := by
    obtain rfl := List.mem_singleton.mp member
    exact permitted (by simpa using silent)

/-- A variable read inside an expression. -/
theorem Resolves.read {state : State} {around : List Region} (id : RefId) (name : Name)
    (reflects : Reflects state.scopes around) :
    Resolves [⟨⟨.read, id, name⟩, around⟩] state (state.read id name) := by
  unfold State.read
  have permits (complete : ¬ state.isIncomplete name.text = true) :
      Site.IsPermitted ⟨⟨.read, id, name⟩, around⟩ := by
    refine ⟨trivial, fun _ region member pending => complete ?_⟩
    rw [State.isIncomplete_iff, reflects.marks]
    exact ⟨region, member, pending⟩
  by_cases incomplete : state.isIncomplete name.text = true
  · rw [if_pos incomplete]
    apply Resolves.bind ⟨.read, id, name⟩ reflects.shows (by simp) (by simp)
    · exact State.errors_prefix_report ..
    · simp
    · exact fun silent => absurd silent (State.report_errors_ne _ _ _)
  · rw [if_neg incomplete]
    exact Resolves.bind ⟨.read, id, name⟩ reflects.shows rfl rfl (List.prefix_refl _)
      (by simp) fun _ => permits incomplete

mutual

theorem resolveExpr_scopes (context : Context) :
    ∀ (value : Expr) (state : State), (resolveExpr context value state).scopes = state.scopes
  | .literal _, _ => rfl
  | .read _ _, state => state.read_scopes _ _
  | .assign _ _ value, state => by
      simp [resolveExpr, resolveExpr_scopes context value]
  | .unary _ _ operand, state => resolveExpr_scopes context operand state
  | .binary _ _ left right, state => by
      simp [resolveExpr, resolveExpr_scopes context left, resolveExpr_scopes context right]
  | .logical _ left right, state => by
      simp [resolveExpr, resolveExpr_scopes context left, resolveExpr_scopes context right]
  | .group inner, state => resolveExpr_scopes context inner state
  | .call callee arguments _, state => by
      simp [resolveExpr, resolveExpr_scopes context callee,
        resolveExprs_scopes context arguments]
  | .get object _, state => resolveExpr_scopes context object state
  | .set object _ value, state => by
      simp [resolveExpr, resolveExpr_scopes context object, resolveExpr_scopes context value]
  | .self _ _, state => by
      unfold resolveExpr
      split <;> simp
  | .superMethod _ _ _, state => by
      unfold resolveExpr
      cases context.inClass <;> simp

theorem resolveExprs_scopes (context : Context) :
    ∀ (values : List Expr) (state : State),
      (resolveExprs context values state).scopes = state.scopes
  | [], _ => rfl
  | first :: rest, state => by
      simp [resolveExprs, resolveExprs_scopes context rest, resolveExpr_scopes context first]

end

@[simp]
theorem sitesAt_append (around : List Region) (first second : List Reference) :
    sitesAt around (first ++ second) = sitesAt around first ++ sitesAt around second :=
  List.map_append

/-- One expression is visited after another. -/
theorem Resolves.followedBy {around : List Region} {first second : List Reference}
    {before middle after : State} (distinct : Distinct (sitesAt around (first ++ second)))
    (left : Distinct (sitesAt around first) → Resolves (sitesAt around first) before middle)
    (right : Distinct (sitesAt around second) → Resolves (sitesAt around second) middle after) :
    Resolves (sitesAt around (first ++ second)) before after := by
  rw [sitesAt_append] at distinct ⊢
  obtain ⟨leftDistinct, rightDistinct, apart⟩ := distinct.append
  exact (left leftDistinct).append (right rightDistinct) apart

theorem Reflects.afterExpr {state : State} {around : List Region} (context : Context)
    (value : Expr) (reflects : Reflects state.scopes around) :
    Reflects (resolveExpr context value state).scopes around := by
  rw [resolveExpr_scopes]
  exact reflects

mutual

theorem resolveExpr_resolves {context : Context} {around : List Region}
    (inside : context.inClass = classAround around) :
    ∀ (value : Expr) (state : State), Reflects state.scopes around →
      Distinct (sitesAt around value.references) →
        Resolves (sitesAt around value.references) state (resolveExpr context value state)
  | .literal _, _, _, _ => .ofTable rfl (List.prefix_refl _)
  | .read id name, _, reflects, _ => .read id name reflects
  | .assign id name value, state, reflects, distinct => by
      apply Resolves.followedBy distinct (resolveExpr_resolves inside value state reflects)
      intro _
      exact .bind ⟨.assign, id, name⟩ (reflects.afterExpr context value).shows rfl rfl
        (List.prefix_refl _) (by simp) fun _ => ⟨trivial, by simp⟩
  | .unary _ _ operand, state, reflects, distinct =>
      resolveExpr_resolves inside operand state reflects distinct
  | .binary _ _ left right, state, reflects, distinct =>
      .followedBy distinct (resolveExpr_resolves inside left state reflects)
        (resolveExpr_resolves inside right _ (reflects.afterExpr context left))
  | .logical _ left right, state, reflects, distinct =>
      .followedBy distinct (resolveExpr_resolves inside left state reflects)
        (resolveExpr_resolves inside right _ (reflects.afterExpr context left))
  | .group inner, state, reflects, distinct =>
      resolveExpr_resolves inside inner state reflects distinct
  | .call callee arguments _, state, reflects, distinct =>
      .followedBy distinct (resolveExpr_resolves inside callee state reflects)
        (resolveExprs_resolves inside arguments _ (reflects.afterExpr context callee))
  | .get object _, state, reflects, distinct =>
      resolveExpr_resolves inside object state reflects distinct
  | .set object _ value, state, reflects, distinct => by
      simp only [Expr.references, sitesAt_append] at distinct ⊢
      obtain ⟨objectDistinct, valueDistinct, apart⟩ := distinct.append
      -- The value is visited first, although its references come last.
      have first := resolveExpr_resolves inside value state reflects valueDistinct
      have second := resolveExpr_resolves inside object _ (reflects.afterExpr context value)
        objectDistinct
      have swapped : ∀ one ∈ sitesAt around value.references,
          ∀ other ∈ sitesAt around object.references, one.reference.id ≠ other.reference.id :=
        fun one oneMember other otherMember => (apart other otherMember one oneMember).symm
      exact (first.append second swapped).ofMemIff fun site => by
        rw [List.mem_append, List.mem_append, or_comm]
  | .self id line, state, reflects, _ => by
      change Resolves [⟨⟨.self, id, thisName line⟩, around⟩] _ _
      simp only [resolveExpr]
      by_cases outside : context.inClass = .none
      · rw [if_pos outside]
        rw [inside] at outside
        exact {
          kept := fun id _ => rfl
          recorded := by
            intro site member fresh
            obtain rfl := List.mem_singleton.mp member
            simpa [Site.record?, outside] using fresh
          reported := State.errors_prefix_report ..
          permitted := fun silent => absurd silent (State.report_errors_ne _ _ _) }
      · rw [if_neg outside]
        rw [inside] at outside
        exact .bind ⟨.self, id, thisName line⟩ reflects.shows rfl rfl (List.prefix_refl _)
          (by simp [outside]) fun _ => ⟨outside, by simp⟩
  | .superMethod id line _, state, reflects, _ => by
      change Resolves [⟨⟨.superclass, id, superName line⟩, around⟩] _ _
      simp only [resolveExpr]
      cases kind : context.inClass with
      | none =>
          refine .bind ⟨.superclass, id, superName line⟩ reflects.shows ?_ ?_ ?_ (by simp) ?_
          · rfl
          · rfl
          · exact State.errors_prefix_report ..
          · exact fun silent => absurd silent (State.report_errors_ne _ _ _)
      | plain =>
          refine .bind ⟨.superclass, id, superName line⟩ reflects.shows ?_ ?_ ?_ (by simp) ?_
          · rfl
          · rfl
          · exact State.errors_prefix_report ..
          · exact fun silent => absurd silent (State.report_errors_ne _ _ _)
      | subclass =>
          rw [inside] at kind
          exact .bind ⟨.superclass, id, superName line⟩ reflects.shows rfl rfl
            (List.prefix_refl _) (by simp) fun _ => ⟨kind, by simp⟩

theorem resolveExprs_resolves {context : Context} {around : List Region}
    (inside : context.inClass = classAround around) :
    ∀ (values : List Expr) (state : State), Reflects state.scopes around →
      Distinct (sitesAt around (Expr.referencesAll values)) →
        Resolves (sitesAt around (Expr.referencesAll values)) state
          (resolveExprs context values state)
  | [], _, _, _ => .ofTable rfl (List.prefix_refl _)
  | first :: rest, state, reflects, distinct =>
      .followedBy distinct (resolveExpr_resolves inside first state reflects)
        (resolveExprs_resolves inside rest _ (reflects.afterExpr context first))

end

theorem resolveOption_scopes (context : Context) (value : Option Expr) (state : State) :
    (resolveOption context value state).scopes = state.scopes := by
  cases value with
  | none => rfl
  | some value => exact resolveExpr_scopes context value state

theorem resolveOption_resolves {context : Context} {around : List Region}
    (inside : context.inClass = classAround around) (value : Option Expr) (state : State)
    (reflects : Reflects state.scopes around)
    (distinct : Distinct (sitesAt around (Expr.referencesOption value))) :
    Resolves (sitesAt around (Expr.referencesOption value)) state
      (resolveOption context value state) := by
  cases value with
  | none => exact .ofTable rfl (List.prefix_refl _)
  | some value => exact resolveExpr_resolves inside value state reflects distinct

namespace State

@[simp]
theorem put_table (state : State) (text : Bytes) (complete : Bool) :
    (state.put text complete).table = state.table := by
  unfold put
  split <;> rfl

@[simp]
theorem put_errors (state : State) (text : Bytes) (complete : Bool) :
    (state.put text complete).errors = state.errors := by
  unfold put
  split <;> rfl

@[simp]
theorem define_table (state : State) (name : Name) : (state.define name).table = state.table :=
  state.put_table _ _

@[simp]
theorem define_errors (state : State) (name : Name) :
    (state.define name).errors = state.errors :=
  state.put_errors _ _

@[simp]
theorem declare_table (state : State) (name : Name) :
    (state.declare name).table = state.table := by
  unfold declare
  split
  · rfl
  · simp only [put_table]
    split <;> rfl

theorem errors_prefix_declare (state : State) (name : Name) :
    state.errors <+: (state.declare name).errors := by
  unfold declare
  split
  · exact List.prefix_refl _
  · simp only [put_errors]
    split
    · exact state.errors_prefix_report name _
    · exact List.prefix_refl _

theorem put_scopes_cons (state : State) (text : Bytes) (complete : Bool) {names : Names}
    {outer : List Names} (scopes : state.scopes = names :: outer) :
    (state.put text complete).scopes = names.insert text complete :: outer := by
  simp [put, scopes]

theorem declare_scopes_cons (state : State) (name : Name) {names : Names}
    {outer : List Names} (scopes : state.scopes = names :: outer) :
    (state.declare name).scopes = names.insert name.text false :: outer := by
  simp only [declare, scopes]
  apply put_scopes_cons
  split
  · exact scopes
  · exact scopes

theorem declare_scopes_nil (state : State) (name : Name) (scopes : state.scopes = []) :
    (state.declare name).scopes = [] := by
  unfold declare
  simp [scopes]

end State

theorem get?_insert (names : Names) (text other : Bytes) (complete : Bool) :
    Bindings.get? (Bindings.insert names text complete) other =
      if other = text then some complete else Bindings.get? names other := by
  by_cases same : other = text
  · simp [same]
  · simp [same, Bindings.get?_insert_of_ne names complete same]

/-- Inside its own declaration a name is held and marked. -/
theorem Mirrors.reflects_declare {state : State} {around : List Region} (name : Name)
    (mirrors : List.Forall₂ Mirrors state.scopes around) :
    Reflects (state.declare name).scopes (declaring name.text around) := by
  cases scopes : state.scopes with
  | nil =>
      rw [scopes] at mirrors
      cases mirrors
      rw [state.declare_scopes_nil name scopes]
      exact Mirrors.reflects .nil
  | cons names outer =>
      rw [scopes] at mirrors
      cases mirrors with
      | @cons _ region _ _ first rest =>
          rw [state.declare_scopes_cons name scopes]
          constructor
          · apply List.Forall₂.cons _ (rest.imp fun _ _ => Mirrors.shows)
            intro text
            rw [get?_insert, Region.Holds, first.2 text]
            by_cases same : text = name.text <;> by_cases held : text ∈ region.complete <;>
              simp [same, held]
          · intro text
            simp only [List.head?_cons, Option.mem_some_iff, declaring, exists_eq_left',
              get?_insert, first.2 text, List.mem_singleton]
            by_cases same : text = name.text <;> by_cases held : text ∈ region.complete <;>
              simp [same, held]

/-- Completing a declaration adds its name to the innermost scope. -/
theorem Mirrors.define {before after : State} {around : List Region} (name : Name)
    (mirrors : List.Forall₂ Mirrors before.scopes around)
    (scopes : after.scopes = (before.declare name).scopes) :
    List.Forall₂ Mirrors (after.define name).scopes (declared [name.text] around) := by
  unfold State.define State.put
  cases held : before.scopes with
  | nil =>
      rw [before.declare_scopes_nil name held] at scopes
      rw [held] at mirrors
      cases mirrors
      simp [scopes, declared]
  | cons names outer =>
      rw [before.declare_scopes_cons name held] at scopes
      rw [held] at mirrors
      cases mirrors with
      | @cons _ region _ _ first rest =>
          simp only [scopes, declared]
          refine .cons ⟨first.1, fun text => ?_⟩ rest
          rw [get?_insert, get?_insert, first.2 text]
          by_cases same : text = name.text <;> simp [same]

theorem Mirrors.introduce {state : State} {around : List Region} (name : Name)
    (mirrors : List.Forall₂ Mirrors state.scopes around) :
    List.Forall₂ Mirrors (state.introduce name).scopes (declared [name.text] around) :=
  Mirrors.define name mirrors rfl

theorem Resolves.define {sites : List Site} {before after : State} (name : Name)
    (resolves : Resolves sites before after) : Resolves sites before (after.define name) := by
  have quiet : Resolves [] after (after.define name) := .ofTable (by simp) (by simp)
  simpa using resolves.append quiet (by simp)

theorem Resolves.introduce (state : State) (name : Name) :
    Resolves [] state (state.introduce name) := by
  apply Resolves.ofTable
  · simp [State.introduce]
  · simpa [State.introduce] using state.errors_prefix_declare name

theorem introduceAll_resolves (parameters : List Name) (state : State) :
    Resolves [] state (parameters.foldl State.introduce state) := by
  induction parameters generalizing state with
  | nil => exact .ofTable rfl (List.prefix_refl _)
  | cons first rest inductionHypothesis =>
      exact (Resolves.introduce state first).append (inductionHypothesis _) (by simp)

theorem Mirrors.introduceAll (parameters : List Name) (state : State) {around : List Region}
    (mirrors : List.Forall₂ Mirrors state.scopes around) :
    List.Forall₂ Mirrors (parameters.foldl State.introduce state).scopes
      (declared (parameters.map Name.text) around) := by
  induction parameters generalizing state around with
  | nil => simpa using mirrors
  | cons first rest inductionHypothesis =>
      have step := inductionHypothesis _ (Mirrors.introduce first mirrors)
      rw [declared_declared] at step
      exact step

theorem Mirrors.opened (opener : Opener) (all : List Bytes) :
    Mirrors [] ⟨opener, [], [], all⟩ :=
  ⟨rfl, fun _ => by simp [Bindings.get?]⟩

theorem Mirrors.receiver (inherits : Bool) :
    Mirrors [((thisName 0).text, true)] (.receiver inherits) :=
  ⟨rfl, fun text => by simp [Bindings.get?, Region.receiver]⟩

theorem Mirrors.superclass : Mirrors [((superName 0).text, true)] .superclass :=
  ⟨rfl, fun text => by simp [Bindings.get?, Region.superclass]⟩

theorem Mirrors.leave {state : State} {region : Region} {around : List Region}
    (mirrors : List.Forall₂ Mirrors state.scopes (region :: around)) :
    List.Forall₂ Mirrors state.leave.scopes around := by
  unfold State.leave
  cases scopes : state.scopes with
  | nil =>
      rw [scopes] at mirrors
      cases mirrors
  | cons names outer =>
      rw [scopes] at mirrors
      cases mirrors with
      | cons _ rest => exact rest

theorem checkReturn_table (context : Context) (line : Nat) (hasValue : Bool) (state : State) :
    (checkReturn context line hasValue state).table = state.table := by
  unfold checkReturn
  dsimp only
  split <;> split <;> rfl

theorem checkReturn_scopes (context : Context) (line : Nat) (hasValue : Bool) (state : State) :
    (checkReturn context line hasValue state).scopes = state.scopes := by
  unfold checkReturn
  dsimp only
  split <;> split <;> rfl

theorem errors_prefix_checkReturn (context : Context) (line : Nat) (hasValue : Bool)
    (state : State) : state.errors <+: (checkReturn context line hasValue state).errors := by
  unfold checkReturn
  dsimp only
  have first : state.errors <+:
      (if context.function = .none then state.report (returnName line) .returnAtTopLevel
        else state).errors := by
    split
    · exact state.errors_prefix_report _ _
    · exact List.prefix_refl _
  split
  · exact first.trans (State.errors_prefix_report _ _ _)
  · exact first

theorem Mirrors.pending_eq_nil {scopes : List Names} {around : List Region}
    (mirrors : List.Forall₂ Mirrors scopes around) : ∀ region ∈ around, region.pending = [] := by
  induction mirrors with
  | nil => simp
  | cons first _ inductionHypothesis =>
      intro region member
      rcases List.mem_cons.mp member with rfl | inRest
      · exact first.1
      · exact inductionHypothesis region inRest

/-- Whether a class's own name counts as declared or as under way, the scopes
around its superclass hold it. -/
theorem Mirrors.shows_declaring {scopes : List Names} {around : List Region} (name : Bytes)
    (quiet : ∀ region ∈ around, region.pending = [])
    (mirrors : List.Forall₂ Mirrors scopes (declared [name] around)) :
    List.Forall₂ Shows scopes (declaring name around) := by
  cases around with
  | nil => exact mirrors.imp fun _ _ => Mirrors.shows
  | cons region outer =>
      cases mirrors with
      | cons first rest =>
          refine .cons (fun text => ?_) (rest.imp fun _ _ => Mirrors.shows)
          rw [first.shows text]
          simp [Region.Holds, quiet region List.mem_cons_self]

/-- The superclass of a class is looked up where the class's own name is already
held; the two names differ unless that is reported. -/
theorem enterSuperclass_resolves {state : State} {around : List Region} (name : Name)
    (id : RefId) (superclass : Name)
    (shows : List.Forall₂ Shows state.scopes (declaring name.text around)) :
    Resolves [⟨⟨.read, id, superclass⟩, declaring name.text around⟩] state
      (enterSuperclass name id superclass state) := by
  unfold enterSuperclass State.read
  generalize compared : (if superclass.text = name.text then
    state.report superclass .inheritsFromItself else state) = middle
  have sameScopes : middle.scopes = state.scopes := by
    rw [← compared]
    split <;> rfl
  have sameTable : middle.table = state.table := by
    rw [← compared]
    split <;> rfl
  have reported : state.errors <+: middle.errors := by
    rw [← compared]
    split
    · exact state.errors_prefix_report _ _
    · exact List.prefix_refl _
  have differs (silent : middle.errors = state.errors) : superclass.text ≠ name.text := by
    intro same
    rw [← compared, if_pos same] at silent
    exact state.report_errors_ne _ _ silent
  have permitted (silent : middle.errors = state.errors) :
      Site.IsPermitted ⟨⟨.read, id, superclass⟩, declaring name.text around⟩ := by
    refine ⟨trivial, fun _ region member => ?_⟩
    cases around with
    | nil => simp [declaring] at member
    | cons first outer =>
        simp only [declaring, List.head?_cons, Option.mem_some_iff] at member
        rw [← member]
        simpa using differs silent
  dsimp only
  apply Resolves.enter
  split
  · refine .bind ⟨.read, id, superclass⟩ shows sameScopes sameTable ?_ (by simp) ?_
    · exact reported.trans (State.errors_prefix_report _ _ _)
    · intro silent
      have length := congrArg List.length silent
      have least := reported.length_le
      simp only [State.report, List.length_append, List.length_singleton] at length
      omega
  · exact .bind ⟨.read, id, superclass⟩ shows sameScopes sameTable reported (by simp) permitted

theorem enterSuperclass_scopes (name : Name) (id : RefId) (superclass : Name) (state : State) :
    (enterSuperclass name id superclass state).scopes =
      [((superName 0).text, true)] :: state.scopes := by
  unfold enterSuperclass State.enter
  simp only [State.read_scopes]
  split <;> rfl

mutual

theorem resolveStmt_resolves (context : Context) (around : List Region)
    (inside : context.inClass = classAround around) :
    ∀ (statement : Stmt) (state : State), List.Forall₂ Mirrors state.scopes around →
      Distinct (statement.sites around) →
        Resolves (statement.sites around) state (resolveStmt context statement state) ∧
          List.Forall₂ Mirrors (resolveStmt context statement state).scopes
            (declared statement.declares around)
  | .expression value _, state, mirrors, distinct => by
      refine ⟨resolveExpr_resolves inside value state (Mirrors.reflects mirrors) distinct, ?_⟩
      simpa [resolveStmt, resolveExpr_scopes, Stmt.declares] using mirrors
  | .print value, state, mirrors, distinct => by
      refine ⟨resolveExpr_resolves inside value state (Mirrors.reflects mirrors) distinct, ?_⟩
      simpa [resolveStmt, resolveExpr_scopes, Stmt.declares] using mirrors
  | .declare name initial, state, mirrors, distinct => by
      have opened : Resolves [] state (state.declare name) :=
        .ofTable (by simp) (state.errors_prefix_declare name)
      have initialized := resolveOption_resolves
        (inside.trans (classAround_declaring name.text around).symm) initial _
        (Mirrors.reflects_declare name mirrors) distinct
      constructor
      · exact (opened.append initialized (by simp)).define name
      · exact Mirrors.define name mirrors (resolveOption_scopes context initial _)
  | .block body, state, mirrors, distinct => by
      obtain ⟨resolves, inner⟩ := resolveStmts_resolves context (.block body :: around)
        inside body (state.enter []) (.cons (Mirrors.opened _ _) mirrors) distinct
      refine ⟨resolves.within, ?_⟩
      simpa [resolveStmt, Stmt.declares] using Mirrors.leave inner
  | .branch condition consequence none, state, mirrors, distinct => by
      obtain ⟨leftDistinct, rightDistinct, apart⟩ := distinct.append
      have first := resolveExpr_resolves inside condition state (Mirrors.reflects mirrors)
        leftDistinct
      rw [← resolveExpr_scopes context condition state] at mirrors
      obtain ⟨second, scopes⟩ := resolveStmt_resolves context around inside consequence _
        mirrors rightDistinct
      exact ⟨first.append second apart, scopes⟩
  | .branch condition consequence (some alternative), state, mirrors, distinct => by
      obtain ⟨leftDistinct, lastDistinct, apartLast⟩ := distinct.append
      obtain ⟨firstDistinct, secondDistinct, apart⟩ := leftDistinct.append
      have first := resolveExpr_resolves inside condition state (Mirrors.reflects mirrors)
        firstDistinct
      rw [← resolveExpr_scopes context condition state] at mirrors
      obtain ⟨second, scopes⟩ := resolveStmt_resolves context around inside consequence _
        mirrors secondDistinct
      obtain ⟨third, final⟩ := resolveStmt_resolves context _
        (inside.trans (classAround_declared _ _).symm) alternative _ scopes lastDistinct
      refine ⟨(first.append second apart).append third apartLast, ?_⟩
      rw [declared_declared] at final
      exact final
  | .loop condition body, state, mirrors, distinct => by
      obtain ⟨leftDistinct, rightDistinct, apart⟩ := distinct.append
      have first := resolveExpr_resolves inside condition state (Mirrors.reflects mirrors)
        leftDistinct
      rw [← resolveExpr_scopes context condition state] at mirrors
      obtain ⟨second, scopes⟩ := resolveStmt_resolves context around inside body _
        mirrors rightDistinct
      exact ⟨first.append second apart, scopes⟩
  | .function declaration, state, mirrors, distinct => by
      have introduced := Mirrors.introduce declaration.name mirrors
      obtain ⟨resolves, scopes⟩ := resolveFunction_resolves
        { context with function := .function } _
        (inside.trans (classAround_declared _ _).symm) declaration _ introduced distinct
      exact ⟨(Resolves.introduce state _).append resolves (by simp), scopes⟩
  | .leave line value, state, mirrors, distinct => by
      have checked : Resolves [] state (checkReturn context line value.isSome state) :=
        .ofTable (checkReturn_table ..) (errors_prefix_checkReturn ..)
      rw [← checkReturn_scopes context line value.isSome state] at mirrors
      have valued := resolveOption_resolves inside value _ (Mirrors.reflects mirrors) distinct
      refine ⟨checked.append valued (by simp), ?_⟩
      simpa [resolveStmt, resolveOption_scopes, Stmt.declares] using mirrors
  | .classDecl name none methods, state, mirrors, distinct => by
      have introduced := Mirrors.introduce name mirrors
      obtain ⟨resolves, scopes⟩ := resolveMethods_resolves { context with inClass := .plain }
        (.receiver false :: declared [name.text] around) rfl methods
        ((state.introduce name).enter [((thisName 0).text, true)])
        (.cons (Mirrors.receiver false) introduced) distinct
      exact ⟨(Resolves.introduce state name).append resolves.within (by simp),
        Mirrors.leave scopes⟩
  | .classDecl name (some (id, superclass)) methods, state, mirrors, distinct => by
      obtain ⟨_, methodsDistinct, apart⟩ := distinct.append
      have introduced := Mirrors.introduce name mirrors
      have inherited := enterSuperclass_resolves name id superclass
        (Mirrors.shows_declaring name.text (Mirrors.pending_eq_nil mirrors) introduced)
      have entered : List.Forall₂ Mirrors
          (enterSuperclass name id superclass (state.introduce name)).scopes
          (.superclass :: declared [name.text] around) := by
        rw [enterSuperclass_scopes]
        exact .cons Mirrors.superclass introduced
      obtain ⟨resolves, scopes⟩ := resolveMethods_resolves { context with inClass := .subclass }
        (.receiver true :: .superclass :: declared [name.text] around) rfl methods
        ((enterSuperclass name id superclass (state.introduce name)).enter
          [((thisName 0).text, true)])
        (.cons (Mirrors.receiver true) entered) methodsDistinct
      have whole := (Resolves.introduce state name).append inherited (by simp)
      exact ⟨(whole.append resolves.within apart).leave,
        Mirrors.leave (Mirrors.leave scopes)⟩

theorem resolveStmts_resolves (context : Context) (around : List Region)
    (inside : context.inClass = classAround around) :
    ∀ (statements : List Stmt) (state : State), List.Forall₂ Mirrors state.scopes around →
      Distinct (Stmt.sitesAll around statements) →
        Resolves (Stmt.sitesAll around statements) state
            (resolveStmts context statements state) ∧
          List.Forall₂ Mirrors (resolveStmts context statements state).scopes
            (declared (Stmt.declaresAll statements) around)
  | [], state, mirrors, _ => by
      refine ⟨.ofTable rfl (List.prefix_refl _), ?_⟩
      simpa [resolveStmts, Stmt.declaresAll] using mirrors
  | first :: rest, state, mirrors, distinct => by
      obtain ⟨leftDistinct, rightDistinct, apart⟩ := distinct.append
      obtain ⟨left, middle⟩ := resolveStmt_resolves context around inside first state mirrors
        leftDistinct
      obtain ⟨right, scopes⟩ := resolveStmts_resolves context _
        (inside.trans (classAround_declared _ _).symm) rest _ middle rightDistinct
      refine ⟨left.append right apart, ?_⟩
      rw [declared_declared] at scopes
      exact scopes

theorem resolveFunction_resolves (context : Context) (around : List Region)
    (inside : context.inClass = classAround around) :
    ∀ (function : Function) (state : State), List.Forall₂ Mirrors state.scopes around →
      Distinct (function.sites around) →
        Resolves (function.sites around) state (resolveFunction context function state) ∧
          List.Forall₂ Mirrors (resolveFunction context function state).scopes around
  | .mk name parameters body, state, mirrors, distinct => by
      have entered := Mirrors.introduceAll parameters (state.enter [])
        (.cons (Mirrors.opened .function (parameters.map Name.text ++ Stmt.declaresAll body))
          mirrors)
      obtain ⟨resolves, scopes⟩ := resolveStmts_resolves context
        (.function parameters body :: around) inside body _ entered distinct
      have whole := (introduceAll_resolves parameters (state.enter [])).append resolves (by simp)
      exact ⟨whole.within, Mirrors.leave scopes⟩

theorem resolveMethods_resolves (context : Context) (around : List Region)
    (inside : context.inClass = classAround around) :
    ∀ (methods : List Function) (state : State), List.Forall₂ Mirrors state.scopes around →
      Distinct (Function.sitesAll around methods) →
        Resolves (Function.sitesAll around methods) state
            (resolveMethods context methods state) ∧
          List.Forall₂ Mirrors (resolveMethods context methods state).scopes around
  | [], state, mirrors, _ => ⟨.ofTable rfl (List.prefix_refl _), mirrors⟩
  | method :: rest, state, mirrors, distinct => by
      obtain ⟨leftDistinct, rightDistinct, apart⟩ := distinct.append
      obtain ⟨left, middle⟩ := resolveFunction_resolves
        { context with function := inMethod method.name } around inside method state mirrors
        leftDistinct
      obtain ⟨right, scopes⟩ := resolveMethods_resolves context around inside rest _ middle
        rightDistinct
      exact ⟨left.append right apart, scopes⟩

end

namespace Site

theorem distance?_eq_some_iff (site : Site) (distance : Nat) :
    site.distance? = some distance ↔ site.FirstHeldAt distance := by
  unfold distance? FirstHeldAt
  rw [List.findIdx?_eq_some_iff_getElem]
  constructor
  · rintro ⟨bound, held, nearest⟩
    refine ⟨⟨_, List.getElem?_eq_getElem bound, by simpa using held⟩, ?_⟩
    intro nearer closer region found
    obtain ⟨within, rfl⟩ := List.getElem?_eq_some_iff.mp found
    simpa using nearest nearer closer
  · rintro ⟨⟨region, found, held⟩, nearest⟩
    obtain ⟨bound, rfl⟩ := List.getElem?_eq_some_iff.mp found
    refine ⟨bound, by simpa using held, ?_⟩
    intro nearer closer
    simpa using nearest nearer closer _ (List.getElem?_eq_getElem (Nat.lt_trans closer bound))

theorem distance?_eq_none_iff (site : Site) :
    site.distance? = none ↔
      ∀ region ∈ site.regions, ¬ region.Holds site.reference.name.text := by
  simp [distance?, List.findIdx?_eq_none_iff]

theorem IsPlaced.record?_eq {site : Site} (placed : site.IsPlaced) :
    site.record? = site.distance? := by
  unfold record?
  rw [if_neg]
  rintro ⟨form, outside⟩
  unfold IsPlaced at placed
  rw [form] at placed
  exact placed outside

theorem record?_eq_none_of_global {site : Site} (outside : site.regions = []) :
    site.record? = none := by
  simp [record?, distance?, outside]

end Site

theorem distinct_sitesAll (around : List Region) {statements : List Stmt}
    (distinct : ((Stmt.referencesAll statements).map Reference.id).Nodup) :
    Distinct (Stmt.sitesAll around statements) := by
  rw [← Stmt.map_reference_sitesAll around statements, List.map_map] at distinct
  exact distinct

/-- Resolving a program is a walk over its sites from no open scope. -/
theorem resolve_resolves {statements : List Stmt} (table : Resolution)
    (distinct : ((Stmt.referencesAll statements).map Reference.id).Nodup) :
    Resolves (Stmt.sitesAll [] statements) ⟨[], table, []⟩
      (resolveStmts {} statements ⟨[], table, []⟩) :=
  (resolveStmts_resolves {} [] rfl statements ⟨[], table, []⟩ .nil
    (distinct_sitesAll [] distinct)).1

end Scope

open Scope

/-- Resolution computes lexical scoping.  The sites of a program are exactly its
references, and a placed reference is recorded at the first scope around it that
holds a declaration of its name before it, or not at all when there is none. -/
theorem resolve_eq_lexical (statements : List Stmt) (table : Resolution)
    (distinct : ((Stmt.referencesAll statements).map Reference.id).Nodup)
    (fresh : ∀ reference ∈ Stmt.referencesAll statements, table[reference.id]? = none) :
    (Stmt.sitesAll [] statements).map Site.reference = Stmt.referencesAll statements ∧
      (∀ site ∈ Stmt.sitesAll [] statements, site.IsPlaced →
        (∀ distance, (resolve statements table).1[site.reference.id]? = some distance ↔
          site.FirstHeldAt distance) ∧
        ((resolve statements table).1[site.reference.id]? = none ↔
          ∀ region ∈ site.regions, ¬ region.Holds site.reference.name.text)) ∧
      ∀ site ∈ Stmt.sitesAll [] statements, site.regions = [] →
        (resolve statements table).1[site.reference.id]? = none := by
  have everySite := Stmt.map_reference_sitesAll [] statements
  have recorded : ∀ site ∈ Stmt.sitesAll [] statements,
      (resolve statements table).1[site.reference.id]? = site.record? := by
    intro site member
    apply (resolve_resolves table distinct).recorded site member
    apply fresh
    rw [← everySite]
    exact List.mem_map_of_mem member
  refine ⟨everySite, ?_, ?_⟩
  · intro site member placed
    rw [recorded site member, placed.record?_eq]
    exact ⟨site.distance?_eq_some_iff, site.distance?_eq_none_iff⟩
  · intro site member outside
    rw [recorded site member, Site.record?_eq_none_of_global outside]

/-- In a method of a local subclass, a variable of the surrounding block lies
beyond the scopes of the method, the receiver and the superclass; the name of
the superclass itself is global. -/
theorem resolve_eq_lexical_subclass :
    let target : Name := ⟨[97], 1⟩
    let method : Name := ⟨[109], 1⟩
    let program : List Stmt :=
      [.block [.declare target none,
        .classDecl ⟨[67], 1⟩ (some (0, ⟨[66], 1⟩)) [.mk method [⟨[98], 1⟩]
          [.expression (.assign 1 target (.superMethod 2 1 method)) false]]]]
    ((Stmt.referencesAll program).map Reference.id).Nodup ∧
      (resolve program {}).1[1]? = some 3 ∧ (resolve program {}).1[2]? = some 2 ∧
        (resolve program {}).1[0]? = none := by
  intro target method program
  have distinct : ((Stmt.referencesAll program).map Reference.id).Nodup := by decide
  obtain ⟨-, placed, -⟩ := resolve_eq_lexical program {} distinct (by simp)
  let inMethod : List Region :=
    [.function [⟨[98], 1⟩] [], .receiver true, .superclass, ⟨.block, [[97], [67]], [], [[97], [67]]⟩]
  refine ⟨distinct, ?_, ?_, ?_⟩
  · exact ((placed ⟨⟨.assign, 1, target⟩, inMethod⟩ (by decide) trivial).1 3).mpr
      ((Site.distance?_eq_some_iff _ _).mp (by decide))
  · exact ((placed ⟨⟨.superclass, 2, superName 1⟩, inMethod⟩ (by decide) rfl).1 2).mpr
      ((Site.distance?_eq_some_iff _ _).mp (by decide))
  · exact (placed ⟨⟨.read, 0, ⟨[66], 1⟩⟩, [⟨.block, [[97]], [[67]], [[97], [67]]⟩]⟩
      (by decide) trivial).2.mpr (by decide)

end LoxLang
