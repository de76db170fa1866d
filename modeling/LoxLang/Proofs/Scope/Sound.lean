import LoxLang.Proofs.Scope.Lexical

/-!
What a silent resolution promises about every reference.  Trees that the grammar
produces declare ordinary names only, and never as the body of a branch or a
loop.  In such a tree every recorded distance leads to a scope that is certain
to bind the name.
-/

namespace LoxLang

namespace Scope

/-- A name that a program can declare. -/
def IsOrdinary (text : Bytes) : Prop :=
  text ≠ (thisName 0).text ∧ text ≠ (superName 0).text

instance (text : Bytes) : Decidable (IsOrdinary text) :=
  inferInstanceAs (Decidable (_ ∧ _))

end Scope

open Scope

/-- The reference reads or assigns a variable. -/
def Reference.IsVariable (reference : Reference) : Prop :=
  reference.form = .read ∨ reference.form = .assign

instance (reference : Reference) : Decidable reference.IsVariable :=
  inferInstanceAs (Decidable (_ ∨ _))

/-- Variables have ordinary names, and the other references their own. -/
def Reference.IsRegular (reference : Reference) : Prop :=
  match reference.form with
  | .read | .assign => IsOrdinary reference.name.text
  | .self => reference.name.text = (thisName 0).text
  | .superclass => reference.name.text = (superName 0).text

mutual

/-- Declared names are ordinary, and the parts of branches and loops declare
nothing. -/
def Stmt.IsRegular : Stmt → Prop
  | .expression _ _ => True
  | .print _ => True
  | .declare name _ => IsOrdinary name.text
  | .block body => Stmt.IsRegularAll body
  | .branch _ consequence none => consequence.IsRegular ∧ consequence.declares = []
  | .branch _ consequence (some alternative) =>
      (consequence.IsRegular ∧ consequence.declares = []) ∧
        alternative.IsRegular ∧ alternative.declares = []
  | .loop _ body => body.IsRegular ∧ body.declares = []
  | .function declaration => declaration.IsRegular
  | .leave _ _ => True
  | .classDecl name _ methods => IsOrdinary name.text ∧ Function.IsRegularAll methods

def Stmt.IsRegularAll : List Stmt → Prop
  | [] => True
  | first :: rest => first.IsRegular ∧ Stmt.IsRegularAll rest

def Function.IsRegular : Function → Prop
  | .mk name parameters body =>
      IsOrdinary name.text ∧ (∀ parameter ∈ parameters, IsOrdinary parameter.text) ∧
        Stmt.IsRegularAll body

def Function.IsRegularAll : List Function → Prop
  | [] => True
  | first :: rest => first.IsRegular ∧ Function.IsRegularAll rest

end

theorem Stmt.IsRegular.ordinary_of_declares :
    ∀ {statement : Stmt}, statement.IsRegular → ∀ name ∈ statement.declares, IsOrdinary name
  | .expression _ _, _, _, member => by simp [Stmt.declares] at member
  | .print _, _, _, member => by simp [Stmt.declares] at member
  | .declare name _, regular, _, member => by
      obtain rfl := List.mem_singleton.mp member
      exact regular
  | .block _, _, _, member => by simp [Stmt.declares] at member
  | .branch _ _ none, regular, _, member => by
      simp [Stmt.declares, regular.2] at member
  | .branch _ _ (some _), regular, _, member => by
      simp [Stmt.declares, regular.1.2, regular.2.2] at member
  | .loop _ _, regular, _, member => by simp [Stmt.declares, regular.2] at member
  | .function (.mk name _ _), regular, _, member => by
      obtain rfl := List.mem_singleton.mp member
      exact regular.1
  | .leave _ _, _, _, member => by simp [Stmt.declares] at member
  | .classDecl name _ _, regular, _, member => by
      obtain rfl := List.mem_singleton.mp member
      exact regular.1

theorem Stmt.IsRegularAll.ordinary_of_declaresAll :
    ∀ {statements : List Stmt}, Stmt.IsRegularAll statements →
      ∀ name ∈ Stmt.declaresAll statements, IsOrdinary name
  | [], _, _, member => by simp [Stmt.declaresAll] at member
  | first :: rest, regular, name, member => by
      simp only [Stmt.declaresAll, List.flatMap_cons, List.mem_append] at member
      rcases member with inFirst | inRest
      · exact regular.1.ordinary_of_declares name inFirst
      · exact regular.2.ordinary_of_declaresAll name inRest

namespace Scope

/-- Scopes as they nest in a regular tree.  A scope of statements declares ordinary
names and holds none but these, and the scope of a superclass stands just outside that
of the class's receiver. -/
inductive Nested : List Region → Prop where
  | global : Nested []
  | statements {region outer} :
      region.opener = .block ∨ region.opener = .function →
      (∀ name ∈ region.all, IsOrdinary name) →
      (∀ name, region.Holds name → name ∈ region.all) →
      Nested outer → Nested (region :: outer)
  | plainClass {outer} : Nested outer → Nested (.receiver false :: outer)
  | subclass {outer} : Nested outer → Nested (.receiver true :: .superclass :: outer)

/-- Names may be declared in the innermost scope. -/
def Allows (around : List Region) (names : List Bytes) : Prop :=
  ∀ region ∈ around.head?, ∀ name ∈ names, IsOrdinary name ∧ name ∈ region.all

/-- Statements can stand directly inside these scopes. -/
structure Hosts (around : List Region) : Prop where
  nested : Nested around
  quiet : ∀ region ∈ around, region.pending = []
  statements : ∀ region ∈ around.head?, region.opener = .block ∨ region.opener = .function

/-- Only the innermost scope of a site may have a name under way. -/
def Site.IsNested (site : Site) : Prop :=
  Nested site.regions ∧ ∀ region ∈ site.regions.tail, region.pending = []

theorem Allows.append {around : List Region} {first second : List Bytes}
    (allows : Allows around (first ++ second)) :
    Allows around first ∧ Allows (declared first around) second := by
  constructor
  · intro region member name inFirst
    exact allows region member name (List.mem_append_left _ inFirst)
  · cases around with
    | nil => simp [Allows, declared]
    | cons head outer =>
        intro region member name inSecond
        simp only [declared, List.head?_cons, Option.mem_some_iff] at member
        rw [← member]
        exact allows head rfl name (List.mem_append_right _ inSecond)

theorem Nested.inv_statements {region : Region} {outer : List Region}
    (nested : Nested (region :: outer))
    (statements : region.opener = .block ∨ region.opener = .function) :
    (∀ name ∈ region.all, IsOrdinary name) ∧ (∀ name, region.Holds name → name ∈ region.all) ∧
      Nested outer := by
  cases nested with
  | statements _ ordinary holds rest => exact ⟨ordinary, holds, rest⟩
  | plainClass _ => simp [Region.receiver] at statements
  | subclass _ => simp [Region.receiver] at statements

/-- The names of a function's scope are ordinary. -/
theorem ordinary_of_mem_function {parameters : List Name} {body : List Stmt}
    (ordinary : ∀ parameter ∈ parameters, IsOrdinary parameter.text)
    (regular : Stmt.IsRegularAll body) :
    ∀ name ∈ (Region.function parameters body).all, IsOrdinary name := by
  intro name member
  rcases List.mem_append.mp member with isParameter | declared
  · obtain ⟨parameter, listed, rfl⟩ := List.mem_map.mp isParameter
    exact ordinary parameter listed
  · exact regular.ordinary_of_declaresAll name declared

namespace Hosts

theorem isNested {around : List Region} (hosts : Hosts around) (reference : Reference) :
    Site.IsNested ⟨reference, around⟩ :=
  ⟨hosts.nested, fun region member => hosts.quiet region (List.mem_of_mem_tail member)⟩

theorem declared {around : List Region} {names : List Bytes} (hosts : Hosts around)
    (allows : Allows around names) : Hosts (declared names around) := by
  cases around with
  | nil => exact hosts
  | cons region outer =>
      have opener := hosts.statements region rfl
      obtain ⟨ordinary, holds, rest⟩ := hosts.nested.inv_statements opener
      refine ⟨.statements opener ordinary ?_ rest, ?_, ?_⟩
      · intro name held
        rcases held with complete | pending
        · rcases List.mem_append.mp complete with old | new
          · exact holds name (.inl old)
          · exact (allows region rfl name new).2
        · exact holds name (.inr pending)
      · intro other member
        rcases List.mem_cons.mp member with rfl | inOuter
        · exact hosts.quiet region List.mem_cons_self
        · exact hosts.quiet other (List.mem_cons_of_mem _ inOuter)
      · simpa [Scope.declared] using opener

theorem isNested_declaring {around : List Region} {name : Bytes} (hosts : Hosts around)
    (allows : Allows around [name]) (reference : Reference) :
    Site.IsNested ⟨reference, declaring name around⟩ := by
  cases around with
  | nil => exact hosts.isNested reference
  | cons region outer =>
      have opener := hosts.statements region rfl
      obtain ⟨ordinary, holds, rest⟩ := hosts.nested.inv_statements opener
      refine ⟨.statements opener ordinary ?_ rest, ?_⟩
      · intro other held
        rcases held with complete | pending
        · exact holds other (.inl complete)
        · exact (allows region rfl other pending).2
      · intro other member
        exact hosts.quiet other (List.mem_cons_of_mem _ member)

theorem block {around : List Region} {body : List Stmt} (regular : Stmt.IsRegularAll body)
    (nested : Nested around) (quiet : ∀ region ∈ around, region.pending = []) :
    Hosts (.block body :: around) where
  nested := .statements (.inl rfl) regular.ordinary_of_declaresAll
    (by simp [Region.Holds, Region.block]) nested
  quiet := by simpa [Region.block] using quiet
  statements := by simp [Region.block]

theorem function {around : List Region} {parameters : List Name} {body : List Stmt}
    (ordinary : ∀ parameter ∈ parameters, IsOrdinary parameter.text)
    (regular : Stmt.IsRegularAll body) (nested : Nested around)
    (quiet : ∀ region ∈ around, region.pending = []) :
    Hosts (.function parameters body :: around) where
  nested := by
    refine .statements (.inr rfl) (ordinary_of_mem_function ordinary regular) ?_ nested
    intro name held
    simp only [Region.Holds, Region.function, List.not_mem_nil, or_false] at held
    exact List.mem_append_left _ held
  quiet := by simpa [Region.function] using quiet
  statements := by simp [Region.function]

end Hosts

theorem Allows.block {body : List Stmt} (regular : Stmt.IsRegularAll body)
    (around : List Region) : Allows (.block body :: around) (Stmt.declaresAll body) := by
  intro region member name declared
  obtain rfl := Option.mem_some_iff.mp member
  exact ⟨regular.ordinary_of_declaresAll name declared, declared⟩

theorem Allows.function {body : List Stmt} (regular : Stmt.IsRegularAll body)
    (parameters : List Name) (around : List Region) :
    Allows (.function parameters body :: around) (Stmt.declaresAll body) := by
  intro region member name declared
  obtain rfl := Option.mem_some_iff.mp member
  exact ⟨regular.ordinary_of_declaresAll name declared, List.mem_append_right _ declared⟩

theorem isNested_of_mem_sitesAt {around : List Region} {references : List Reference}
    (nested : ∀ reference, Site.IsNested ⟨reference, around⟩) :
    ∀ site ∈ sitesAt around references, site.IsNested := by
  intro site member
  obtain ⟨reference, -, rfl⟩ := List.mem_map.mp member
  exact nested reference

end Scope

mutual

theorem Stmt.IsRegular.isNested_of_mem_sites :
    ∀ {statement : Stmt} {around : List Region}, statement.IsRegular → Hosts around →
      Allows around statement.declares → ∀ site ∈ statement.sites around, site.IsNested
  | .expression _ _, _, _, hosts, _ => isNested_of_mem_sitesAt hosts.isNested
  | .print _, _, _, hosts, _ => isNested_of_mem_sitesAt hosts.isNested
  | .declare _ _, _, _, hosts, allows =>
      isNested_of_mem_sitesAt (hosts.isNested_declaring allows)
  | .block _, _, regular, hosts, _ =>
      Stmt.IsRegularAll.isNested_of_mem_sitesAll regular (.block regular hosts.nested hosts.quiet)
        (.block regular _)
  | .branch _ consequence none, _, regular, hosts, allows => by
      intro site member
      rcases List.mem_append.mp member with inCondition | inConsequence
      · exact isNested_of_mem_sitesAt hosts.isNested site inCondition
      · exact regular.1.isNested_of_mem_sites hosts allows site inConsequence
  | .branch _ consequence (some alternative), _, regular, hosts, allows => by
      intro site member
      obtain ⟨allowsFirst, allowsSecond⟩ := allows.append
      rcases List.mem_append.mp member with inFront | inAlternative
      · rcases List.mem_append.mp inFront with inCondition | inConsequence
        · exact isNested_of_mem_sitesAt hosts.isNested site inCondition
        · exact regular.1.1.isNested_of_mem_sites hosts allowsFirst site inConsequence
      · exact regular.2.1.isNested_of_mem_sites (hosts.declared allowsFirst) allowsSecond site
          inAlternative
  | .loop _ body, _, regular, hosts, allows => by
      intro site member
      rcases List.mem_append.mp member with inCondition | inBody
      · exact isNested_of_mem_sitesAt hosts.isNested site inCondition
      · exact regular.1.isNested_of_mem_sites hosts allows site inBody
  | .function declaration, _, regular, hosts, allows =>
      Function.IsRegular.isNested_of_mem_sites regular (hosts.declared allows).nested
        (hosts.declared allows).quiet
  | .leave _ _, _, _, hosts, _ => isNested_of_mem_sitesAt hosts.isNested
  | .classDecl _ none methods, _, regular, hosts, allows => by
      have inside := hosts.declared allows
      apply Function.IsRegularAll.isNested_of_mem_sitesAll regular.2 (.plainClass inside.nested)
      simpa [Region.receiver] using inside.quiet
  | .classDecl _ (some (_, _)) methods, _, regular, hosts, allows => by
      intro site member
      have inside := hosts.declared allows
      rcases List.mem_append.mp member with inSuperclass | inMethods
      · exact isNested_of_mem_sitesAt (hosts.isNested_declaring allows) site inSuperclass
      · apply Function.IsRegularAll.isNested_of_mem_sitesAll regular.2 (.subclass inside.nested)
          _ site inMethods
        simpa [Region.receiver, Region.superclass] using inside.quiet

theorem Stmt.IsRegularAll.isNested_of_mem_sitesAll :
    ∀ {statements : List Stmt} {around : List Region}, Stmt.IsRegularAll statements →
      Hosts around → Allows around (Stmt.declaresAll statements) →
        ∀ site ∈ Stmt.sitesAll around statements, site.IsNested
  | [], _, _, _, _ => by simp [Stmt.sitesAll]
  | first :: rest, _, regular, hosts, allows => by
      intro site member
      obtain ⟨allowsFirst, allowsRest⟩ := Allows.append allows
      rcases List.mem_append.mp member with inFirst | inRest
      · exact regular.1.isNested_of_mem_sites hosts allowsFirst site inFirst
      · exact regular.2.isNested_of_mem_sitesAll (hosts.declared allowsFirst) allowsRest site
          inRest

theorem Function.IsRegular.isNested_of_mem_sites :
    ∀ {function : Function} {around : List Region}, function.IsRegular → Nested around →
      (∀ region ∈ around, region.pending = []) →
        ∀ site ∈ function.sites around, site.IsNested
  | .mk _ _ _, _, regular, nested, quiet =>
      Stmt.IsRegularAll.isNested_of_mem_sitesAll regular.2.2
        (.function regular.2.1 regular.2.2 nested quiet) (.function regular.2.2 _ _)

theorem Function.IsRegularAll.isNested_of_mem_sitesAll :
    ∀ {functions : List Function} {around : List Region}, Function.IsRegularAll functions →
      Nested around → (∀ region ∈ around, region.pending = []) →
        ∀ site ∈ Function.sitesAll around functions, site.IsNested
  | [], _, _, _, _ => by simp [Function.sitesAll]
  | first :: rest, _, regular, nested, quiet => by
      intro site member
      rcases List.mem_append.mp member with inFirst | inRest
      · exact regular.1.isNested_of_mem_sites nested quiet site inFirst
      · exact regular.2.isNested_of_mem_sitesAll nested quiet site inRest

end

namespace Scope

/-- A scope at a distance is certain to bind a name. -/
def BindsAt (regions : List Region) (distance : Nat) (name : Bytes) : Prop :=
  ∃ region, regions[distance]? = some region ∧ name ∈ region.complete

/-- What evaluation relies on at a reference: a recorded read leads to a bound
name, a recorded assignment to a scope that declares the name, and the receiver
stands just inside the superclass of the class around, with nothing but ordinary names
nearer. -/
def Site.IsSound (table : Resolution) (site : Site) : Prop :=
  match site.reference.form with
  | .read =>
      ∀ distance, table[site.reference.id]? = some distance →
        BindsAt site.regions distance site.reference.name.text
  | .assign =>
      IsOrdinary site.reference.name.text ∧
        ∀ distance, table[site.reference.id]? = some distance →
          ∃ region, site.regions[distance]? = some region ∧
            site.reference.name.text ∈ region.all
  | .self =>
      ∃ distance, table[site.reference.id]? = some distance ∧
        BindsAt site.regions distance (thisName 0).text
  | .superclass =>
      ∃ distance, table[site.reference.id]? = some (distance + 1) ∧
        BindsAt site.regions (distance + 1) (superName 0).text ∧
          BindsAt site.regions distance (thisName 0).text ∧
            (∀ nearer < distance, ∀ region, site.regions[nearer]? = some region →
              ∀ name ∈ region.all, IsOrdinary name) ∧
                classAround site.regions = .subclass

/-- Searching outward for the name of a variable ends at its recorded scope: no
nearer scope ever declares the name. -/
def Site.IsSearchable (table : Resolution) (site : Site) : Prop :=
  match table[site.reference.id]? with
  | some distance =>
      BindsAt site.regions distance site.reference.name.text ∧
        ∀ nearer < distance, ∀ region, site.regions[nearer]? = some region →
          site.reference.name.text ∉ region.all
  | none => ∀ region ∈ site.regions, site.reference.name.text ∉ region.all

/-- Every scope around a variable that declares its name anywhere has declared
it completely before the variable. -/
def Site.IsSettled (site : Site) : Prop :=
  site.reference.IsVariable →
    ∀ region ∈ site.regions, site.reference.name.text ∈ region.all →
      site.reference.name.text ∈ region.complete

instance (site : Site) : Decidable site.IsSettled :=
  inferInstanceAs (Decidable (_ → ∀ region ∈ site.regions, _ → _))

theorem this_ne_super : (thisName 0).text ≠ (superName 0).text := by decide

/-- Counting outward past a scope that does not hold the name. -/
theorem findIdx?_cons_of_not_holds {region : Region} {outer : List Region} {name : Bytes}
    {distance : Nat} (absent : ¬ region.Holds name)
    (found : (outer.findIdx? fun region => region.Holds name) = some distance) :
    ((region :: outer).findIdx? fun region => region.Holds name) = some (distance + 1) := by
  rw [List.findIdx?_cons, if_neg (by simpa using absent), found]
  rfl

theorem findIdx?_cons_of_holds {region : Region} {outer : List Region} {name : Bytes}
    (held : region.Holds name) :
    ((region :: outer).findIdx? fun region => region.Holds name) = some 0 := by
  rw [List.findIdx?_cons, if_pos (by simpa using held)]

theorem BindsAt.cons {regions : List Region} {distance : Nat} {name : Bytes}
    (binds : BindsAt regions distance name) (region : Region) :
    BindsAt (region :: regions) (distance + 1) name := by
  obtain ⟨holder, found, complete⟩ := binds
  exact ⟨holder, by simpa using found, complete⟩

theorem Nested.binds_this {around : List Region} (nested : Nested around)
    (inside : classAround around ≠ .none) :
    ∃ distance, (around.findIdx? fun region => region.Holds (thisName 0).text) = some distance ∧
      BindsAt around distance (thisName 0).text := by
  induction nested with
  | global => exact absurd rfl inside
  | @statements region outer opener ordinary holds _ inductionHypothesis =>
      have outside : classAround outer ≠ .none := by
        rcases opener with block | function
        · simpa [classAround, block] using inside
        · simpa [classAround, function] using inside
      obtain ⟨distance, found, binds⟩ := inductionHypothesis outside
      have absent : ¬ region.Holds (thisName 0).text := fun held =>
        (ordinary _ (holds _ held)).1 rfl
      exact ⟨distance + 1, findIdx?_cons_of_not_holds absent found, binds.cons region⟩
  | plainClass _ _ =>
      exact ⟨0, findIdx?_cons_of_holds (by simp [Region.Holds, Region.receiver]),
        _, rfl, by simp [Region.receiver]⟩
  | subclass _ _ =>
      exact ⟨0, findIdx?_cons_of_holds (by simp [Region.Holds, Region.receiver]),
        _, rfl, by simp [Region.receiver]⟩

theorem Nested.binds_super {around : List Region} (nested : Nested around)
    (inside : classAround around = .subclass) :
    ∃ distance,
      (around.findIdx? fun region => region.Holds (superName 0).text) = some (distance + 1) ∧
        BindsAt around (distance + 1) (superName 0).text ∧
          BindsAt around distance (thisName 0).text ∧
            ∀ nearer < distance, ∀ region, around[nearer]? = some region →
              ∀ name ∈ region.all, IsOrdinary name := by
  induction nested with
  | global => simp [classAround] at inside
  | @statements region outer opener ordinary holds _ inductionHypothesis =>
      have outside : classAround outer = .subclass := by
        rcases opener with block | function
        · simpa [classAround, block] using inside
        · simpa [classAround, function] using inside
      obtain ⟨distance, found, bindsSuper, bindsThis, nearest⟩ := inductionHypothesis outside
      have absent : ¬ region.Holds (superName 0).text := fun held =>
        (ordinary _ (holds _ held)).2 rfl
      refine ⟨distance + 1, findIdx?_cons_of_not_holds absent found, bindsSuper.cons region,
        bindsThis.cons region, fun nearer closer other position => ?_⟩
      cases nearer with
      | zero =>
          obtain rfl := Option.some.inj position
          exact ordinary
      | succ nearer =>
          exact nearest nearer (Nat.lt_of_succ_lt_succ closer) other (by simpa using position)
  | plainClass _ _ => simp [classAround, Region.receiver] at inside
  | @subclass outer _ _ =>
      have absent : ¬ (Region.receiver true).Holds (superName 0).text := by
        simp [Region.Holds, Region.receiver, this_ne_super.symm]
      have held : Region.superclass.Holds (superName 0).text := by
        simp [Region.Holds, Region.superclass]
      refine ⟨0, findIdx?_cons_of_not_holds absent (findIdx?_cons_of_holds held), ?_, ?_, ?_⟩
      · exact ⟨.superclass, rfl, by simp [Region.superclass]⟩
      · exact ⟨.receiver true, rfl, by simp [Region.receiver]⟩
      · exact fun nearer closer => absurd closer (Nat.not_lt_zero nearer)

/-- A name that a scope of statements holds is declared there. -/
theorem Nested.mem_all_of_holds {around : List Region} (nested : Nested around) :
    ∀ region ∈ around, ∀ name, region.Holds name → name ∈ region.all := by
  induction nested with
  | global => simp
  | statements _ _ holds _ inductionHypothesis =>
      intro region member name held
      rcases List.mem_cons.mp member with rfl | inOuter
      · exact holds name held
      · exact inductionHypothesis region inOuter name held
  | plainClass _ inductionHypothesis =>
      intro region member name held
      rcases List.mem_cons.mp member with rfl | inOuter
      · simpa [Region.Holds, Region.receiver] using held
      · exact inductionHypothesis region inOuter name held
  | subclass _ inductionHypothesis =>
      intro region member name held
      rcases List.mem_cons.mp member with rfl | rest
      · simpa [Region.Holds, Region.receiver] using held
      · rcases List.mem_cons.mp rest with rfl | inOuter
        · simpa [Region.Holds, Region.superclass] using held
        · exact inductionHypothesis region inOuter name held

namespace Site

/-- A read that is not of a name under way leads to a name that is bound. -/
theorem FirstHeldAt.binds {site : Site} {distance : Nat} (held : site.FirstHeldAt distance)
    (nested : site.IsNested) (apart : ∀ region ∈ site.regions.head?,
      site.reference.name.text ∉ region.pending) :
    BindsAt site.regions distance site.reference.name.text := by
  obtain ⟨⟨region, found, holds⟩, -⟩ := held
  refine ⟨region, found, ?_⟩
  rcases holds with complete | pending
  · exact complete
  · cases distance with
    | zero => exact absurd pending (apart region (by simpa [List.head?_eq_getElem?] using found))
    | succ further =>
        have member : region ∈ site.regions.tail := by
          apply List.mem_of_getElem?
          rw [List.getElem?_tail]
          exact found
        rw [nested.2 region member] at pending
        exact absurd pending List.not_mem_nil

theorem isSound {table : Resolution} {site : Site} (nested : site.IsNested)
    (regular : site.reference.IsRegular) (permitted : site.IsPermitted)
    (recorded : table[site.reference.id]? = site.record?) : site.IsSound table := by
  rw [permitted.1.record?_eq] at recorded
  obtain ⟨placed, apart⟩ := permitted
  unfold IsPlaced at placed
  unfold Reference.IsRegular at regular
  unfold IsSound
  rw [recorded]
  cases form : site.reference.form with
  | read =>
      intro distance found
      exact ((site.distance?_eq_some_iff distance).mp found).binds nested (apart form)
  | assign =>
      simp only [form] at regular
      refine ⟨regular, fun distance found => ?_⟩
      obtain ⟨⟨region, reached, holds⟩, -⟩ := (site.distance?_eq_some_iff distance).mp found
      exact ⟨region, reached,
        nested.1.mem_all_of_holds region (List.mem_of_getElem? reached) _ holds⟩
  | self =>
      simp only [form] at placed regular
      unfold distance?
      rw [regular]
      exact nested.1.binds_this placed
  | superclass =>
      simp only [form] at placed regular
      unfold distance?
      rw [regular]
      obtain ⟨distance, found, bindsSuper, bindsThis, nearest⟩ := nested.1.binds_super placed
      exact ⟨distance, found, bindsSuper, bindsThis, nearest, placed⟩

theorem isSearchable {table : Resolution} {site : Site} (nested : site.IsNested)
    (isVariable : site.reference.IsVariable)
    (settled : site.IsSettled) (recorded : table[site.reference.id]? = site.record?) :
    site.IsSearchable table := by
  have placed : site.IsPlaced := by
    unfold IsPlaced
    rcases isVariable with read | assign
    · simp [read]
    · simp [assign]
  have unheld {region : Region} (member : region ∈ site.regions)
      (absent : ¬ region.Holds site.reference.name.text) :
      site.reference.name.text ∉ region.all :=
    fun declared => absent (.inl (settled isVariable region member declared))
  rw [placed.record?_eq] at recorded
  unfold IsSearchable
  rw [recorded]
  cases found : site.distance? with
  | none =>
      intro region member
      exact unheld member ((site.distance?_eq_none_iff).mp found region member)
  | some distance =>
      obtain ⟨⟨region, reached, holds⟩, nearest⟩ := (site.distance?_eq_some_iff distance).mp found
      have member := List.mem_of_getElem? reached
      refine ⟨⟨region, reached, ?_⟩, ?_⟩
      · exact settled isVariable region member
          (nested.1.mem_all_of_holds region member _ holds)
      · intro nearer closer other position
        exact unheld (List.mem_of_getElem? position) (nearest nearer closer other position)

end Site

end Scope

/-- The facts about a program that the grammar grants: its references are
distinct and named properly, and its statements are regular. -/
structure IsProgram (statements : List Stmt) : Prop where
  distinct : ((Stmt.referencesAll statements).map Reference.id).Nodup
  references : ∀ reference ∈ Stmt.referencesAll statements, reference.IsRegular
  statements : Stmt.IsRegularAll statements

namespace IsProgram

variable {statements : List Stmt}

theorem isNested (program : IsProgram statements) :
    ∀ site ∈ Stmt.sitesAll [] statements, site.IsNested :=
  program.statements.isNested_of_mem_sitesAll ⟨.global, by simp, by simp⟩ (by simp [Allows])

theorem mem_references {site : Site} (member : site ∈ Stmt.sitesAll [] statements) :
    site.reference ∈ Stmt.referencesAll statements := by
  rw [← Stmt.map_reference_sitesAll [] statements]
  exact List.mem_map_of_mem member

theorem recorded (program : IsProgram statements) {table : Resolution}
    (fresh : ∀ reference ∈ Stmt.referencesAll statements, table[reference.id]? = none)
    {site : Site} (member : site ∈ Stmt.sitesAll [] statements) :
    (resolve statements table).1[site.reference.id]? = site.record? :=
  (resolve_resolves table program.distinct).recorded site member
    (fresh _ (mem_references member))

/-- A program that resolution accepts is sound at every reference. -/
theorem isSound (program : IsProgram statements) {table : Resolution}
    (fresh : ∀ reference ∈ Stmt.referencesAll statements, table[reference.id]? = none)
    (silent : (resolve statements table).2 = []) :
    ∀ site ∈ Stmt.sitesAll [] statements, site.IsSound (resolve statements table).1 := by
  intro site member
  exact Site.isSound (program.isNested site member)
    (program.references _ (mem_references member))
    ((resolve_resolves table program.distinct).permitted silent site member)
    (program.recorded fresh member)

theorem isSearchable (program : IsProgram statements) {table : Resolution}
    (fresh : ∀ reference ∈ Stmt.referencesAll statements, table[reference.id]? = none)
    (settled : ∀ site ∈ Stmt.sitesAll [] statements, site.IsSettled) :
    ∀ site ∈ Stmt.sitesAll [] statements,
      site.reference.IsVariable → site.IsSearchable (resolve statements table).1 := by
  intro site member isVariable
  exact Site.isSearchable (program.isNested site member) isVariable (settled site member)
    (program.recorded fresh member)

end IsProgram

end LoxLang
