import LoxLang.Proofs.Session.Code
import LoxLang.Session.Basic

/-!
Recorded distances against searches.  When no variable stands before the
declaration of its name in a scope around it, evaluation at the recorded
distances and evaluation by a search along the frames do the same.
-/

namespace LoxLang

open Scope

/-- Source without a static error, as the first of a session. -/
structure IsAccepted (source : Bytes) : Prop where
  scanned : (scan source).errors = []
  parsed : (parse (scan source).tokens 0).errors = []
  resolved : (resolve (parse (scan source).tokens 0).statements {}).2 = []

/-- An accepted program whose variables are all declared before they are named
runs the same whether variables are read and assigned at their recorded distance
or are searched for from the active frame: it ends in the same way, on the same
error if any, and leaves the same machine with all that was printed. -/
theorem interpret_searched_eq_recorded {source : Bytes} (accepted : IsAccepted source)
    (settled : ∀ site ∈ Stmt.sitesAll [] (parse (scan source).tokens 0).statements,
      site.IsSettled)
    (fuel : Nat) (interactive : Bool) (input : Input) (clock : Nat → Float) :
    let statements := (parse (scan source).tokens 0).statements
    let table := (resolve statements {}).1
    Eval.interpret ⟨table, .searched⟩ fuel interactive statements (.initial input clock) =
      Eval.interpret ⟨table, .recorded⟩ fuel interactive statements (.initial input clock) := by
  intro statements table
  let code : Code := ⟨table, (parse (scan source).tokens 0).nextId, True⟩
  let before : Config := ⟨fun _ => [], .initial input clock⟩
  have fresh : IsFresh {} 0 := fun id _ => Std.HashMap.getElem?_empty
  have accepts : code.AcceptsAll [] statements :=
    Code.acceptsAll_resolve fresh (named_scan source) accepted.parsed accepted.resolved True
      fun _ => settled
  have starts : before.Conforms code := Conforms.initial code before.layout
  have fits : before.Fits [] := rfl
  exact (Runs.interpret fuel interactive starts fits accepts).1 trivial

/-- A closure reads and assigns a variable of the block around it, with another
of that name outside. -/
theorem interpret_searched_eq_recorded_closure :
    let source := Bytes.ofString "var a=true;{var a;fun f(){print a;a=false;}f();f();}print a;"
    let statements := (parse (scan source).tokens 0).statements
    let table := (resolve statements {}).1
    IsAccepted source ∧ (∀ site ∈ Stmt.sitesAll [] statements, site.IsSettled) ∧
    (match Eval.interpret ⟨table, .recorded⟩ 20 false statements
        (.initial (.ofBytes []) fun _ => 0) with
      | .ok () machine => some machine.printed.toList
      | .error _ _ => none) =
      some [Bytes.ofString "nil", Bytes.ofString "false", Bytes.ofString "true"] := by
  intro source statements table
  have accepted : IsAccepted source := ⟨by decide +kernel, by decide +kernel, by decide +kernel⟩
  have settled : ∀ site ∈ Stmt.sitesAll [] statements, site.IsSettled := by decide +kernel
  refine ⟨accepted, settled, ?_⟩
  rw [← interpret_searched_eq_recorded accepted settled]
  decide +kernel

end LoxLang
