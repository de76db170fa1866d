import LoxLang.Proofs.Eval.Likeness

/-!
Machines between executions.  The global frame is active again, and two machines that
correspond can execute the next program, also when what is taken to correspond changes
from one program to the next.
-/

namespace LoxLang

/-- Heaps that correspond on one account do on another, when the other carries over
to the code of every function. -/
theorem Twins.Correspond.imp {like other : Likeness} {twins : Twins}
    (same : twins.Correspond like)
    (carries : ∀ id < twins.left.closures.size,
      like.Carries other (twins.left.closure id).declaration.tokens) :
    twins.Correspond other := by
  have holds {inner : Spellings → Spellings} {id : ClosureId}
      (held : twins.Holds like inner id) : twins.Holds other inner id :=
    ⟨held.bound, held.within, held.frame, held.initializer,
      held.declaration.imp (carries id held.bound)⟩
  exact ⟨same.frames, same.ordered, same.rooted, same.global, same.closures, same.classes,
    same.objects, fun frame name value found id function =>
      holds (same.bound frame name value found id function),
    fun place name value found id function =>
      holds (same.fields place name value found id function),
    fun type name id found => holds (same.methods type name id found)⟩

/-- Two machines that correspond, with the global frame active. -/
def Machine.Alike (like : Likeness) (machine other : Machine) : Prop :=
  ∃ spellings, Pair.Correspond like ⟨spellings, machine, other⟩ ∧ machine.active = Heap.globals

/-- Two executions end in the same way, on machines that are alike. -/
inductive Machine.EndsAlike (like : Likeness) :
    EStateM.Result Stop Machine Unit → EStateM.Result Stop Machine Unit → Prop where
  | ok {machine other : Machine} : machine.Alike like other →
      EndsAlike like (.ok () machine) (.ok () other)
  | error {stop otherStop : Stop} {machine other : Machine} : Stop.Alike like stop otherStop →
      machine.Alike like other → EndsAlike like (.error stop machine) (.error otherStop other)

namespace Machine.Alike

variable {like further : Likeness} {machine other : Machine}

theorem imp (alike : machine.Alike like other)
    (carries : ∀ id < machine.heap.closures.size,
      like.Carries further (machine.heap.closure id).declaration.tokens) :
    machine.Alike further other := by
  obtain ⟨spellings, same, active⟩ := alike
  exact ⟨spellings, ⟨same.heaps.imp carries, same.active, same.within, same.depth, same.input,
    same.printed, same.clock, same.ticks⟩, active⟩

theorem input (alike : machine.Alike like other) : other.input = machine.input := by
  obtain ⟨_, same, -⟩ := alike
  exact same.input

theorem printed (alike : machine.Alike like other) : other.printed = machine.printed := by
  obtain ⟨_, same, -⟩ := alike
  exact same.printed

/-- The global frame can be made active on both sides. -/
theorem global (alike : machine.Alike like other) :
    { machine with active := Heap.globals }.Alike like { other with active := Heap.globals } := by
  obtain ⟨spellings, same, -⟩ := alike
  exact ⟨spellings, { same with active := rfl, within := same.heaps.rooted }, rfl⟩

/-- What was printed can be dropped on both sides. -/
theorem drain (alike : machine.Alike like other) :
    { machine with printed := #[] }.Alike like { other with printed := #[] } := by
  obtain ⟨spellings, same, active⟩ := alike
  exact ⟨spellings, ⟨same.heaps, same.active, same.within, same.depth, same.input, rfl,
    same.clock, same.ticks⟩, active⟩

/-- At the top level every name is spelled as it is. -/
theorem around_eq_same {spellings : FrameId → Spelling}
    (same : Pair.Correspond like ⟨spellings, machine, other⟩)
    (active : machine.active = Heap.globals) :
    (Pair.mk spellings machine other).around = .same := by
  unfold Pair.around
  dsimp only
  rw [active]
  funext distance
  cases distance with
  | zero => exact same.heaps.global
  | succ distance =>
      have outermost : machine.heap.frames.enclosing? Heap.globals = none :=
        same.ordered.enclosing?_zero
      simp only [Twins.around, Frames.spellingsAt, Pair.twins, outermost]
      rfl

/-- Alike programs end alike. -/
theorem interpret (alike : machine.Alike like other) {table otherTable : Resolution}
    (agrees : like.Agrees table otherTable) {statements images : List Stmt}
    (trees : Stmt.AlikeAll like .same statements images) (fuel : Nat) (interactive : Bool) :
    EndsAlike like (Eval.interpret ⟨table, .recorded⟩ fuel interactive statements machine)
      (Eval.interpret ⟨otherTable, .recorded⟩ fuel interactive images other) := by
  obtain ⟨spellings, same, active⟩ := alike
  have parallel := Parallel.interpret agrees fuel interactive same
    (around_eq_same same active) trees
  unfold Parallel at parallel
  dsimp only at parallel
  generalize Eval.interpret _ fuel interactive statements machine = result at parallel ⊢
  generalize Eval.interpret _ fuel interactive images other = otherResult at parallel ⊢
  cases parallel with
  | ok after leads _ => exact .ok ⟨after.spellings, leads.same, leads.active.trans active⟩
  | error after leads stops =>
      exact .error stops ⟨after.spellings, leads.same, leads.active.trans active⟩

end Machine.Alike

namespace Likeness

/-- Every name as it is, with identities related on their own. -/
def plain (tokens : Token → Token → Prop) (ids : RefId → RefId → Prop) : Likeness :=
  ⟨tokens, fun around id text otherId otherText =>
    around = .same ∧ ids id otherId ∧ otherText = text⟩

theorem plain_agrees {tokens : Token → Token → Prop} {ids : RefId → RefId → Prop}
    {table other : Resolution}
    (record : ∀ {id otherId : RefId}, ids id otherId → other[otherId]? = table[id]?) :
    (plain tokens ids).Agrees table other where
  record link := record link.2.1
  held link distance _ := by
    rw [link.1]
    exact link.2.2
  global link _ := link.2.2

theorem plain_carries {tokens others : Token → Token → Prop} {ids otherIds : RefId → RefId → Prop}
    {code : List Token} (links : ∀ {id otherId : RefId}, ids id otherId → otherIds id otherId)
    (carried : ∀ token ∈ code, ∀ image, tokens token image → others token image) :
    (plain tokens ids).Carries (plain others otherIds) code :=
  ⟨fun link => ⟨link.1, links link.2.1, link.2.2⟩, carried⟩

/-- A tree is alike its relabelling when the labels correspond. -/
theorem plain_admits {tokens : Token → Token → Prop} {ids : RefId → RefId → Prop}
    {labels : Relabelling} {code : List Token} {references : List Reference}
    (carried : ∀ token ∈ code, tokens token (labels.token token))
    (related : ∀ reference ∈ references, ids reference.id (labels.ids reference.id)) :
    (plain tokens ids).Admits labels code references :=
  ⟨carried, fun reference member => ⟨rfl, related reference member, rfl⟩⟩

end Likeness

/-- Stops at equal tokens are equal. -/
theorem Stop.Alike.eq {ids : RefId → RefId → Prop} {stop other : Stop}
    (alike : Stop.Alike (.plain Eq ids) stop other) : other = stop := by
  cases alike with
  | fault tokens =>
      cases tokens
      rfl
  | desync => rfl
  | missing tokens =>
      have texts := congrArg Token.lexeme tokens
      exact congrArg (fun text => Stop.desync (.nameMissing text _)) texts.symm
  | outOfFuel => rfl

end LoxLang
