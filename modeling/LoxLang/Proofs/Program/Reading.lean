import LoxLang.Program.Parser
import LoxLang.Proofs.Program.Grammar

/-!
What the steps of a parser do to its state.  A parser only moves ahead over
tokens, adds errors and uses up identities, and it gives up only after an error.
Rules for each step carry what is known of a silent reading from one state to the
next.
-/

namespace LoxLang

namespace Parser

open Grammar (Cursor)

def State.cursor (state : State) : Cursor :=
  ⟨state.rest, state.nextId⟩

/-- The kind of the first token of a list; past its end the source is over. -/
def ahead (tokens : List Token) : Token.Kind :=
  (tokens.headD (.endOfSource 0)).kind

@[simp]
theorem ahead_nil : ahead [] = .eof := rfl

@[simp]
theorem ahead_cons (token : Token) (rest : List Token) : ahead (token :: rest) = token.kind := rfl

/-- A first token of a kind other than the end is there. -/
theorem exists_cons_of_ahead {tokens : List Token} {kind : Token.Kind} (real : kind ≠ .eof)
    (found : ahead tokens = kind) :
    ∃ token rest, tokens = token :: rest ∧ token.kind = kind := by
  cases tokens with
  | nil => exact absurd found.symm real
  | cons token rest => exact ⟨token, rest, rfl, found⟩

/-- A reading led from one state to another. -/
structure Advances (before after : State) : Prop where
  taken : ∃ tokens, before.rest = tokens ++ after.rest ∧ ∀ token ∈ tokens, token.kind ≠ .eof
  errors : before.errors <+: after.errors
  nextId : before.nextId ≤ after.nextId

namespace Advances

variable {before middle after : State}

theorem refl (state : State) : Advances state state :=
  ⟨⟨[], rfl, by simp⟩, List.prefix_refl _, Nat.le_refl _⟩

theorem trans (first : Advances before middle) (second : Advances middle after) :
    Advances before after := by
  obtain ⟨firstTokens, firstRest, firstReal⟩ := first.taken
  obtain ⟨secondTokens, secondRest, secondReal⟩ := second.taken
  refine ⟨⟨firstTokens ++ secondTokens, ?_, ?_⟩, first.errors.trans second.errors,
    Nat.le_trans first.nextId second.nextId⟩
  · rw [firstRest, secondRest, List.append_assoc]
  · intro token member
    rcases List.mem_append.mp member with inFirst | inSecond
    · exact firstReal token inFirst
    · exact secondReal token inSecond

/-- A reading that is silent as a whole is silent at both of its parts. -/
theorem silent (first : Advances before middle) (second : Advances middle after)
    (same : after.errors = before.errors) :
    middle.errors = before.errors ∧ after.errors = middle.errors := by
  have back : middle.errors <+: before.errors := by
    rw [← same]
    exact second.errors
  have equal : middle.errors = before.errors := back.eq_of_length_le first.errors.length_le
  exact ⟨equal, same.trans equal.symm⟩

theorem take {token : Token} (real : token.kind ≠ .eof) (rest : List Token)
    (errors : List Diagnostic) (id : RefId) :
    Advances ⟨token :: rest, errors, id⟩ ⟨rest, errors, id⟩ :=
  ⟨⟨[token], rfl, by simpa using real⟩, List.prefix_refl _, Nat.le_refl _⟩

theorem report (tokens : List Token) (errors : List Diagnostic) (id : RefId)
    (error : Diagnostic) :
    Advances ⟨tokens, errors, id⟩ ⟨tokens, errors ++ [error], id⟩ :=
  ⟨⟨[], rfl, by simp⟩, List.prefix_append _ _, Nat.le_refl _⟩

theorem fresh (tokens : List Token) (errors : List Diagnostic) (id : RefId) :
    Advances ⟨tokens, errors, id⟩ ⟨tokens, errors, id + 1⟩ :=
  ⟨⟨[], rfl, by simp⟩, List.prefix_refl _, Nat.le_succ _⟩

end Advances

/-- What a reading from a state may come to: a value after at least `least`
tokens, about which something holds if the reading was silent, or an error. -/
def Reaches {α : Type} (before : State) (least : Nat) (post : State → α → Prop) :
    EStateM.Result Abort State α → Prop
  | .ok value after =>
      Advances before after ∧ after.rest.length + least ≤ before.rest.length ∧
        (after.errors = before.errors → post after value)
  | .error .syntaxError after => Advances before after ∧ after.errors ≠ before.errors
  | .error .bound _ => False

/-- A parser reads on from a state. -/
def Reads {α : Type} (before : State) (action : Parse α) (least : Nat)
    (post : State → α → Prop) : Prop :=
  Reaches before least post (action before)

namespace Reaches

variable {α β : Type} {least : Nat}

theorem weaken {before : State} {post : State → α → Prop} {weaker : State → β → Prop}
    {result : EStateM.Result Abort State α} {changed : EStateM.Result Abort State β}
    (reaches : Reaches before least post result)
    (ok : ∀ value after, result = .ok value after →
      ∃ other, changed = .ok other after ∧ (post after value → weaker after other))
    (error : ∀ abort after, result = .error abort after → changed = .error abort after) :
    Reaches before least weaker changed := by
  cases result with
  | ok value after =>
      obtain ⟨other, rfl, implies⟩ := ok value after rfl
      obtain ⟨advances, length, holds⟩ := reaches
      exact ⟨advances, length, fun silent => implies (holds silent)⟩
  | error abort after =>
      rw [error abort after rfl]
      cases abort with
      | syntaxError => exact reaches
      | bound => exact reaches

/-- A reading before which the state advanced already. -/
theorem advance {before middle : State} {fewer : Nat} {post : State → α → Prop}
    {result : EStateM.Result Abort State α} (advances : Advances before middle)
    (length : middle.rest.length + fewer ≤ before.rest.length)
    (reaches : Reaches middle (least - fewer)
      (fun after value => middle.errors = before.errors → post after value) result) :
    Reaches before least post result := by
  cases result with
  | ok value after =>
      obtain ⟨further, shorter, holds⟩ := reaches
      refine ⟨advances.trans further, by omega, fun silent => ?_⟩
      obtain ⟨first, second⟩ := advances.silent further silent
      exact holds second first
  | error abort after =>
      cases abort with
      | bound => exact reaches
      | syntaxError =>
          obtain ⟨further, reported⟩ := reaches
          exact ⟨advances.trans further,
            fun silent => reported (advances.silent further silent).2⟩

end Reaches

namespace Reads

variable {α β : Type} {tokens : List Token} {errors : List Diagnostic} {id : RefId}
  {least : Nat}

theorem weaken {before : State} {action : Parse α} {post weaker : State → α → Prop}
    (reads : Reads before action least post)
    (implies : ∀ after value, post after value → weaker after value) :
    Reads before action least weaker :=
  Reaches.weaken reads (fun value after result => ⟨value, result, implies after value⟩)
    fun _ _ result => result

theorem relax {before : State} {action : Parse α} {fewer : Nat} {post : State → α → Prop}
    (reads : Reads before action least post) (less : fewer ≤ least) :
    Reads before action fewer post := by
  unfold Reads at reads ⊢
  cases result : action before with
  | ok value after =>
      rw [result] at reads
      exact ⟨reads.1, Nat.le_trans (Nat.add_le_add_left less _) reads.2.1, reads.2.2⟩
  | error abort after =>
      rw [result] at reads
      cases abort with
      | syntaxError => exact reads
      | bound => exact reads

/-- Readings follow each other.  What the first one yields is known when all of
it was silent. -/
theorem bind {action : Parse α} {next : α → Parse β} {fewer : Nat}
    {middle : State → α → Prop} {post : State → β → Prop}
    (first : Reads ⟨tokens, errors, id⟩ action fewer middle)
    (second : ∀ tokens' errors' id' value,
      Advances ⟨tokens, errors, id⟩ ⟨tokens', errors', id'⟩ →
      tokens'.length + fewer ≤ tokens.length →
        Reads ⟨tokens', errors', id'⟩ (next value) (least - fewer)
          fun after result => middle ⟨tokens', errors', id'⟩ value → post after result) :
    Reads ⟨tokens, errors, id⟩ (action >>= next) least post := by
  unfold Reads at first ⊢
  simp only [Bind.bind, EStateM.bind]
  cases result : action ⟨tokens, errors, id⟩ with
  | ok value between =>
      rw [result] at first
      obtain ⟨advances, length, holds⟩ := first
      obtain ⟨tokens', errors', id'⟩ := between
      apply Reaches.advance advances length
      apply (second tokens' errors' id' value advances length).weaken
      intro after final implies silent
      exact implies (holds silent)
  | error abort between =>
      rw [result] at first
      cases abort with
      | syntaxError => exact first
      | bound => exact first

theorem pure {before : State} {value : α} {post : State → α → Prop} (enough : least = 0)
    (holds : post before value) : Reads before (pure value) least post := by
  subst enough
  exact ⟨.refl before, Nat.le_refl _, fun _ => holds⟩

theorem fail {cause : Diagnostic.Cause} {post : State → α → Prop} :
    Reads ⟨tokens, errors, id⟩ (Parser.fail cause) least post :=
  ⟨.report tokens errors id _, by simp⟩

theorem ofTake {token : Token} {rest : List Token} {action next : Parse α}
    {post : State → α → Prop} (real : token.kind ≠ .eof)
    (result : action ⟨token :: rest, errors, id⟩ = next ⟨rest, errors, id⟩)
    (reads : Reads ⟨rest, errors, id⟩ next (least - 1) post) :
    Reads ⟨token :: rest, errors, id⟩ action least post := by
  unfold Reads
  rw [result]
  exact Reaches.advance (.take real rest errors id) (by simp)
    (reads.weaken fun _ _ holds _ => holds)

/-- Going on after an error: the reading is not silent. -/
theorem ofReport {error : Diagnostic} {action next : Parse α} {post : State → α → Prop}
    (result : action ⟨tokens, errors, id⟩ = next ⟨tokens, errors ++ [error], id⟩)
    (reads : Reads ⟨tokens, errors ++ [error], id⟩ next least fun _ _ => True) :
    Reads ⟨tokens, errors, id⟩ action least post := by
  have length : tokens.length + 0 ≤ tokens.length := Nat.le_refl _
  unfold Reads
  rw [result]
  exact Reaches.advance (.report tokens errors id error) length
    (reads.weaken fun _ _ _ silent => by simp at silent)

theorem freshId {next : RefId → Parse α} {post : State → α → Prop}
    (reads : Reads ⟨tokens, errors, id + 1⟩ (next id) least post) :
    Reads ⟨tokens, errors, id⟩ (Parser.freshId >>= next) least post := by
  have length : tokens.length + 0 ≤ tokens.length := Nat.le_refl _
  exact Reaches.advance (.fresh tokens errors id) length (reads.weaken fun _ _ holds _ => holds)

theorem peek {next : Token → Parse α} {post : State → α → Prop}
    (reads : Reads ⟨tokens, errors, id⟩ (next (tokens.headD (.endOfSource 0))) least post) :
    Reads ⟨tokens, errors, id⟩ (Parser.peek >>= next) least post :=
  reads

theorem skip {token : Token} {rest : List Token} {next : Unit → Parse α}
    {post : State → α → Prop} (real : token.kind ≠ .eof)
    (reads : Reads ⟨rest, errors, id⟩ (next ()) (least - 1) post) :
    Reads ⟨token :: rest, errors, id⟩ (Parser.skip >>= next) least post :=
  ofTake real rfl reads

theorem atEnd {next : Bool → Parse α} {post : State → α → Prop}
    (reads : Reads ⟨tokens, errors, id⟩ (next (ahead tokens = .eof)) least post) :
    Reads ⟨tokens, errors, id⟩ (Parser.atEnd >>= next) least post :=
  reads

end Reads

/-- Only the kind of the next token is checked. -/
theorem check_apply {kind : Token.Kind} (real : kind ≠ .eof) (state : State) :
    check kind state = .ok (decide (ahead state.rest = kind)) state := by
  have same : (decide (ahead state.rest ≠ .eof) && decide (ahead state.rest = kind)) =
      decide (ahead state.rest = kind) := by
    by_cases found : ahead state.rest = kind
    · simp [found, real]
    · simp [found]
  rw [← same]
  rfl

theorem atEnd_apply (state : State) :
    atEnd state = .ok (decide (ahead state.rest = .eof)) state := rfl

theorem accept_of_eq {token : Token} {kind : Token.Kind} (real : kind ≠ .eof)
    (found : token.kind = kind) (rest : List Token) (errors : List Diagnostic) (id : RefId) :
    accept kind ⟨token :: rest, errors, id⟩ = .ok (some token) ⟨rest, errors, id⟩ := by
  have checked := check_apply real ⟨token :: rest, errors, id⟩
  simp only [ahead_cons, found, decide_true] at checked
  simp only [accept, Bind.bind, EStateM.bind, Parser.peek, checked]
  rfl

theorem accept_of_ne {tokens : List Token} {kind : Token.Kind} (real : kind ≠ .eof)
    (other : ahead tokens ≠ kind) (errors : List Diagnostic) (id : RefId) :
    accept kind ⟨tokens, errors, id⟩ = .ok none ⟨tokens, errors, id⟩ := by
  have checked := check_apply real ⟨tokens, errors, id⟩
  simp only [other, decide_false] at checked
  simp only [accept, Bind.bind, EStateM.bind, Parser.peek, checked]
  rfl

theorem acceptWith_of_some {α : Type} {choose : Token.Kind → Option α} {token : Token}
    {chosen : α} (found : choose token.kind = some chosen) (rest : List Token)
    (errors : List Diagnostic) (id : RefId) :
    acceptWith choose ⟨token :: rest, errors, id⟩ =
      .ok (some (chosen, token.line)) ⟨rest, errors, id⟩ := by
  simp only [acceptWith, Bind.bind, EStateM.bind, Parser.peek, List.headD_cons, found]
  rfl

theorem acceptWith_of_none {α : Type} {choose : Token.Kind → Option α} {tokens : List Token}
    (found : choose (ahead tokens) = none) (errors : List Diagnostic) (id : RefId) :
    acceptWith choose ⟨tokens, errors, id⟩ = .ok none ⟨tokens, errors, id⟩ := by
  unfold ahead at found
  simp only [acceptWith, Bind.bind, EStateM.bind, Parser.peek, found]
  rfl

theorem bind_of_ok {α β : Type} {action : Parse α} {value : α} {before after : State}
    (next : α → Parse β) (result : action before = .ok value after) :
    (action >>= next) before = next value after := by
  simp only [Bind.bind, EStateM.bind, result]

/-- The next token decides how to go on. -/
theorem peek_of_eq {β : Type} {token : Token} {rest : List Token} {errors : List Diagnostic}
    {id : RefId} {next : Token → Parse β} {chosen : Parse β} (same : next token = chosen) :
    (peek >>= next) ⟨token :: rest, errors, id⟩ = chosen ⟨token :: rest, errors, id⟩ := by
  rw [← same]
  rfl

/-- A token that is looked at and then passed over. -/
theorem peek_skip {β : Type} {token : Token} {rest : List Token} {errors : List Diagnostic}
    {id : RefId} (next : Token → Parse β) (after : Parse β)
    (chosen : next token = skip >>= fun _ => after) :
    (peek >>= next) ⟨token :: rest, errors, id⟩ = after ⟨rest, errors, id⟩ := by
  rw [peek_of_eq chosen]
  rfl

theorem expect_of_eq {token : Token} {kind : Token.Kind} (real : kind ≠ .eof)
    (found : token.kind = kind) (cause : Diagnostic.Cause) (rest : List Token)
    (errors : List Diagnostic) (id : RefId) :
    expect kind cause ⟨token :: rest, errors, id⟩ = .ok token ⟨rest, errors, id⟩ := by
  unfold expect
  rw [bind_of_ok _ (accept_of_eq real found rest errors id)]
  rfl

theorem expectName_of_eq {token : Token} (found : token.kind = .identifier)
    (cause : Diagnostic.Cause) (rest : List Token) (errors : List Diagnostic) (id : RefId) :
    expectName cause ⟨token :: rest, errors, id⟩ =
      .ok (Grammar.nameOf token) ⟨rest, errors, id⟩ := by
  unfold expectName
  rw [bind_of_ok _ (expect_of_eq (by decide) found cause rest errors id)]
  rfl

namespace Reads

variable {α β : Type} {tokens : List Token} {errors : List Diagnostic} {id : RefId}
  {least : Nat} {post : State → β → Prop}

theorem check {kind : Token.Kind} {next : Bool → Parse β} (real : kind ≠ .eof)
    (reads : Reads ⟨tokens, errors, id⟩ (next (ahead tokens = kind)) least post) :
    Reads ⟨tokens, errors, id⟩ (Parser.check kind >>= next) least post := by
  unfold Reads
  rw [bind_of_ok next (check_apply real _)]
  exact reads

/-- A token of a kind is taken, or the parser goes on without it. -/
theorem accept {kind : Token.Kind} {next : Option Token → Parse β} (real : kind ≠ .eof)
    (taken : ∀ token rest, tokens = token :: rest → token.kind = kind →
      Reads ⟨rest, errors, id⟩ (next (some token)) (least - 1) post)
    (left : ahead tokens ≠ kind → Reads ⟨tokens, errors, id⟩ (next none) least post) :
    Reads ⟨tokens, errors, id⟩ (Parser.accept kind >>= next) least post := by
  by_cases found : ahead tokens = kind
  · obtain ⟨token, rest, rfl, isKind⟩ := exists_cons_of_ahead real found
    exact ofTake (by rw [isKind]; exact real)
      (bind_of_ok next (accept_of_eq real isKind rest errors id)) (taken token rest rfl isKind)
  · unfold Reads
    rw [bind_of_ok next (accept_of_ne real found errors id)]
    exact left found

/-- A token that is selected is taken, or the parser goes on without it. -/
theorem acceptWith {choose : Token.Kind → Option α} {next : Option (α × Nat) → Parse β}
    (real : choose .eof = none)
    (taken : ∀ token rest chosen, tokens = token :: rest → choose token.kind = some chosen →
      Reads ⟨rest, errors, id⟩ (next (some (chosen, token.line))) (least - 1) post)
    (left : choose (ahead tokens) = none →
      Reads ⟨tokens, errors, id⟩ (next none) least post) :
    Reads ⟨tokens, errors, id⟩ (Parser.acceptWith choose >>= next) least post := by
  cases found : choose (ahead tokens) with
  | none =>
      unfold Reads
      rw [bind_of_ok next (acceptWith_of_none found errors id)]
      exact left found
  | some chosen =>
      cases tokens with
      | nil => simp [real] at found
      | cons token rest =>
          have notEnd : token.kind ≠ .eof := by
            intro isEnd
            rw [ahead_cons, isEnd, real] at found
            cases found
          exact ofTake notEnd (bind_of_ok next (acceptWith_of_some found rest errors id))
            (taken token rest chosen rfl found)

/-- A token that has to be there is taken, or its absence is reported. -/
theorem expect {kind : Token.Kind} {cause : Diagnostic.Cause} {next : Token → Parse β}
    (real : kind ≠ .eof)
    (taken : ∀ token rest, tokens = token :: rest → token.kind = kind →
      Reads ⟨rest, errors, id⟩ (next token) (least - 1) post) :
    Reads ⟨tokens, errors, id⟩ (Parser.expect kind cause >>= next) least post := by
  unfold Parser.expect
  rw [bind_assoc]
  apply Reads.accept real
  · intro token rest same isKind
    exact taken token rest same isKind
  · intro _
    exact ⟨.report tokens errors id _, by simp⟩

theorem expectName {cause : Diagnostic.Cause} {next : Name → Parse β}
    (taken : ∀ token rest, tokens = token :: rest → token.kind = .identifier →
      Reads ⟨rest, errors, id⟩ (next (Grammar.nameOf token)) (least - 1) post) :
    Reads ⟨tokens, errors, id⟩ (Parser.expectName cause >>= next) least post := by
  unfold Parser.expectName
  rw [bind_assoc]
  apply Reads.expect (by decide)
  intro token rest same isName
  exact taken token rest same isName

theorem report {token : Token} {cause : Diagnostic.Cause} {next : Unit → Parse β}
    (reads : Reads ⟨tokens, errors ++ [.atToken token cause], id⟩ (next ()) least
      fun _ _ => True) :
    Reads ⟨tokens, errors, id⟩ (Parser.report token cause >>= next) least post :=
  ofReport rfl reads

end Reads

end Parser

end LoxLang
