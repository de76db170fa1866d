import LoxLang.Proofs.Program.Completeness
import LoxLang.Proofs.Program.Indexed
import LoxLang.Proofs.Program.Relabel

/-!
Parsing by position keeps in step with parsing what is left.  As long as the last token
alone ends the source, the position is that of the first token left, no token is looked for
outside the list, and both parsers end alike.  Lines are labels: those of the tokens that are
read by position may be any function of the others.
-/

namespace LoxLang

open Grammar (EndsOnce)

/-- The same identities on other lines. -/
def Relabelling.ofLines (lines : Nat → Nat) : Relabelling :=
  ⟨fun id => id, lines⟩

theorem Relabelling.kind_token (labels : Relabelling) (token : Token) :
    (labels.token token).kind = token.kind := rfl

namespace Parser

open Relabelling (ofLines)

def Abort.indexed : Abort → Indexed.Parser.Abort
  | .syntaxError => .syntaxError
  | .bound => .bound

/-- What is left is an end of a list that the last token ends, with that token at least. -/
structure State.Within (whole : List Token) (state : State) : Prop where
  ended : EndsOnce whole
  nonempty : state.rest ≠ []
  suffix : state.rest <:+ whole

/-- The same place by its position in the whole list, with other lines. -/
def State.indexed (whole : List Token) (lines : Nat → Nat) (state : State) :
    Indexed.Parser.State :=
  ⟨whole.map (ofLines lines).token, whole.length - state.rest.length,
    state.errors.map (ofLines lines).diagnostic, state.nextId⟩

/-- How two parsers end that keep in step. -/
inductive EndsInStep {α β : Type} (whole : List Token) (lines : Nat → Nat) (image : α → β) :
    EStateM.Result Abort State α →
      EStateM.Result Indexed.Parser.Abort Indexed.Parser.State β → Prop where
  | ok {value : α} {after : State} : after.Within whole →
      EndsInStep whole lines image (.ok value after) (.ok (image value) (after.indexed whole lines))
  | error {abort : Abort} {after : State} : after.Within whole →
      EndsInStep whole lines image (.error abort after)
        (.error abort.indexed (after.indexed whole lines))

/-- A parser by position keeps in step with one of what is left. -/
def Follows {α β : Type} (whole : List Token) (lines : Nat → Nat) (before : State)
    (action : Parse α) (other : Indexed.Parser.Parse β) (image : α → β) : Prop :=
  before.Within whole →
    EndsInStep whole lines image (action before) (other (before.indexed whole lines))

section Tokens

variable {whole rest : List Token} {token : Token} {lines : Nat → Nat}

theorem getElem?_of_suffix (suffix : token :: rest <:+ whole) :
    whole[whole.length - (rest.length + 1)]? = some token := by
  obtain ⟨passed, rfl⟩ := suffix
  have position : (passed ++ token :: rest).length - (rest.length + 1) = passed.length := by
    rw [List.length_append, List.length_cons, Nat.add_sub_cancel]
  rw [position, List.getElem?_append_right (Nat.le_refl _), Nat.sub_self]
  rfl

/-- A token that does not end the source is not the last one. -/
theorem ne_nil_of_suffix (ended : EndsOnce whole) (suffix : token :: rest <:+ whole)
    (real : token.kind ≠ .eof) : rest ≠ [] := by
  rintro rfl
  obtain ⟨body, last, rfl, isEnd, -⟩ := ended
  obtain ⟨passed, same⟩ := suffix
  obtain ⟨-, equal⟩ := List.append_inj' same rfl
  obtain rfl : token = last := List.head_eq_of_cons_eq equal
  exact real isEnd

/-- Only the last token ends the source. -/
theorem kind_ne_eof_of_suffix {next : Token} (ended : EndsOnce whole)
    (suffix : token :: next :: rest <:+ whole) : token.kind ≠ .eof := by
  obtain ⟨body, last, rfl, -, real⟩ := ended
  obtain ⟨passed, same⟩ := suffix
  have inBody := congrArg List.dropLast same
  rw [List.dropLast_concat, List.dropLast_append_of_ne_nil (List.cons_ne_nil _ _),
    List.dropLast_cons_of_ne_nil (List.cons_ne_nil _ _)] at inBody
  refine real token ?_
  rw [← inBody]
  exact List.mem_append_right _ List.mem_cons_self

/-- Before an end that is not the whole list there is a token. -/
theorem exists_cons_suffix (suffix : rest <:+ whole) (shorter : rest.length < whole.length) :
    ∃ first, first :: rest <:+ whole := by
  obtain ⟨passed, rfl⟩ := suffix
  rcases List.eq_nil_or_concat passed with rfl | ⟨others, first, rfl⟩
  · exact absurd shorter (Nat.lt_irrefl _)
  · exact ⟨first, others, by simp⟩

namespace State.Within

variable {state : State}

theorem next (within : state.Within whole) (ahead : state.rest = token :: rest)
    (real : token.kind ≠ .eof) : State.Within whole { state with rest := rest } where
  ended := within.ended
  nonempty := ne_nil_of_suffix within.ended (ahead ▸ within.suffix) real
  suffix := (List.suffix_cons token rest).trans (ahead ▸ within.suffix)

theorem exists_cons (within : state.Within whole) : ∃ token rest, state.rest = token :: rest :=
  List.exists_cons_of_ne_nil within.nonempty

theorem length_le (within : state.Within whole) : state.rest.length ≤ whole.length :=
  within.suffix.length_le

theorem synchronize (within : state.Within whole) :
    State.Within whole { state with rest := Parser.synchronize state.rest } := by
  obtain ⟨passed, same, real, -⟩ := exists_synchronize state.rest
  refine ⟨within.ended, fun none_ => ?_, .trans ⟨passed, same.symm⟩ within.suffix⟩
  dsimp only at none_
  rw [none_, List.append_nil] at same
  obtain ⟨body, last, rfl, isEnd, -⟩ := within.ended
  have lastLeft := within.suffix.getLast within.nonempty
  rw [List.getLast_concat] at lastLeft
  refine real last ?_ isEnd
  rw [← same, ← lastLeft]
  exact List.getLast_mem _

end State.Within

end Tokens

section Steps

variable {whole rest : List Token} {token : Token} {lines : Nat → Nat} {state : State}

theorem indexed_bind_of_ok {α β : Type} {action : Indexed.Parser.Parse α} {value : α}
    {before after : Indexed.Parser.State} (next : α → Indexed.Parser.Parse β)
    (result : action before = .ok value after) : (action >>= next) before = next value after := by
  simp only [Bind.bind, EStateM.bind, result]

theorem tokenAt_indexed (suffix : token :: rest <:+ whole) :
    Indexed.Parser.tokenAt (whole.length - (rest.length + 1)) (state.indexed whole lines) =
      .ok ((ofLines lines).token token) (state.indexed whole lines) := by
  simp only [Indexed.Parser.tokenAt, State.indexed, List.getElem?_map, getElem?_of_suffix suffix,
    Option.map_some]

theorem peek_indexed (within : state.Within whole) (ahead : state.rest = token :: rest) :
    Indexed.Parser.peek (state.indexed whole lines) =
      .ok ((ofLines lines).token token) (state.indexed whole lines) := by
  have found := @tokenAt_indexed whole rest token lines state (ahead ▸ within.suffix)
  rw [← List.length_cons, ← ahead] at found
  exact found

theorem previous_indexed (suffix : token :: rest <:+ whole) (ahead : state.rest = rest) :
    Indexed.Parser.previous (state.indexed whole lines) =
      .ok ((ofLines lines).token token) (state.indexed whole lines) := by
  have length := suffix.length_le
  rw [List.length_cons] at length
  have position : (state.indexed whole lines).current = whole.length - (rest.length + 1) + 1 := by
    simp only [State.indexed, ahead]
    omega
  have found := @tokenAt_indexed whole rest token lines state suffix
  have here : (get : Indexed.Parser.Parse Indexed.Parser.State) (state.indexed whole lines) =
      .ok (state.indexed whole lines) (state.indexed whole lines) := rfl
  rw [Indexed.Parser.previous, indexed_bind_of_ok _ here, position]
  exact found

theorem step_indexed (within : state.Within whole) (ahead : state.rest = token :: rest)
    (real : token.kind ≠ .eof) : Indexed.Parser.step (state.indexed whole lines) =
      .ok () (State.indexed whole lines { state with rest := rest }) := by
  have positive := List.length_pos_iff.mpr (within.next ahead real).nonempty
  have length := within.length_le
  rw [ahead, List.length_cons] at length
  dsimp only at positive
  have position : whole.length - state.rest.length + 1 = whole.length - rest.length := by
    rw [ahead, List.length_cons]
    omega
  have inside : whole.length - rest.length < whole.length := by omega
  simp only [Indexed.Parser.step, State.indexed, List.length_map, position, if_pos inside]

theorem take_indexed (within : state.Within whole) (ahead : state.rest = token :: rest)
    (real : token.kind ≠ .eof) : Indexed.Parser.take (state.indexed whole lines) =
      .ok ((ofLines lines).token token)
        (State.indexed whole lines { state with rest := rest }) :=
  (indexed_bind_of_ok _ (step_indexed within ahead real)).trans
    (previous_indexed (ahead ▸ within.suffix) rfl)

theorem atEnd_indexed (within : state.Within whole) (ahead : state.rest = token :: rest) :
    Indexed.Parser.atEnd (state.indexed whole lines) =
      .ok (decide (token.kind = .eof)) (state.indexed whole lines) := by
  rw [Indexed.Parser.atEnd, indexed_bind_of_ok _ (peek_indexed within ahead)]
  rfl

theorem check_indexed (within : state.Within whole) (ahead : state.rest = token :: rest)
    (kind : Token.Kind) : Indexed.Parser.check kind (state.indexed whole lines) =
      .ok (token.kind ≠ .eof && token.kind = kind) (state.indexed whole lines) := by
  rw [Indexed.Parser.check, indexed_bind_of_ok _ (atEnd_indexed within ahead)]
  by_cases isEnd : token.kind = .eof
  · simp only [isEnd, decide_true, if_true, ne_eq, not_true, decide_false, Bool.false_and]
    rfl
  · simp only [isEnd, decide_false, Bool.false_eq_true, if_false, ne_eq, not_false_eq_true,
      decide_true, Bool.true_and]
    rw [indexed_bind_of_ok _ (peek_indexed within ahead)]
    rfl

theorem advance_indexed (within : state.Within whole) (ahead : state.rest = token :: rest)
    (real : token.kind ≠ .eof) : Indexed.Parser.advance (state.indexed whole lines) =
      .ok ((ofLines lines).token token)
        (State.indexed whole lines { state with rest := rest }) := by
  rw [Indexed.Parser.advance, indexed_bind_of_ok _ (atEnd_indexed within ahead),
    if_neg (by simpa using real)]
  exact take_indexed within ahead real

theorem peek_of_cons (ahead : state.rest = token :: rest) : peek state = .ok token state := by
  simp only [peek, ahead, List.headD_cons]

theorem atEnd_of_cons (ahead : state.rest = token :: rest) :
    atEnd state = .ok (decide (token.kind = .eof)) state :=
  bind_of_ok _ (peek_of_cons ahead)

theorem skip_of_cons (ahead : state.rest = token :: rest) :
    skip state = .ok () { state with rest := rest } := by
  change EStateM.Result.ok () { state with rest := state.rest.drop 1 } = _
  rw [ahead, List.drop_one, List.tail_cons]

theorem check_of_cons (ahead : state.rest = token :: rest) (kind : Token.Kind) :
    check kind state = .ok (token.kind ≠ .eof && token.kind = kind) state :=
  bind_of_ok _ (peek_of_cons ahead)

theorem expect_of_cons (ahead : state.rest = token :: rest) (kind : Token.Kind)
    (cause : Diagnostic.Cause) : expect kind cause state =
      if token.kind ≠ .eof && token.kind = kind then .ok token { state with rest := rest }
      else fail cause state := by
  rw [expect, accept, bind_assoc, bind_of_ok _ (peek_of_cons ahead), bind_assoc,
    bind_of_ok _ (check_of_cons ahead kind)]
  split
  · rw [bind_assoc, bind_of_ok _ (skip_of_cons ahead)]
    rfl
  · rfl

end Steps

namespace Follows

variable {α β γ δ : Type} {whole : List Token} {lines : Nat → Nat} {before : State}

theorem bind {action : Parse α} {other : Indexed.Parser.Parse β} {middle : α → β}
    {next : α → Parse γ} {otherNext : β → Indexed.Parser.Parse δ} {image : γ → δ}
    (start : Follows whole lines before action other middle)
    (continues : ∀ between value,
      Follows whole lines between (next value) (otherNext (middle value)) image) :
    Follows whole lines before (action >>= next) (other >>= otherNext) image := by
  intro within
  have ends := start within
  simp only [Bind.bind, EStateM.bind]
  generalize action before = result at ends ⊢
  generalize other (before.indexed whole lines) = otherResult at ends ⊢
  cases ends with
  | error inside => exact .error inside
  | ok inside => exact continues _ _ inside

theorem pure {image : α → β} (value : α) :
    Follows whole lines before (pure value) (pure (image value)) image :=
  fun within => .ok within

theorem throwBound {image : α → β} :
    Follows whole lines before (throw .bound) (throw .bound) image :=
  fun within => @EndsInStep.error _ _ _ _ _ .bound _ within

/-- The next token decides how to go on. -/
theorem peek {next : Token → Parse α} {otherNext : Token → Indexed.Parser.Parse β} {image : α → β}
    (continues : ∀ token rest, before.rest = token :: rest → Follows whole lines before
      (next token) (otherNext ((ofLines lines).token token)) image) :
    Follows whole lines before (Parser.peek >>= next) (Indexed.Parser.peek >>= otherNext) image := by
  intro within
  obtain ⟨token, rest, ahead⟩ := within.exists_cons
  rw [bind_of_ok _ (peek_of_cons ahead), indexed_bind_of_ok _ (peek_indexed within ahead)]
  exact continues token rest ahead within

/-- A token that does not end the source is taken. -/
theorem take {next : Parse α} {otherNext : Token → Indexed.Parser.Parse β} {image : α → β}
    {token : Token} {rest : List Token} (ahead : before.rest = token :: rest)
    (real : token.kind ≠ .eof)
    (continues : ∀ between, Follows whole lines between next
      (otherNext ((ofLines lines).token token)) image) :
    Follows whole lines before (skip >>= fun _ => next) (Indexed.Parser.take >>= otherNext)
      image := by
  intro within
  rw [bind_of_ok _ (skip_of_cons ahead), indexed_bind_of_ok _ (take_indexed within ahead real)]
  exact continues _ (within.next ahead real)

theorem report (token : Token) (cause : Diagnostic.Cause) :
    Follows whole lines before (Parser.report token cause)
      (Indexed.Parser.report ((ofLines lines).token token) cause) id := by
  intro within
  have moved : Indexed.Parser.report ((ofLines lines).token token) cause
      (before.indexed whole lines) = .ok () (State.indexed whole lines
        { before with errors := before.errors ++ [.atToken token cause] }) := by
    simp only [State.indexed, List.map_append]
    rfl
  rw [moved]
  exact .ok ⟨within.ended, within.nonempty, within.suffix⟩

theorem check (kind : Token.Kind) :
    Follows whole lines before (Parser.check kind) (Indexed.Parser.check kind) id := by
  intro within
  obtain ⟨token, rest, ahead⟩ := within.exists_cons
  rw [check_of_cons ahead, check_indexed within ahead]
  exact .ok within

theorem accept (kind : Token.Kind) :
    Follows whole lines before (Parser.accept kind) (Indexed.Parser.accept kind)
      (Option.map (ofLines lines).token) := by
  intro within
  obtain ⟨token, rest, ahead⟩ := within.exists_cons
  rw [Parser.accept, bind_of_ok _ (peek_of_cons ahead), bind_of_ok _ (check_of_cons ahead kind),
    Indexed.Parser.accept, indexed_bind_of_ok _ (check_indexed within ahead kind)]
  split
  · next taken =>
      have real : token.kind ≠ .eof := by
        rw [Bool.and_eq_true, decide_eq_true_iff] at taken
        exact taken.1
      exact take ahead real (fun _ => pure (some token)) within
  · exact .ok within

/-- An operator may follow. -/
theorem acceptWith {choose : Token.Kind → Option γ} (none_ : choose .eof = none)
    {next : Option (γ × Nat) → Parse α} {otherNext : Option (γ × Nat) → Indexed.Parser.Parse β}
    {image : α → β}
    (present : ∀ between kind chosen line, choose kind = some chosen →
      Follows whole lines between (next (some (chosen, line)))
        (otherNext (some (chosen, lines line))) image)
    (missing : Follows whole lines before (next none) (otherNext none) image) :
    Follows whole lines before (Parser.acceptWith choose >>= next)
      (Indexed.Parser.acceptWith choose >>= otherNext) image := by
  intro within
  obtain ⟨token, rest, ahead⟩ := within.exists_cons
  rw [Parser.acceptWith, bind_assoc, bind_of_ok _ (peek_of_cons ahead), Indexed.Parser.acceptWith,
    bind_assoc, indexed_bind_of_ok _ (atEnd_indexed within ahead)]
  by_cases isEnd : token.kind = .eof
  · simp only [isEnd, none_, decide_true, if_true, pure_bind]
    exact missing within
  · simp only [isEnd, decide_false, Bool.false_eq_true, if_false]
    rw [bind_assoc, indexed_bind_of_ok _ (peek_indexed within ahead)]
    dsimp only [Relabelling.token]
    cases chosen : choose token.kind with
    | none =>
        simp only [pure_bind]
        exact missing within
    | some found =>
        simp only [bind_assoc, pure_bind]
        exact take ahead isEnd (fun between => present between _ found _ chosen) within

theorem fail {image : α → β} (cause : Diagnostic.Cause) :
    Follows whole lines before (Parser.fail cause) (Indexed.Parser.fail cause) image :=
  peek fun token _ _ => bind (report token cause) fun _ _ within =>
    @EndsInStep.error _ _ _ _ _ .syntaxError _ within

theorem expect (kind : Token.Kind) (cause : Diagnostic.Cause) :
    Follows whole lines before (Parser.expect kind cause) (Indexed.Parser.expect kind cause)
      (ofLines lines).token := by
  intro within
  obtain ⟨token, rest, ahead⟩ := within.exists_cons
  rw [expect_of_cons ahead, Indexed.Parser.expect,
    indexed_bind_of_ok _ (check_indexed within ahead kind)]
  split
  · next taken =>
      have real : token.kind ≠ .eof := by
        rw [Bool.and_eq_true, decide_eq_true_iff] at taken
        exact taken.1
      rw [advance_indexed within ahead real]
      exact .ok (within.next ahead real)
  · exact fail cause within

theorem expectName (cause : Diagnostic.Cause) :
    Follows whole lines before (Parser.expectName cause) (Indexed.Parser.expectName cause)
      (ofLines lines).name := by
  apply bind (expect .identifier cause)
  intro between token
  exact pure (⟨token.lexeme, token.line⟩ : Name)

theorem freshId : Follows whole lines before Parser.freshId Indexed.Parser.freshId id :=
  fun within => @EndsInStep.ok _ _ _ _ _ _ { before with nextId := before.nextId + 1 }
    ⟨within.ended, within.nonempty, within.suffix⟩

/-- A phrase that depends on the token ahead. -/
theorem ifCheck {action absent : Parse α} {other otherAbsent : Indexed.Parser.Parse β}
    {image : α → β} (kind : Token.Kind)
    (present : ∀ between, Follows whole lines between action other image)
    (missing : ∀ between, Follows whole lines between absent otherAbsent image) :
    Follows whole lines before
      (do if ← Parser.check kind then action else absent)
      (do if ← Indexed.Parser.check kind then other else otherAbsent) image := by
  apply bind (check kind)
  intro between found
  cases found with
  | false => exact missing between
  | true => exact present between

/-- A phrase that a token announces. -/
theorem ifAccept {action absent : Parse α} {other otherAbsent : Indexed.Parser.Parse β}
    {image : α → β} (kind : Token.Kind)
    (present : ∀ between, Follows whole lines between action other image)
    (missing : ∀ between, Follows whole lines between absent otherAbsent image) :
    Follows whole lines before
      (do if (← Parser.accept kind).isSome then action else absent)
      (do if (← Indexed.Parser.accept kind).isSome then other else otherAbsent) image := by
  apply bind (accept kind)
  intro between taken
  cases taken with
  | none => exact missing between
  | some token => exact present between

end Follows

theorem Precedence.relabel_build {precedence : Precedence} {kind : Token.Kind}
    {build : Nat → Expr → Expr → Expr} (found : precedence.operator? kind = some build)
    (labels : Relabelling) (line : Nat) (left right : Expr) :
    (build line left right).relabel labels =
      build (labels.lines line) (left.relabel labels) (right.relabel labels) := by
  unfold operator? at found
  split at found <;> cases found <;> rfl

/-- The parsers of expressions keep in step. -/
structure FollowsExpressions (whole : List Token) (lines : Nat → Nat) (bound : Nat) : Prop where
  expression : ∀ {before : State}, Follows whole lines before (expression bound)
    (Indexed.Parser.expression bound) (Expr.relabel (ofLines lines))
  level : ∀ {before : State} (levels : List Precedence), Follows whole lines before
    (level bound levels) (Indexed.Parser.level bound levels) (Expr.relabel (ofLines lines))
  levelRest : ∀ {before : State} (precedence : Precedence) (tighter : List Precedence)
    (left : Expr), Follows whole lines before (levelRest bound precedence tighter left)
      (Indexed.Parser.levelRest bound precedence tighter (left.relabel (ofLines lines)))
      (Expr.relabel (ofLines lines))
  unary : ∀ {before : State}, Follows whole lines before (unary bound)
    (Indexed.Parser.unary bound) (Expr.relabel (ofLines lines))
  callRest : ∀ {before : State} (callee : Expr), Follows whole lines before
    (callRest bound callee) (Indexed.Parser.callRest bound (callee.relabel (ofLines lines)))
    (Expr.relabel (ofLines lines))
  argumentsFrom : ∀ {before : State} (count : Nat), Follows whole lines before
    (argumentsFrom bound count) (Indexed.Parser.argumentsFrom bound count)
    (Expr.relabelAll (ofLines lines))
  primary : ∀ {before : State}, Follows whole lines before (primary bound)
    (Indexed.Parser.primary bound) (Expr.relabel (ofLines lines))

namespace FollowsExpressions

variable {whole : List Token} {lines : Nat → Nat} {bound : Nat} {before : State}

theorem expression_succ (alike : FollowsExpressions whole lines bound) :
    Follows whole lines before (Parser.expression (bound + 1))
      (Indexed.Parser.expression (bound + 1)) (Expr.relabel (ofLines lines)) := by
  simp only [Parser.expression, Indexed.Parser.expression]
  apply Follows.bind (alike.level _)
  intro middle target
  apply Follows.bind (Follows.accept .equal)
  intro between taken
  cases taken with
  | none => exact Follows.pure target
  | some equal =>
      dsimp only [Option.map_some]
      apply Follows.bind alike.expression
      intro after value
      cases target with
      | read id name => exact Follows.pure (Expr.assign id name value)
      | get object name => exact Follows.pure (Expr.set object name value)
      | _ =>
          apply Follows.bind (Follows.report equal .invalidAssignmentTarget)
          intro last _
          exact Follows.pure _

theorem level_succ (alike : FollowsExpressions whole lines bound) (levels : List Precedence) :
    Follows whole lines before (Parser.level (bound + 1) levels)
      (Indexed.Parser.level (bound + 1) levels) (Expr.relabel (ofLines lines)) := by
  cases levels with
  | nil => exact alike.unary
  | cons precedence tighter =>
      simp only [Parser.level, Indexed.Parser.level]
      apply Follows.bind (alike.level tighter)
      intro between left
      exact alike.levelRest precedence tighter left

theorem levelRest_succ (alike : FollowsExpressions whole lines bound) (precedence : Precedence)
    (tighter : List Precedence) (left : Expr) :
    Follows whole lines before (Parser.levelRest (bound + 1) precedence tighter left)
      (Indexed.Parser.levelRest (bound + 1) precedence tighter (left.relabel (ofLines lines)))
      (Expr.relabel (ofLines lines)) := by
  simp only [Parser.levelRest, Indexed.Parser.levelRest]
  apply Follows.acceptWith (by cases precedence <;> rfl)
  · intro between kind build line found
    dsimp only
    apply Follows.bind (alike.level tighter)
    intro after right
    have relabelled := Precedence.relabel_build found (ofLines lines) line left right
    have continues := @levelRest _ _ _ alike after precedence tighter (build line left right)
    rw [relabelled] at continues
    exact continues
  · exact Follows.pure left

theorem unary_succ (alike : FollowsExpressions whole lines bound) :
    Follows whole lines before (Parser.unary (bound + 1)) (Indexed.Parser.unary (bound + 1))
      (Expr.relabel (ofLines lines)) := by
  simp only [Parser.unary, Indexed.Parser.unary]
  apply Follows.acceptWith rfl
  · intro between _ op line _
    apply Follows.bind alike.unary
    intro after operand
    exact Follows.pure (Expr.unary op line operand)
  · apply Follows.bind alike.primary
    intro after callee
    exact alike.callRest callee

theorem callRest_succ (alike : FollowsExpressions whole lines bound) (callee : Expr) :
    Follows whole lines before (Parser.callRest (bound + 1) callee)
      (Indexed.Parser.callRest (bound + 1) (callee.relabel (ofLines lines)))
      (Expr.relabel (ofLines lines)) := by
  have closing {start : State} (arguments : List Expr) : Follows whole lines start
      (do
        let paren ← Parser.expect .rightParen (.expectedCloseParen .arguments)
        Parser.callRest bound (.call callee arguments paren.line))
      (do
        let paren ← Indexed.Parser.expect .rightParen (.expectedCloseParen .arguments)
        Indexed.Parser.callRest bound (.call (callee.relabel (ofLines lines))
          (Expr.relabelAll (ofLines lines) arguments) paren.line))
      (Expr.relabel (ofLines lines)) := by
    apply Follows.bind (Follows.expect .rightParen _)
    intro after paren
    exact alike.callRest (.call callee arguments paren.line)
  simp only [Parser.callRest, Indexed.Parser.callRest]
  apply Follows.ifAccept .leftParen
  · intro middle
    apply Follows.ifCheck .rightParen
    · intro between
      exact closing []
    · intro between
      apply Follows.bind (alike.argumentsFrom 0)
      intro after arguments
      exact closing arguments
  · intro middle
    apply Follows.ifAccept .dot
    · intro between
      apply Follows.bind (Follows.expectName _)
      intro after name
      exact alike.callRest (.get callee name)
    · intro after
      exact Follows.pure callee

theorem argumentsFrom_succ (alike : FollowsExpressions whole lines bound) (count : Nat) :
    Follows whole lines before (Parser.argumentsFrom (bound + 1) count)
      (Indexed.Parser.argumentsFrom (bound + 1) count) (Expr.relabelAll (ofLines lines)) := by
  have list {start : State} : Follows whole lines start
      (do
        let head ← Parser.expression bound
        if (← Parser.accept .comma).isSome then
          return head :: (← Parser.argumentsFrom bound (count + 1))
        else
          return [head])
      (do
        let head ← Indexed.Parser.expression bound
        if (← Indexed.Parser.accept .comma).isSome then
          return head :: (← Indexed.Parser.argumentsFrom bound (count + 1))
        else
          return [head]) (Expr.relabelAll (ofLines lines)) := by
    apply Follows.bind alike.expression
    intro middle head
    apply Follows.ifAccept .comma
    · intro between
      apply Follows.bind (alike.argumentsFrom _)
      intro after rest
      exact Follows.pure (head :: rest)
    · intro after
      exact Follows.pure [head]
  simp only [Parser.argumentsFrom, Indexed.Parser.argumentsFrom]
  split
  · apply Follows.peek
    intro token _ _
    apply Follows.bind (Follows.report token _)
    intro between _
    exact list
  · exact list

theorem primary_succ (alike : FollowsExpressions whole lines bound) :
    Follows whole lines before (Parser.primary (bound + 1)) (Indexed.Parser.primary (bound + 1))
      (Expr.relabel (ofLines lines)) := by
  simp only [Parser.primary, Indexed.Parser.primary]
  apply Follows.peek
  intro next rest ahead
  have literal : literal? ((ofLines lines).token next) = literal? next := rfl
  have kind : ((ofLines lines).token next).kind = next.kind := rfl
  rw [literal, kind]
  generalize found : literal? next = value?, isKind : next.kind = kind
  cases value? with
  | some value =>
    have real : next.kind ≠ .eof := (constant_of_some found).kind_ne_eof
    apply Follows.take ahead real
    intro after
    exact Follows.pure (Expr.literal value)
  | none =>
    cases kind with
    | superWord =>
      apply Follows.take ahead (by rw [isKind]; decide)
      intro _
      apply Follows.bind (Follows.expect .dot _)
      intro _ _
      apply Follows.bind (Follows.expectName _)
      intro _ method
      apply Follows.bind Follows.freshId
      intro after id
      exact Follows.pure (Expr.superMethod id next.line method)
    | thisWord =>
      apply Follows.take ahead (by rw [isKind]; decide)
      intro _
      apply Follows.bind Follows.freshId
      intro after id
      exact Follows.pure (Expr.self id next.line)
    | identifier =>
      apply Follows.take ahead (by rw [isKind]; decide)
      intro _
      apply Follows.bind Follows.freshId
      intro after id
      exact Follows.pure (Expr.read id ⟨next.lexeme, next.line⟩)
    | leftParen =>
      apply Follows.take ahead (by rw [isKind]; decide)
      intro _
      apply Follows.bind alike.expression
      intro between inner
      apply Follows.bind (Follows.expect .rightParen _)
      intro after _
      exact Follows.pure (Expr.group inner)
    | _ => exact Follows.fail _

theorem all (bound : Nat) : FollowsExpressions whole lines bound := by
  induction bound with
  | zero =>
      exact ⟨Follows.throwBound, fun _ => Follows.throwBound, fun _ _ _ => Follows.throwBound,
        Follows.throwBound, fun _ => Follows.throwBound, fun _ => Follows.throwBound,
        Follows.throwBound⟩
  | succ bound inductionHypothesis =>
      exact ⟨inductionHypothesis.expression_succ, inductionHypothesis.level_succ,
        inductionHypothesis.levelRest_succ, inductionHypothesis.unary_succ,
        inductionHypothesis.callRest_succ, inductionHypothesis.argumentsFrom_succ,
        inductionHypothesis.primary_succ⟩

end FollowsExpressions

namespace Follows

variable {whole : List Token} {lines : Nat → Nat} {bound : Nat} {before : State}

theorem expressionStatement (alike : FollowsExpressions whole lines bound) :
    Follows whole lines before (Parser.expressionStatement bound)
      (Indexed.Parser.expressionStatement bound) (Stmt.relabel (ofLines lines)) := by
  apply bind alike.expression
  intro between value
  apply bind (expect .semicolon _)
  intro after _
  rw [Expr.isAssignment_relabel]
  exact pure (Stmt.expression value !value.isAssignment)

theorem optionalExpression (alike : FollowsExpressions whole lines bound) (stop : Token.Kind) :
    Follows whole lines before (Parser.optionalExpression bound stop)
      (Indexed.Parser.optionalExpression bound stop)
      (Option.map (Expr.relabel (ofLines lines))) := by
  apply ifCheck stop
  · intro between
    exact pure none
  · intro between
    apply bind alike.expression
    intro after value
    exact pure (some value)

theorem variableDeclaration (alike : FollowsExpressions whole lines bound) :
    Follows whole lines before (Parser.variableDeclaration bound)
      (Indexed.Parser.variableDeclaration bound) (Stmt.relabel (ofLines lines)) := by
  have closing {start : State} (name : Name) (initial : Option Expr) : Follows whole lines start
      (do
        let _ ← Parser.expect .semicolon (.expectedSemicolon .variableDeclaration)
        return Stmt.declare name initial)
      (do
        let _ ← Indexed.Parser.expect .semicolon (.expectedSemicolon .variableDeclaration)
        return Stmt.declare ((ofLines lines).name name)
          (initial.map (Expr.relabel (ofLines lines)))) (Stmt.relabel (ofLines lines)) := by
    apply bind (expect .semicolon _)
    intro after _
    exact pure (Stmt.declare name initial)
  simp only [Parser.variableDeclaration, Indexed.Parser.variableDeclaration, map_eq_pure_bind,
    bind_assoc, pure_bind]
  apply bind (expectName _)
  intro middle name
  apply ifAccept .equal
  · intro between
    apply bind alike.expression
    intro after value
    exact closing name (some value)
  · intro between
    exact closing name none

theorem parametersFrom (bound count : Nat) :
    Follows whole lines before (Parser.parametersFrom bound count)
      (Indexed.Parser.parametersFrom bound count) (List.map (ofLines lines).name) := by
  induction bound generalizing before count with
  | zero => exact throwBound
  | succ bound inductionHypothesis =>
      have list {start : State} : Follows whole lines start
          (do
            let head ← Parser.expectName .expectedParameterName
            if (← Parser.accept .comma).isSome then
              return head :: (← Parser.parametersFrom bound (count + 1))
            else
              return [head])
          (do
            let head ← Indexed.Parser.expectName .expectedParameterName
            if (← Indexed.Parser.accept .comma).isSome then
              return head :: (← Indexed.Parser.parametersFrom bound (count + 1))
            else
              return [head]) (List.map (ofLines lines).name) := by
        apply bind (expectName _)
        intro middle head
        apply ifAccept .comma
        · intro between
          apply bind (inductionHypothesis (count + 1))
          intro after rest
          exact pure (head :: rest)
        · intro between
          exact pure [head]
      simp only [Parser.parametersFrom, Indexed.Parser.parametersFrom]
      split
      · apply peek
        intro token _ _
        apply bind (report token _)
        intro between _
        exact list
      · exact list

theorem forInitializer (alike : FollowsExpressions whole lines bound) :
    Follows whole lines before (Parser.forInitializer bound)
      (Indexed.Parser.forInitializer bound) (Option.map (Stmt.relabel (ofLines lines))) := by
  have clause {start : State} {action : Parse Stmt} {other : Indexed.Parser.Parse Stmt}
      (follows : Follows whole lines start action other (Stmt.relabel (ofLines lines))) :
      Follows whole lines start (do return some (← action)) (do return some (← other))
        (Option.map (Stmt.relabel (ofLines lines))) := by
    apply bind follows
    intro after statement
    exact pure (some statement)
  apply ifAccept .semicolon
  · intro between
    exact pure none
  · intro between
    apply ifAccept .varWord
    · intro inside
      exact clause (variableDeclaration alike)
    · intro inside
      exact clause (expressionStatement alike)

/-- Phrases up to a closing brace or the end. -/
theorem unlessClosed {α β : Type} {action : Parse α} {other : Indexed.Parser.Parse β}
    {image : α → β} (value : α)
    (further : ahead before.rest ≠ .eof → Follows whole lines before action other image) :
    Follows whole lines before
      (do if (← Parser.check .rightBrace) || (← Parser.atEnd) then return value else action)
      (do
        if (← Indexed.Parser.check .rightBrace) || (← Indexed.Parser.atEnd) then
          return image value
        else
          other) image := by
  intro within
  obtain ⟨token, rest, isAhead⟩ := within.exists_cons
  rw [bind_of_ok _ (check_of_cons isAhead .rightBrace), bind_of_ok _ (atEnd_of_cons isAhead),
    indexed_bind_of_ok _ (check_indexed within isAhead .rightBrace),
    indexed_bind_of_ok _ (atEnd_indexed within isAhead)]
  split
  · exact .ok within
  · next open_ =>
      refine further ?_ within
      rw [isAhead, ahead_cons]
      simp only [Bool.or_eq_true, decide_eq_true_eq, not_or] at open_
      exact open_.2

/-- A statement that may have been given up, and those after it. -/
theorem sequence {action : Parse (Option Stmt)} {other : Indexed.Parser.Parse (Option Stmt)}
    {rest : Parse (List Stmt)} {otherRest : Indexed.Parser.Parse (List Stmt)}
    (head : Follows whole lines before action other (Option.map (Stmt.relabel (ofLines lines))))
    (tail : ∀ between, Follows whole lines between rest otherRest
      (Stmt.relabelAll (ofLines lines))) :
    Follows whole lines before
      (do
        match ← action with
        | some statement => return statement :: (← rest)
        | none => rest)
      (do
        match ← other with
        | some statement => return statement :: (← otherRest)
        | none => otherRest) (Stmt.relabelAll (ofLines lines)) := by
  apply bind head
  intro between statement
  cases statement with
  | none => exact tail between
  | some statement =>
      apply bind (tail between)
      intro after rest
      exact pure (statement :: rest)

end Follows

/-- The parsers of statements keep in step. -/
structure FollowsStatements (whole : List Token) (lines : Nat → Nat) (bound : Nat) : Prop where
  recovering : ∀ {before : State}, ahead before.rest ≠ .eof → Follows whole lines before
    (recovering bound) (Indexed.Parser.recovering bound)
    (Option.map (Stmt.relabel (ofLines lines)))
  declaration : ∀ {before : State}, Follows whole lines before (declaration bound)
    (Indexed.Parser.declaration bound) (Stmt.relabel (ofLines lines))
  classDeclaration : ∀ {before : State}, Follows whole lines before (classDeclaration bound)
    (Indexed.Parser.classDeclaration bound) (Stmt.relabel (ofLines lines))
  methodsFrom : ∀ {before : State}, Follows whole lines before (methodsFrom bound)
    (Indexed.Parser.methodsFrom bound) (Function.relabelAll (ofLines lines))
  function : ∀ {before : State} (form : Diagnostic.Callable), Follows whole lines before
    (function bound form) (Indexed.Parser.function bound form) (Function.relabel (ofLines lines))
  blockBody : ∀ {before : State}, Follows whole lines before (blockBody bound)
    (Indexed.Parser.blockBody bound) (Stmt.relabelAll (ofLines lines))
  statementsFrom : ∀ {before : State}, Follows whole lines before (statementsFrom bound)
    (Indexed.Parser.statementsFrom bound) (Stmt.relabelAll (ofLines lines))
  statement : ∀ {before : State}, Follows whole lines before (statement bound)
    (Indexed.Parser.statement bound) (Stmt.relabel (ofLines lines))
  forStatement : ∀ {before : State}, Follows whole lines before (forStatement bound)
    (Indexed.Parser.forStatement bound) (Stmt.relabel (ofLines lines))

section Synchronize

variable {whole : List Token} {lines : Nat → Nat} {state : State}

theorem passToBoundary_atEnd {last : Token} (within : state.Within whole)
    (isAhead : state.rest = [last]) (isEnd : last.kind = .eof) (bound : Nat) :
    Indexed.Parser.passToBoundary (bound + 1) (state.indexed whole lines) =
      .ok () (state.indexed whole lines) := by
  rw [Indexed.Parser.passToBoundary, indexed_bind_of_ok _ (atEnd_indexed within isAhead),
    if_pos (by simpa using isEnd)]
  rfl

/-- Behind a token the boundary is where it would be before the token. -/
theorem passToBoundary_indexed {passed next : Token} {rest : List Token} (ended : EndsOnce whole)
    (suffix : passed :: next :: rest <:+ whole) {bound : Nat} (enough : rest.length < bound) :
    Indexed.Parser.passToBoundary bound
        (State.indexed whole lines { state with rest := next :: rest }) =
      .ok () (State.indexed whole lines
        { state with rest := synchronize (passed :: next :: rest) }) := by
  induction rest generalizing passed next bound with
  | nil =>
      obtain ⟨bound, rfl⟩ := Nat.exists_eq_succ_of_ne_zero (Nat.ne_zero_of_lt enough)
      have further : [next] <:+ whole := (List.suffix_cons passed [next]).trans suffix
      have isEnd : next.kind = .eof :=
        Classical.byContradiction fun notEnd => ne_nil_of_suffix ended further notEnd rfl
      have within : State.Within whole { state with rest := [next] } :=
        ⟨ended, List.cons_ne_nil _ _, further⟩
      have resumed : synchronize [passed, next] = [next] := by
        simp [synchronize, kind_ne_eof_of_suffix ended suffix, isEnd, startsStatement]
      rw [resumed]
      exact passToBoundary_atEnd within rfl isEnd bound
  | cons third rest inductionHypothesis =>
      obtain ⟨bound, rfl⟩ := Nat.exists_eq_succ_of_ne_zero (Nat.ne_zero_of_lt enough)
      have further : next :: third :: rest <:+ whole := (List.suffix_cons passed _).trans suffix
      have within : State.Within whole { state with rest := next :: third :: rest } :=
        ⟨ended, List.cons_ne_nil _ _, further⟩
      have notEnd := kind_ne_eof_of_suffix ended further
      have fewer : rest.length < bound := Nat.lt_of_succ_lt_succ enough
      rw [Indexed.Parser.passToBoundary, indexed_bind_of_ok _ (atEnd_indexed within rfl),
        if_neg (by simpa using notEnd), indexed_bind_of_ok _ (previous_indexed suffix rfl),
        Relabelling.kind_token, synchronize, if_neg (kind_ne_eof_of_suffix ended suffix)]
      split
      · rfl
      · rw [indexed_bind_of_ok _ (peek_indexed within rfl), Relabelling.kind_token]
        split
        · rfl
        · rw [indexed_bind_of_ok _ (advance_indexed within rfl notEnd)]
          exact inductionHypothesis further fewer

theorem synchronize_indexed (within : state.Within whole) (several : 1 < whole.length) :
    Indexed.Parser.synchronize (state.indexed whole lines) =
      .ok () (State.indexed whole lines { state with rest := synchronize state.rest }) ∧
    State.Within whole { state with rest := synchronize state.rest } := by
  refine ⟨?_, within.synchronize⟩
  obtain ⟨token, rest, isAhead⟩ := within.exists_cons
  have suffix := within.suffix
  rw [isAhead] at suffix ⊢
  have length := suffix.length_le
  rw [List.length_cons] at length
  have passes (after : State) : (get >>= fun reached =>
      Indexed.Parser.passToBoundary reached.tokens.length) (after.indexed whole lines) =
      Indexed.Parser.passToBoundary whole.length (after.indexed whole lines) := by
    change Indexed.Parser.passToBoundary (whole.map _).length _ = _
    rw [List.length_map]
  rw [Indexed.Parser.synchronize]
  cases rest with
  | nil =>
      have isEnd : token.kind = .eof :=
        Classical.byContradiction fun notEnd => ne_nil_of_suffix within.ended suffix notEnd rfl
      have resumed : Parser.synchronize [token] = state.rest := by
        simp [Parser.synchronize, isEnd, isAhead]
      -- The end is not all there is, so a token stands before it.
      obtain ⟨first, preceded⟩ := exists_cons_suffix suffix several
      have returned : Indexed.Parser.advance (state.indexed whole lines) =
          .ok ((ofLines lines).token first) (state.indexed whole lines) := by
        rw [Indexed.Parser.advance, indexed_bind_of_ok _ (atEnd_indexed within isAhead),
          if_pos (by simpa using isEnd)]
        exact previous_indexed preceded isAhead
      obtain ⟨bound, positive⟩ := Nat.exists_eq_add_of_lt (Nat.lt_trans Nat.zero_lt_one several)
      rw [indexed_bind_of_ok _ returned, passes, resumed, positive]
      exact passToBoundary_atEnd within isAhead isEnd _
  | cons next rest =>
      have real := kind_ne_eof_of_suffix within.ended suffix
      rw [indexed_bind_of_ok _ (advance_indexed within isAhead real), passes]
      apply passToBoundary_indexed within.ended suffix
      rw [List.length_cons] at length
      omega

end Synchronize

namespace FollowsStatements

variable {whole : List Token} {lines : Nat → Nat} {bound : Nat} {before : State}

theorem recovering_succ (alike : FollowsStatements whole lines bound)
    (notEnd : ahead before.rest ≠ .eof) :
    Follows whole lines before (Parser.recovering (bound + 1))
      (Indexed.Parser.recovering (bound + 1)) (Option.map (Stmt.relabel (ofLines lines))) := by
  intro within
  have follows : Follows whole lines before (Parser.declaration bound)
    (Indexed.Parser.declaration bound) (Stmt.relabel (ofLines lines)) := alike.declaration
  have ends := follows within
  simp only [Parser.recovering, Indexed.Parser.recovering]
  generalize Parser.declaration bound before = result at ends ⊢
  generalize Indexed.Parser.declaration bound (before.indexed whole lines) = otherResult at ends ⊢
  cases ends with
  | @ok statement after inside => exact @EndsInStep.ok _ _ _ _ _ (some statement) _ inside
  | @error abort after inside =>
      cases abort with
      | bound => exact @EndsInStep.error _ _ _ _ _ .bound _ inside
      | syntaxError =>
          have several : 1 < whole.length := by
            obtain ⟨token, rest, isAhead⟩ := within.exists_cons
            rw [isAhead, ahead_cons] at notEnd
            have positive := List.length_pos_iff.mpr (within.next isAhead notEnd).nonempty
            have length := within.length_le
            rw [isAhead, List.length_cons] at length
            dsimp only at positive
            omega
          obtain ⟨resumed, inside⟩ := @synchronize_indexed whole lines after inside several
          dsimp only [Abort.indexed]
          rw [indexed_bind_of_ok _ resumed]
          exact @EndsInStep.ok _ _ _ _ _ none _ inside

theorem declaration_succ (alike : FollowsStatements whole lines bound) :
    Follows whole lines before (Parser.declaration (bound + 1))
      (Indexed.Parser.declaration (bound + 1)) (Stmt.relabel (ofLines lines)) := by
  apply Follows.ifAccept .classWord
  · intro between
    exact alike.classDeclaration
  · intro middle
    apply Follows.ifAccept .funWord
    · intro between
      apply Follows.bind (alike.function .function)
      intro after declaration
      exact Follows.pure (Stmt.function declaration)
    · intro between
      apply Follows.ifAccept .varWord
      · intro after
        exact Follows.variableDeclaration (.all bound)
      · intro after
        exact alike.statement

theorem classDeclaration_succ (alike : FollowsStatements whole lines bound) :
    Follows whole lines before (Parser.classDeclaration (bound + 1))
      (Indexed.Parser.classDeclaration (bound + 1)) (Stmt.relabel (ofLines lines)) := by
  have body {start : State} (name : Name) (superclass : Option (RefId × Name)) :
      Follows whole lines start
        (do
          let _ ← Parser.expect .leftBrace (.expectedOpenBrace .classBody)
          let methods ← Parser.methodsFrom bound
          let _ ← Parser.expect .rightBrace (.expectedCloseBrace .classBody)
          return Stmt.classDecl name superclass methods)
        (do
          let _ ← Indexed.Parser.expect .leftBrace (.expectedOpenBrace .classBody)
          let methods ← Indexed.Parser.methodsFrom bound
          let _ ← Indexed.Parser.expect .rightBrace (.expectedCloseBrace .classBody)
          return Stmt.classDecl ((ofLines lines).name name)
            (superclass.map fun link => (link.1, (ofLines lines).name link.2)) methods)
        (Stmt.relabel (ofLines lines)) := by
    apply Follows.bind (Follows.expect .leftBrace _)
    intro middle _
    apply Follows.bind alike.methodsFrom
    intro between methods
    apply Follows.bind (Follows.expect .rightBrace _)
    intro after _
    exact Follows.pure (Stmt.classDecl name superclass methods)
  simp only [Parser.classDeclaration, Indexed.Parser.classDeclaration]
  apply Follows.bind (Follows.expectName _)
  intro middle name
  apply Follows.ifAccept .less
  · intro between
    apply Follows.bind (Follows.expectName _)
    intro inside parent
    apply Follows.bind Follows.freshId
    intro after id
    exact body name (some (id, parent))
  · intro between
    exact body name none

theorem methodsFrom_succ (alike : FollowsStatements whole lines bound) :
    Follows whole lines before (Parser.methodsFrom (bound + 1))
      (Indexed.Parser.methodsFrom (bound + 1)) (Function.relabelAll (ofLines lines)) := by
  apply Follows.unlessClosed []
  intro _
  apply Follows.bind (alike.function .method)
  intro between head
  apply Follows.bind alike.methodsFrom
  intro after rest
  exact Follows.pure (head :: rest)

theorem function_succ (alike : FollowsStatements whole lines bound) (form : Diagnostic.Callable) :
    Follows whole lines before (Parser.function (bound + 1) form)
      (Indexed.Parser.function (bound + 1) form) (Function.relabel (ofLines lines)) := by
  have rest {start : State} (name : Name) (parameters : List Name) : Follows whole lines start
      (do
        let _ ← Parser.expect .rightParen (.expectedCloseParen .parameters)
        let _ ← Parser.expect .leftBrace (.expectedOpenBrace (.callable form))
        let body ← Parser.blockBody bound
        return Function.mk name parameters body)
      (do
        let _ ← Indexed.Parser.expect .rightParen (.expectedCloseParen .parameters)
        let _ ← Indexed.Parser.expect .leftBrace (.expectedOpenBrace (.callable form))
        let body ← Indexed.Parser.blockBody bound
        return Function.mk ((ofLines lines).name name) (parameters.map (ofLines lines).name) body)
      (Function.relabel (ofLines lines)) := by
    apply Follows.bind (Follows.expect .rightParen _)
    intro _ _
    apply Follows.bind (Follows.expect .leftBrace _)
    intro _ _
    apply Follows.bind alike.blockBody
    intro after body
    exact Follows.pure (Function.mk name parameters body)
  simp only [Parser.function, Indexed.Parser.function]
  apply Follows.bind (Follows.expectName _)
  intro _ name
  apply Follows.bind (Follows.expect .leftParen _)
  intro _ _
  apply Follows.ifCheck .rightParen
  · intro between
    exact rest name []
  · intro between
    apply Follows.bind (Follows.parametersFrom bound 0)
    intro after parameters
    exact rest name parameters

theorem blockBody_succ (alike : FollowsStatements whole lines bound) :
    Follows whole lines before (Parser.blockBody (bound + 1))
      (Indexed.Parser.blockBody (bound + 1)) (Stmt.relabelAll (ofLines lines)) := by
  apply Follows.bind alike.statementsFrom
  intro between body
  apply Follows.bind (Follows.expect .rightBrace _)
  intro after _
  exact Follows.pure body

theorem statementsFrom_succ (alike : FollowsStatements whole lines bound) :
    Follows whole lines before (Parser.statementsFrom (bound + 1))
      (Indexed.Parser.statementsFrom (bound + 1)) (Stmt.relabelAll (ofLines lines)) := by
  apply Follows.unlessClosed []
  intro notEnd
  exact Follows.sequence (alike.recovering notEnd) fun _ => alike.statementsFrom

theorem statement_succ (alike : FollowsStatements whole lines bound) :
    Follows whole lines before (Parser.statement (bound + 1))
      (Indexed.Parser.statement (bound + 1)) (Stmt.relabel (ofLines lines)) := by
  have expressions : FollowsExpressions whole lines bound := .all bound
  simp only [Parser.statement, Indexed.Parser.statement, map_eq_pure_bind, bind_assoc, pure_bind]
  apply Follows.peek
  intro next rest isAhead
  have kind : ((ofLines lines).token next).kind = next.kind := rfl
  rw [kind]
  generalize isKind : next.kind = kind
  cases kind with
  | forWord =>
    apply Follows.take isAhead (by rw [isKind]; decide)
    intro _
    exact alike.forStatement
  | ifWord =>
    apply Follows.take isAhead (by rw [isKind]; decide)
    intro _
    apply Follows.bind (Follows.expect .leftParen _)
    intro _ _
    apply Follows.bind expressions.expression
    intro _ condition
    apply Follows.bind (Follows.expect .rightParen _)
    intro _ _
    apply Follows.bind alike.statement
    intro _ consequence
    apply Follows.ifAccept .elseWord
    · intro between
      apply Follows.bind alike.statement
      intro after alternative
      exact Follows.pure (Stmt.branch condition consequence (some alternative))
    · intro after
      exact Follows.pure (Stmt.branch condition consequence none)
  | printWord =>
    apply Follows.take isAhead (by rw [isKind]; decide)
    intro _
    apply Follows.bind expressions.expression
    intro _ value
    apply Follows.bind (Follows.expect .semicolon _)
    intro after _
    exact Follows.pure (Stmt.print value)
  | returnWord =>
    apply Follows.take isAhead (by rw [isKind]; decide)
    intro _
    apply Follows.bind (Follows.optionalExpression expressions .semicolon)
    intro _ value
    apply Follows.bind (Follows.expect .semicolon _)
    intro after _
    exact Follows.pure (Stmt.leave next.line value)
  | whileWord =>
    apply Follows.take isAhead (by rw [isKind]; decide)
    intro _
    apply Follows.bind (Follows.expect .leftParen _)
    intro _ _
    apply Follows.bind expressions.expression
    intro _ condition
    apply Follows.bind (Follows.expect .rightParen _)
    intro _ _
    apply Follows.bind alike.statement
    intro after body
    exact Follows.pure (Stmt.loop condition body)
  | leftBrace =>
    apply Follows.take isAhead (by rw [isKind]; decide)
    intro _
    apply Follows.bind alike.blockBody
    intro after body
    exact Follows.pure (Stmt.block body)
  | _ => exact Follows.expressionStatement expressions

theorem forStatement_succ (alike : FollowsStatements whole lines bound) :
    Follows whole lines before (Parser.forStatement (bound + 1))
      (Indexed.Parser.forStatement (bound + 1)) (Stmt.relabel (ofLines lines)) := by
  have expressions : FollowsExpressions whole lines bound := .all bound
  simp only [Parser.forStatement, Indexed.Parser.forStatement]
  apply Follows.bind (Follows.expect .leftParen _)
  intro _ _
  apply Follows.bind (Follows.forInitializer expressions)
  intro _ initial
  apply Follows.bind (Follows.optionalExpression expressions .semicolon)
  intro _ condition
  apply Follows.bind (Follows.expect .semicolon _)
  intro _ _
  apply Follows.bind (Follows.optionalExpression expressions .rightParen)
  intro _ increment
  apply Follows.bind (Follows.expect .rightParen _)
  intro _ _
  apply Follows.bind alike.statement
  intro after body
  rw [← Stmt.relabel_lowerFor]
  exact Follows.pure (lowerFor initial condition increment body)

theorem all (bound : Nat) : FollowsStatements whole lines bound := by
  induction bound with
  | zero =>
      exact ⟨fun _ => Follows.throwBound, Follows.throwBound, Follows.throwBound,
        Follows.throwBound, fun _ => Follows.throwBound, Follows.throwBound, Follows.throwBound,
        Follows.throwBound, Follows.throwBound⟩
  | succ bound inductionHypothesis =>
      exact ⟨inductionHypothesis.recovering_succ, inductionHypothesis.declaration_succ,
        inductionHypothesis.classDeclaration_succ, inductionHypothesis.methodsFrom_succ,
        inductionHypothesis.function_succ, inductionHypothesis.blockBody_succ,
        inductionHypothesis.statementsFrom_succ, inductionHypothesis.statement_succ,
        inductionHypothesis.forStatement_succ⟩

end FollowsStatements

/-- A program is read in step. -/
theorem Follows.programFrom {whole : List Token} {lines : Nat → Nat} (bound : Nat)
    {before : State} : Follows whole lines before (programFrom bound)
      (Indexed.Parser.programFrom bound) (Stmt.relabelAll (ofLines lines)) := by
  induction bound generalizing before with
  | zero => exact throwBound
  | succ bound inductionHypothesis =>
      simp only [Parser.programFrom, Indexed.Parser.programFrom]
      intro within
      obtain ⟨token, rest, isAhead⟩ := within.exists_cons
      rw [bind_of_ok _ (atEnd_of_cons isAhead), indexed_bind_of_ok _ (atEnd_indexed within isAhead)]
      split
      · exact .ok within
      · next goesOn =>
          have notEnd : ahead before.rest ≠ .eof := by
            rw [isAhead, ahead_cons]
            simpa using goesOn
          have statements : FollowsStatements whole lines bound := .all bound
          exact sequence (statements.recovering notEnd) (fun _ => inductionHypothesis) within

end Parser

end LoxLang
