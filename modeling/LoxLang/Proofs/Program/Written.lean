import LoxLang.Program.Printer
import LoxLang.Token.Chunk
import Mathlib.Data.List.TakeWhile

/-!
Written forms: words, quoted texts, and lists of forms in parentheses with one space
between them.  A text is the written form of one of them at most, even if more text follows,
as long as a word is not continued by it.
-/

namespace LoxLang

open Chunk (quote)

inductive Written where
  | word (text : Bytes)
  | quoted (text : Bytes)
  | list (items : List Written)

namespace Written

inductive Kind where
  | word | quoted | list
deriving DecidableEq

def kind : Written → Kind
  | .word _ => .word
  | .quoted _ => .quoted
  | .list _ => .list

def space : UInt8 := 32
def opening : UInt8 := 40
def closing : UInt8 := 41

/-- The bytes that words are made of. -/
def isPlain (byte : UInt8) : Bool :=
  byte ∉ [Bytes.lineFeed, space, quote, opening, closing]

/-- The kind of form that a byte begins. -/
def kindOf? (byte : UInt8) : Option Kind :=
  if isPlain byte then some .word
  else if byte = quote then some .quoted
  else if byte = opening then some .list
  else none

theorem kindOf?_quote : kindOf? quote = some .quoted := by decide

theorem kindOf?_opening : kindOf? opening = some .list := by decide

theorem kindOf?_closing : kindOf? closing = none := by decide

mutual

def render : Written → Bytes
  | .word text => text
  | .quoted text => quote :: text ++ [quote]
  | .list items => opening :: renderItems items

/-- The items of a list and its closing parenthesis. -/
def renderItems : List Written → Bytes
  | [] => [closing]
  | first :: rest => first.render ++ renderRest rest

/-- Items behind another one, and the closing parenthesis. -/
def renderRest : List Written → Bytes
  | [] => [closing]
  | first :: rest => space :: first.render ++ renderRest rest

end

/-- The text can be told from what is around it without quotes. -/
def IsPlainText (text : Bytes) : Prop :=
  text ≠ [] ∧ ∀ byte ∈ text, isPlain byte = true

instance (text : Bytes) : Decidable (IsPlainText text) :=
  decidable_of_iff (text ≠ [] ∧ text.all isPlain = true) (by rw [List.all_eq_true, IsPlainText])

mutual

/-- Words are plain, and no quoted text holds a quote. -/
def IsProper : Written → Prop
  | .word text => IsPlainText text
  | .quoted text => quote ∉ text
  | .list items => IsProperAll items

def IsProperAll : List Written → Prop
  | [] => True
  | first :: rest => first.IsProper ∧ IsProperAll rest

end

/-- A word and what it is the head of. -/
abbrev node (head : Bytes) (parts : List Written) : Written :=
  .list (.word head :: parts)

@[simp]
theorem render_word (text : Bytes) : (word text).render = text := by
  rw [render]

theorem renderRest_eq (items : List Written) :
    renderRest items = (items.map render).flatMap (Bytes.ofString " " ++ ·) ++ [closing] := by
  induction items with
  | nil => rfl
  | cons first rest inductionHypothesis =>
      rw [renderRest, inductionHypothesis, List.map_cons, List.flatMap_cons, List.append_assoc]
      rfl

@[simp]
theorem render_node (head : Bytes) (parts : List Written) :
    (node head parts).render = parenthesize head (parts.map render) := by
  rw [node, render, renderItems, renderRest_eq, parenthesize]
  simp [render, opening, closing, show Bytes.ofString "(" = [40] from rfl,
    show Bytes.ofString ")" = [41] from rfl]

/-- The text does not go on with a plain byte. -/
def Ends (text : Bytes) : Prop :=
  ∀ byte ∈ text.head?, isPlain byte = false

theorem ends_of_cons {byte : UInt8} {text : Bytes} (found : isPlain byte = false) :
    Ends (byte :: text) := by
  simpa [Ends] using found

theorem ends_renderRest (items : List Written) (text : Bytes) : Ends (renderRest items ++ text) := by
  cases items with
  | nil => exact ends_of_cons (by decide)
  | cons first rest => exact ends_of_cons (by decide)

/-- A run of bytes that pass a test, up to one that does not, is cut off in one way. -/
theorem append_inj_of_while {test : UInt8 → Bool} {first second rest otherRest : Bytes}
    (passes : ∀ byte ∈ first, test byte = true) (passesSecond : ∀ byte ∈ second, test byte = true)
    (stops : ∀ byte ∈ rest.head?, test byte = false)
    (stopsSecond : ∀ byte ∈ otherRest.head?, test byte = false)
    (whole : first ++ rest = second ++ otherRest) : first = second ∧ rest = otherRest := by
  have cut {text more : Bytes} (passes : ∀ byte ∈ text, test byte = true)
      (stops : ∀ byte ∈ more.head?, test byte = false) :
      (text ++ more).takeWhile test = text := by
    rw [List.takeWhile_append_of_pos passes]
    cases more with
    | nil => simp
    | cons byte others => simp [stops byte rfl]
  have same : first = second := by
    rw [← cut passes stops, whole, cut passesSecond stopsSecond]
  subst same
  exact ⟨rfl, List.append_cancel_left whole⟩

theorem exists_render_eq_cons {written : Written} (proper : written.IsProper) :
    ∃ byte more, written.render = byte :: more ∧ kindOf? byte = some written.kind := by
  cases written with
  | word text =>
      obtain ⟨byte, more, rfl⟩ := List.exists_cons_of_ne_nil proper.1
      exact ⟨byte, more, rfl, if_pos (proper.2 byte List.mem_cons_self)⟩
  | quoted text => exact ⟨quote, text ++ [quote], rfl, kindOf?_quote⟩
  | list items => exact ⟨opening, renderItems items, rfl, kindOf?_opening⟩

theorem kind_eq_of_render {first second : Written} {rest otherRest : Bytes}
    (proper : first.IsProper) (otherProper : second.IsProper)
    (whole : first.render ++ rest = second.render ++ otherRest) : first.kind = second.kind := by
  obtain ⟨byte, more, rendered, found⟩ := exists_render_eq_cons proper
  obtain ⟨other, others, otherRendered, otherFound⟩ := exists_render_eq_cons otherProper
  rw [rendered, otherRendered] at whole
  obtain rfl := (List.cons.inj whole).1
  exact Option.some.inj (found.symm.trans otherFound)

/-- No form begins with a closing parenthesis. -/
theorem render_append_ne_closing {written : Written} (proper : written.IsProper)
    (rest otherRest : Bytes) : written.render ++ rest ≠ closing :: otherRest := by
  intro whole
  obtain ⟨byte, more, rendered, found⟩ := exists_render_eq_cons proper
  rw [rendered] at whole
  obtain rfl := (List.cons.inj whole).1
  rw [kindOf?_closing] at found
  cases found

mutual

/-- A form is read from the front of a text in one way. -/
theorem unique : ∀ (first second : Written) {rest otherRest : Bytes},
    first.IsProper → second.IsProper → Ends rest → Ends otherRest →
    first.render ++ rest = second.render ++ otherRest → first = second ∧ rest = otherRest
  | .word text, .word other, rest, otherRest, proper, otherProper, ends, otherEnds, whole => by
      obtain ⟨rfl, same⟩ := append_inj_of_while proper.2 otherProper.2 ends otherEnds whole
      exact ⟨rfl, same⟩
  | .quoted text, .quoted other, rest, otherRest, proper, otherProper, _, _, whole => by
      have passes {text : Bytes} (unquoted : quote ∉ text) :
          ∀ byte ∈ text, (byte != quote) = true := by
        intro byte member
        rw [bne_iff_ne]
        rintro rfl
        exact unquoted member
      have inside : text ++ quote :: rest = other ++ quote :: otherRest := by
        simpa [render] using whole
      obtain ⟨rfl, same⟩ := append_inj_of_while (passes proper) (passes otherProper)
        (by simp) (by simp) inside
      exact ⟨rfl, (List.cons.inj same).2⟩
  | .list items, .list others, rest, otherRest, proper, otherProper, _, _, whole => by
      obtain ⟨rfl, same⟩ := unique_items items others proper otherProper (List.cons.inj whole).2
      exact ⟨rfl, same⟩
  | .word _, .quoted _, _, _, proper, otherProper, _, _, whole =>
      nomatch kind_eq_of_render proper otherProper whole
  | .word _, .list _, _, _, proper, otherProper, _, _, whole =>
      nomatch kind_eq_of_render proper otherProper whole
  | .quoted _, .word _, _, _, proper, otherProper, _, _, whole =>
      nomatch kind_eq_of_render proper otherProper whole
  | .quoted _, .list _, _, _, proper, otherProper, _, _, whole =>
      nomatch kind_eq_of_render proper otherProper whole
  | .list _, .word _, _, _, proper, otherProper, _, _, whole =>
      nomatch kind_eq_of_render proper otherProper whole
  | .list _, .quoted _, _, _, proper, otherProper, _, _, whole =>
      nomatch kind_eq_of_render proper otherProper whole

theorem unique_items : ∀ (first second : List Written) {rest otherRest : Bytes},
    IsProperAll first → IsProperAll second →
    renderItems first ++ rest = renderItems second ++ otherRest → first = second ∧ rest = otherRest
  | [], [], rest, otherRest, _, _, whole => ⟨rfl, (List.cons.inj whole).2⟩
  | [], second :: others, rest, otherRest, _, proper, whole => by
      rw [renderItems, renderItems, List.append_assoc] at whole
      exact absurd whole.symm (render_append_ne_closing proper.1 _ _)
  | first :: others, [], rest, otherRest, proper, _, whole => by
      rw [renderItems, renderItems, List.append_assoc] at whole
      exact absurd whole (render_append_ne_closing proper.1 _ _)
  | first :: others, second :: more, rest, otherRest, proper, otherProper, whole => by
      rw [renderItems, renderItems, List.append_assoc, List.append_assoc] at whole
      obtain ⟨rfl, same⟩ := unique first second proper.1 otherProper.1 (ends_renderRest _ _)
        (ends_renderRest _ _) whole
      obtain ⟨rfl, end_⟩ := unique_rest others more proper.2 otherProper.2 same
      exact ⟨rfl, end_⟩

theorem unique_rest : ∀ (first second : List Written) {rest otherRest : Bytes},
    IsProperAll first → IsProperAll second →
    renderRest first ++ rest = renderRest second ++ otherRest → first = second ∧ rest = otherRest
  | [], [], rest, otherRest, _, _, whole => ⟨rfl, (List.cons.inj whole).2⟩
  | [], second :: others, rest, otherRest, _, _, whole => by
      exact absurd (List.cons.inj whole).1 (by decide)
  | first :: others, [], rest, otherRest, _, _, whole => by
      exact absurd (List.cons.inj whole).1 (by decide)
  | first :: others, second :: more, rest, otherRest, proper, otherProper, whole => by
      have inside : first.render ++ (renderRest others ++ rest) =
          second.render ++ (renderRest more ++ otherRest) := by
        simpa [renderRest] using whole
      obtain ⟨rfl, same⟩ := unique first second proper.1 otherProper.1 (ends_renderRest _ _)
        (ends_renderRest _ _) inside
      obtain ⟨rfl, end_⟩ := unique_rest others more proper.2 otherProper.2 same
      exact ⟨rfl, end_⟩

end

/-- Forms on lines of their own are told apart by their text. -/
theorem unique_lines : ∀ {first second : List Written}, IsProperAll first → IsProperAll second →
    (first.flatMap fun written => written.render ++ [Bytes.lineFeed]) =
      (second.flatMap fun written => written.render ++ [Bytes.lineFeed]) → first = second
  | [], [], _, _, _ => rfl
  | [], second :: _, _, _, whole => by simp at whole
  | first :: _, [], _, _, whole => by simp at whole
  | first :: others, second :: more, proper, otherProper, whole => by
      simp only [List.flatMap_cons, List.append_assoc, List.singleton_append] at whole
      obtain ⟨rfl, same⟩ := unique first second proper.1 otherProper.1
        (ends_of_cons (by decide)) (ends_of_cons (by decide)) whole
      rw [unique_lines proper.2 otherProper.2 (List.cons.inj same).2]

end Written

end LoxLang
