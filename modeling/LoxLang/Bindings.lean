import LoxLang.Text.Bytes

/-!
Finite maps from names, as lists of pairs.  A name occurs once; a new name is
added at the end.
-/

namespace LoxLang

abbrev Bindings (α : Type) := List (Bytes × α)

namespace Bindings

variable {α : Type}

def get? : Bindings α → Bytes → Option α
  | [], _ => none
  | (key, value) :: rest, name => if name = key then some value else get? rest name

/-- Bind a name, in place of any earlier binding of it. -/
def insert : Bindings α → Bytes → α → Bindings α
  | [], name, value => [(name, value)]
  | (key, old) :: rest, name, value =>
      if name = key then (key, value) :: rest else (key, old) :: insert rest name value

@[simp]
theorem get?_insert_self (bindings : Bindings α) (name : Bytes) (value : α) :
    (bindings.insert name value).get? name = some value := by
  induction bindings with
  | nil => simp [insert, get?]
  | cons entry rest inductionHypothesis =>
      obtain ⟨key, old⟩ := entry
      by_cases same : name = key
      · simp [insert, same, get?]
      · simpa [insert, same, get?] using inductionHypothesis

theorem get?_insert_of_ne (bindings : Bindings α) {name other : Bytes} (value : α)
    (distinct : other ≠ name) :
    (bindings.insert name value).get? other = bindings.get? other := by
  induction bindings with
  | nil => simp [insert, get?, distinct]
  | cons entry rest inductionHypothesis =>
      obtain ⟨key, old⟩ := entry
      by_cases same : name = key
      · subst same
        simp [insert, get?, distinct]
      · simp [insert, same, get?, inductionHypothesis]

end Bindings

end LoxLang
