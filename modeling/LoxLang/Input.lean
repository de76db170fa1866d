import LoxLang.Text.Bytes

/-!
Input that is read ahead.  A reader takes its source block by block and gives it
out line by line, so it holds bytes that were taken and not yet given out.  A
second reader of the same source does not see them.
-/

namespace LoxLang

/-- A source, and what its reader holds of it. -/
structure Input where
  held : Bytes
  /-- What no reader has taken. -/
  rest : Bytes
deriving DecidableEq, Repr

namespace Input

/-- How much a reader holds at most. -/
def blockSize : Nat := 4096

/-- A source that nothing was read of. -/
def ofBytes (text : Bytes) : Input :=
  ⟨[], text⟩

/-- All that the reader can still give out. -/
def pending (input : Input) : Bytes :=
  input.held ++ input.rest

/-- Take as much of the source as can be held. -/
def fill (input : Input) : Input :=
  ⟨input.pending.take blockSize, input.pending.drop blockSize⟩

/-- Give out a number of bytes.  The source is taken in blocks, of which the
first starts with what is held. -/
def drop (input : Input) (count : Nat) : Input :=
  if count ≤ input.held.length then
    ⟨input.held.drop count, input.rest⟩
  else
    let taken := ((count - 1) / blockSize + 1) * blockSize
    ⟨(input.pending.take taken).drop count, input.pending.drop taken⟩

/-- The next line, without the line feed that ends it. -/
def readLine? (input : Input) : Option (Bytes × Input) :=
  if input.pending.isEmpty then
    none
  else
    match input.pending.splitLine with
    | (line, some _) => some (line, input.drop (line.length + 1))
    | (line, none) => some (line, input.drop line.length)

/-- Reading ahead loses nothing. -/
theorem pending_drop (input : Input) (count : Nat) :
    (input.drop count).pending = input.pending.drop count := by
  unfold drop
  split
  · next fits => exact (List.drop_append_of_le_length fits).symm
  · have enough : count ≤ ((count - 1) / blockSize + 1) * blockSize := by
      have := Nat.lt_div_mul_add (a := count - 1) (b := blockSize) (by decide)
      rw [Nat.add_mul, Nat.one_mul]
      omega
    generalize ((count - 1) / blockSize + 1) * blockSize = taken at enough ⊢
    simp only [pending]
    generalize input.held ++ input.rest = whole
    conv => rhs; rw [← List.take_append_drop taken whole]
    rw [List.drop_append]
    by_cases short : whole.length ≤ taken
    · simp [List.take_of_length_le short, List.drop_eq_nil_of_le short]
    · have : count - (whole.take taken).length = 0 := by
        rw [List.length_take]
        omega
      rw [this, List.drop_zero]

end Input

end LoxLang
