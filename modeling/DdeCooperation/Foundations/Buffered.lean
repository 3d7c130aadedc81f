import Mathlib.Data.List.Basic

/-!
# Buffered reading

A reader takes from a source as much as its buffer holds, and hands it out from there. The source
may give less than it is asked for, but something as long as it has something. Then the pieces
that are read are the blocks of what there was, whatever the sizes of the buffer and of the
shares (`Buffered.read_eq`, `Buffered.flatten_blocks`).
-/

namespace DdeCooperation.Foundations

open List

/-- What was read ahead, and what is left in the source. -/
structure Buffered (β : Type*) where
  buffer : List β := []
  rest : List β
deriving DecidableEq

namespace Buffered

variable {β : Type*} (capacity : ℕ) (share : List β → ℕ)

/-- All that can still be read. -/
def remaining (reader : Buffered β) : List β := reader.buffer ++ reader.rest

/-- How much the source gives. -/
def given (rest : List β) : ℕ := min capacity (max 1 (share rest))

def fill (reader : Buffered β) : Buffered β where
  buffer := reader.rest.take (given capacity share reader.rest)
  rest := reader.rest.drop (given capacity share reader.rest)

/-- The buffer is filled when it is empty. -/
def ready (reader : Buffered β) : Buffered β :=
  if reader.buffer.isEmpty then reader.fill capacity share else reader

/-- The loop that collects up to `size` elements, in at most so many rounds. -/
def readLoop : ℕ → ℕ → Buffered β → List β × Buffered β
  | 0, _, reader => ([], reader)
  | rounds + 1, size, reader =>
    if size = 0 then ([], reader)
    else
      let reader := reader.ready capacity share
      if reader.buffer.isEmpty then ([], reader)
      else
        let number := min size reader.buffer.length
        let (more, later) := readLoop rounds (size - number)
          { reader with buffer := reader.buffer.drop number }
        (reader.buffer.take number ++ more, later)

/-- Every round copies something, so that there are at most `size` of them. -/
def read (size : ℕ) (reader : Buffered β) : List β × Buffered β :=
  readLoop capacity share size size reader

/-- The blocks up to the end, or until the reader is stopped after one of them. -/
def blocks (size : ℕ) (stops : ℕ → Bool) : ℕ → ℕ → Buffered β → List (List β)
  | 0, _, _ => []
  | rounds + 1, index, reader =>
    let (block, later) := reader.read capacity share size
    if block.isEmpty then []
    else if stops index then [block]
    else block :: blocks size stops rounds (index + 1) later

theorem remaining_ready (reader : Buffered β) :
    (reader.ready capacity share).remaining = reader.remaining := by
  unfold ready
  split_ifs with hempty
  · rw [remaining, remaining, fill, take_append_drop, isEmpty_iff.mp hempty,
      nil_append]
  · rfl

variable {capacity} {share} {reader : Buffered β}

/-- After a filling the buffer is empty only at the end. -/
theorem remaining_of_ready (hcapacity : 0 < capacity)
    (h : (reader.ready capacity share).buffer = []) : reader.remaining = [] := by
  unfold ready at h
  split_ifs at h with hempty
  · rw [remaining, isEmpty_iff.mp hempty, nil_append]
    rcases take_eq_nil_iff.mp h with hgiven | hrest
    · unfold given at hgiven
      omega
    · exact hrest
  · exact absurd (isEmpty_iff.mpr h) hempty

variable {rounds size : ℕ}

theorem readLoop_eq (hcapacity : 0 < capacity) (hrounds : size ≤ rounds) (reader : Buffered β) :
    (readLoop capacity share rounds size reader).1 = reader.remaining.take size ∧
      (readLoop capacity share rounds size reader).2.remaining = reader.remaining.drop size := by
  induction rounds generalizing size reader with
  | zero =>
    obtain rfl : size = 0 := by omega
    exact ⟨rfl, rfl⟩
  | succ rounds ih =>
    unfold readLoop
    split_ifs with hsize
    · rw [hsize]
      exact ⟨rfl, rfl⟩
    · rw [← remaining_ready capacity share reader]
      generalize hfilled : reader.ready capacity share = filled
      dsimp only
      split_ifs with hend
      · -- The source has nothing left.
        have hnone : filled.remaining = [] := by
          rw [← hfilled] at hend ⊢
          rw [remaining_ready]
          exact remaining_of_ready hcapacity (isEmpty_iff.mp hend)
        rw [hnone]
        simp
      · have hpositive : 0 < filled.buffer.length :=
          length_pos_iff.mpr (by simpa using hend)
        obtain ⟨hmore, hlater⟩ := ih (show size - min size filled.buffer.length ≤ rounds by omega)
          { filled with buffer := filled.buffer.drop (min size filled.buffer.length) }
        rw [hmore, hlater]
        unfold remaining
        dsimp only
        rw [← drop_append_of_le_length (Nat.min_le_right _ _), drop_drop,
          ← take_append_of_le_length (Nat.min_le_right _ _), ← take_add,
          Nat.add_sub_cancel' (Nat.min_le_left _ _)]
        exact ⟨rfl, rfl⟩

variable (share) in
/-- What is read is the beginning of what there is. -/
theorem read_eq (hcapacity : 0 < capacity) (size : ℕ) (reader : Buffered β) :
    (reader.read capacity share size).1 = reader.remaining.take size ∧
      (reader.read capacity share size).2.remaining = reader.remaining.drop size :=
  readLoop_eq hcapacity (Nat.le_refl size) reader

/-- A reader that is not stopped hands out all that there is. -/
theorem flatten_blocks (hcapacity : 0 < capacity) (hsize : 0 < size)
    {stops : ℕ → Bool} (hstops : ∀ index, stops index = false) (index : ℕ)
    (hrounds : reader.remaining.length < rounds) :
    (blocks capacity share size stops rounds index reader).flatten = reader.remaining := by
  induction rounds generalizing index reader with
  | zero => omega
  | succ rounds ih =>
    obtain ⟨hblock, hlater⟩ := read_eq share hcapacity size reader
    unfold blocks
    dsimp only
    rw [hstops index, hblock, if_neg Bool.false_ne_true]
    split_ifs with hempty
    · have hnone : reader.remaining = [] := by
        rcases take_eq_nil_iff.mp (isEmpty_iff.mp hempty) with hzero | hnone
        · omega
        · exact hnone
      exact hnone.symm
    · have hpositive : 0 < reader.remaining.length := by
        refine length_pos_iff.mpr fun hnone ↦ hempty ?_
        rw [hnone]
        simp
      rw [flatten_cons, ih (index + 1) ?_, hlater, take_append_drop]
      rw [hlater, length_drop]
      omega

end Buffered

end DdeCooperation.Foundations
