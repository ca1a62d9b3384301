import ScriptNatives.Cell

/-!
# Storage

A block of cells that starts all zero. Only the cells that were written are kept, each once, so a
block costs what is in it and not what it spans.
-/
namespace ScriptNatives

/-- A block of `size` cells. -/
structure Storage where
  size : Nat
  /-- The cells that were written, newest first; every other cell is zero. -/
  written : List (Nat × Cell) := []
  deriving DecidableEq, Repr

namespace Storage

/-- The cell at index `i`, if the block has one. -/
def get? (s : Storage) (i : Nat) : Option Cell :=
  if i < s.size then some ((s.written.lookup i).getD 0) else none

/-- Writes the cell at index `i`; beyond the end nothing changes. -/
def set (s : Storage) (i : Nat) (value : Cell) : Storage :=
  if i < s.size then
    { s with written := (i, value) :: s.written.filter fun entry => entry.1 != i }
  else
    s

/-- Zeroes the cells from index `first` up to, and not including, index `last`. -/
def clear (s : Storage) (first last : Nat) : Storage :=
  { s with written := s.written.filter fun entry => entry.1 < first || last ≤ entry.1 }

theorem size_set (s : Storage) (i : Nat) (value : Cell) : (s.set i value).size = s.size := by
  unfold set
  split <;> rfl

theorem size_clear (s : Storage) (first last : Nat) : (s.clear first last).size = s.size := rfl

theorem get?_eq_none_iff (s : Storage) (i : Nat) : s.get? i = none ↔ s.size ≤ i := by
  unfold get?
  split <;> simp <;> omega

/-- Leaving entries out does not change what is looked up, unless it is one of them. -/
theorem lookup_filter (keep : Nat → Bool) (i : Nat) (l : List (Nat × Cell)) :
    (l.filter fun entry => keep entry.1).lookup i = if keep i then l.lookup i else none := by
  induction l with
  | nil => simp
  | cons entry l ih =>
    obtain ⟨k, v⟩ := entry
    by_cases hik : i = k
    · subst hik
      by_cases hk : keep i <;> simp [hk, ih]
    · have hne : (i == k) = false := beq_false_of_ne hik
      by_cases hk : keep k <;> simp [hk, List.lookup_cons, hne, ih]

theorem get?_set (s : Storage) (i j : Nat) (value : Cell) :
    (s.set j value).get? i = if i = j ∧ j < s.size then some value else s.get? i := by
  unfold set get?
  by_cases hj : j < s.size
  · by_cases hi : i = j
    · subst hi
      simp [hj]
    · have hne : (i == j) = false := beq_false_of_ne hi
      simp [hj, hi, List.lookup_cons, hne, lookup_filter (· != j)]
  · simp [hj]

theorem get?_clear (s : Storage) (i first last : Nat) :
    (s.clear first last).get? i =
      if first ≤ i ∧ i < last ∧ i < s.size then some 0 else s.get? i := by
  unfold clear get?
  rw [lookup_filter fun k => k < first || last ≤ k]
  by_cases hi : i < s.size <;> by_cases hr : first ≤ i ∧ i < last
  · have hk : ¬ (i < first ∨ last ≤ i) := by omega
    simp [hi, hr, hk]
  · have hk : i < first ∨ last ≤ i := by omega
    have hz : ¬ (first ≤ i ∧ i < last ∧ i < s.size) := by omega
    rw [if_neg hz]
    simp [hi, hk]
  · simp [hi]
  · simp [hi]

end Storage

end ScriptNatives
