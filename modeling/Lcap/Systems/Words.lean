import Mathlib.Data.List.TakeWhile

namespace Systems

variable {α : Type} {p : α → Bool} {word tail l : List α} {a : α}

/-- A list that is not used up splits at the first element that fails. -/
theorem split_at_first (h : l.dropWhile p = a :: tail) :
    ∃ word, l = word ++ a :: tail ∧ (∀ x ∈ word, p x = true) ∧ p a = false := by
  refine ⟨l.takeWhile p, ?_, fun x hx => List.mem_takeWhile_imp hx, ?_⟩
  · rw [← h, List.takeWhile_append_dropWhile]
  · have hhead := List.head?_dropWhile_not p l
    rw [h] at hhead
    exact hhead

theorem dropWhile_to_first (h : ∀ x ∈ word, p x = true) (ha : p a = false) :
    (word ++ a :: tail).dropWhile p = a :: tail := by
  rw [List.dropWhile_append_of_pos h]
  exact List.dropWhile_cons_of_neg (by simp [ha])

theorem ne_nil_of_first (h : l.dropWhile p = a :: tail) : l ≠ [] := by
  intro hnil
  rw [hnil] at h
  cases h

/-- A word ends where the next element fails. -/
theorem dropWhile_word (h : ∀ x ∈ word, p x = true) (htail : ∀ x ∈ tail.head?, p x = false) :
    (word ++ tail).dropWhile p = tail := by
  cases tail with
  | nil =>
    rw [List.append_nil]
    exact List.dropWhile_eq_nil_iff.mpr h
  | cons x rest => exact dropWhile_to_first h (htail x rfl)

theorem takeWhile_word (h : ∀ x ∈ word, p x = true) (htail : ∀ x ∈ tail.head?, p x = false) :
    (word ++ tail).takeWhile p = word := by
  rw [List.takeWhile_append_of_pos h]
  cases tail with
  | nil => simp
  | cons x rest =>
    rw [List.takeWhile_cons_of_neg (by simpa using htail x rfl), List.append_nil]

end Systems
