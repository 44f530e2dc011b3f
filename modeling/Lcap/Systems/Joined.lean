import Mathlib.Data.List.Basic
import Mathlib.Data.List.Range

namespace Systems

variable {α : Type} {f g : Nat → List α}

/-- The first `n` blocks of a sequence, joined in their order. -/
def joined (f : Nat → List α) (n : Nat) : List α := (List.range n).flatMap f

theorem joined_succ (f : Nat → List α) (n : Nat) : joined f (n + 1) = joined f n ++ f n := by
  rw [joined, List.range_succ, List.flatMap_append, List.flatMap_singleton]
  rfl

theorem joined_congr (h : ∀ p, p < n → f p = g p) : joined f n = joined g n :=
  List.flatMap_congr fun p hp => h p (List.mem_range.mp hp)

/-- Fewer blocks make a shorter prefix. -/
theorem joined_le (f : Nat → List α) (h : m ≤ n) : joined f m <+: joined f n := by
  obtain ⟨d, rfl⟩ := Nat.exists_eq_add_of_le h
  clear h
  induction d with
  | zero => exact List.prefix_rfl
  | succ d ih =>
    rw [← Nat.add_assoc, joined_succ]
    exact ih.trans (List.prefix_append _ _)

/-- In an ordered join an earlier block lies below a later one. -/
theorem joined_ordered {r : α → α → Prop} (h : (joined f n).Pairwise r) (hpq : p < q) (hq : q < n)
    (ha : a ∈ f p) (hb : b ∈ f q) : r a b := by
  rw [joined, List.pairwise_flatMap, List.pairwise_iff_getElem] at h
  have hpair := h.2 p q (by simp; omega) (by simpa using hq) hpq
  simp only [List.getElem_range] at hpair
  exact hpair a ha b hb

end Systems
