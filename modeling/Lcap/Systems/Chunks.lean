import Mathlib.Data.List.Basic

namespace Systems

variable {β : Type} {m : Nat → β} {step : Nat → Nat} {bytes : List β} {rest : Nat → β}

/-- The `len` cells of a memory from `off` on. -/
def slice (m : Nat → β) (off len : Nat) : List β := (List.range len).map fun i => m (off + i)

/-- A memory that starts with the given bytes. -/
def laid (bytes : List β) (rest : Nat → β) : Nat → β := fun i => bytes[i]?.getD (rest i)

theorem slice_length (m : Nat → β) (off len : Nat) : (slice m off len).length = len := by
  simp [slice]

theorem slice_getElem? (m : Nat → β) (off len i : Nat) :
    (slice m off len)[i]? = if i < len then some (m (off + i)) else none := by
  by_cases hi : i < len
  · simp [slice, hi]
  · simp [slice, hi]

theorem slice_append (m : Nat → β) (off a b : Nat) :
    slice m off (a + b) = slice m off a ++ slice m (off + a) b := by
  induction b with
  | zero => simp [slice]
  | succ b ih =>
    have hs : ∀ off n, slice m off (n + 1) = slice m off n ++ [m (off + n)] := by
      intro off n
      simp [slice, List.range_succ]
    rw [← Nat.add_assoc, hs, hs, ih, List.append_assoc, Nat.add_assoc]

theorem slice_laid (h : off + len ≤ bytes.length) :
    slice (laid bytes rest) off len = (bytes.drop off).take len := by
  apply List.ext_getElem?
  intro i
  rw [slice_getElem?, List.getElem?_take, List.getElem?_drop]
  by_cases hi : i < len
  · have hlt : off + i < bytes.length := by omega
    simp [hi, laid, List.getElem?_eq_getElem hlt]
  · simp [hi]

/-- A shorter slice is the beginning of a longer one. -/
theorem slice_take (m : Nat → β) (off : Nat) (h : a ≤ b) :
    (slice m off b).take a = slice m off a := by
  obtain ⟨d, rfl⟩ := Nat.exists_eq_add_of_le h
  rw [slice_append]
  exact List.take_left' (slice_length m off a)

/-! ## Chunks that lie one behind the other -/

/-- The places of `n` chunks, each found from the one before it by its length. -/
def walk (step : Nat → Nat) : Nat → Nat → List Nat
  | 0, _ => []
  | n + 1, off => off :: walk step n (off + step off)

theorem walk_length (step : Nat → Nat) (n off : Nat) : (walk step n off).length = n := by
  induction n generalizing off with
  | zero => rfl
  | succ n ih => simp [walk, ih]

/-- Where each chunk determines its own length, walking over joined chunks finds
them again. -/
theorem walk_chunks {chunks : List (List β)}
    (hm : slice m off chunks.flatten.length = chunks.flatten)
    (hstep : ∀ c ∈ chunks, ∀ o, slice m o c.length = c → step o = c.length) :
    (walk step chunks.length off).map (fun o => slice m o (step o)) = chunks := by
  induction chunks generalizing off with
  | nil => rfl
  | cons c rest ih =>
    rw [List.flatten_cons, List.length_append, slice_append] at hm
    obtain ⟨hc, hrest⟩ := List.append_inj hm (slice_length m off c.length)
    have hlen : step off = c.length := hstep c List.mem_cons_self off hc
    rw [List.length_cons, walk, List.map_cons, hlen, hc,
      ih hrest fun d hd => hstep d (List.mem_cons_of_mem c hd)]

end Systems
