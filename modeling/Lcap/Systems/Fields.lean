import Mathlib.Data.List.Basic

namespace Systems

variable {β : Type} {nul : β} {field s : List β}

/-- A copy into a field: the bytes that are written from its start on, and what the field
contains afterwards. -/
structure FieldCopy (β : Type) where
  written : List β
  field : List β
  deriving DecidableEq, Repr

def copyInto (field bytes : List β) : FieldCopy β where
  written := bytes
  field := bytes.take field.length ++ field.drop bytes.length

/-- The copy stays in the field and leaves the whole string there, with its terminator. -/
structure FieldCopy.Exact (nul : β) (c : FieldCopy β) (s : List β) : Prop where
  within : c.written.length ≤ c.field.length
  copied : s ++ [nul] <+: c.field

theorem copy_into_length (field bytes : List β) :
    (copyInto field bytes).field.length = field.length := by
  simp only [copyInto, List.length_append, List.length_take, List.length_drop]
  omega

/-- The terminator takes a place of its own. -/
theorem FieldCopy.Exact.lt {c : FieldCopy β} (h : c.Exact nul s) : s.length < c.field.length := by
  have hle := h.copied.length_le
  rwa [List.length_append] at hle

/-- A string and its terminator, whatever their length. -/
theorem string_exact_iff (field s : List β) :
    (copyInto field (s ++ [nul])).Exact nul s ↔ s.length < field.length := by
  constructor
  · intro h
    have hlt := h.lt
    rwa [copy_into_length] at hlt
  · intro h
    have hlen : (s ++ [nul]).length ≤ field.length := by rwa [List.length_append]
    refine ⟨by rwa [copy_into_length], ?_⟩
    rw [copyInto, List.take_of_length_le hlen]
    exact List.prefix_append _ _

/-- A string cut at the end of the field, or padded up to it. -/
theorem padded_exact_iff (field s : List β) :
    (copyInto field (s.take field.length ++ List.replicate (field.length - s.length) nul)).Exact nul
    s ↔
      s.length < field.length := by
  constructor
  · intro h
    have hlt := h.lt
    rwa [copy_into_length] at hlt
  · intro h
    obtain ⟨pad, hpad⟩ := Nat.exists_eq_add_of_lt h
    have hsub : field.length - s.length = pad + 1 := by omega
    have hlen : (s.take field.length ++ List.replicate (pad + 1) nul).length ≤ field.length := by
      simp only [List.length_append, List.length_take, List.length_replicate]
      omega
    rw [hsub]
    refine ⟨by rwa [copy_into_length], ?_⟩
    rw [copyInto, List.take_of_length_le hlen, List.take_of_length_le (Nat.le_of_lt h),
      List.replicate_succ, List.append_assoc, List.cons_append]
    exact ⟨_, List.append_assoc s [nul] _⟩

end Systems
