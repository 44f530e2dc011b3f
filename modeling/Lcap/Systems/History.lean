import Mathlib.Data.List.Basic

namespace Systems

variable {ε : Type} {J : List ε → ε → Prop} {tr post : List ε} {e : ε}

/-- Every event of the history is justified by the events before it. -/
def Justified (J : List ε → ε → Prop) (tr : List ε) : Prop :=
  ∀ pre e post, tr = pre ++ e :: post → J pre e

theorem Justified.nil : Justified J [] := by
  intro pre e post h
  simp at h

/-- A history grows by events that what came before justifies. -/
theorem Justified.snoc (h : Justified J tr) (he : J tr e) : Justified J (tr ++ [e]) := by
  intro pre e' post hs
  rcases List.append_eq_append_iff.mp hs with ⟨mid, rfl, hm⟩ | ⟨mid, rfl, hm⟩
  · cases mid with
    | nil =>
      cases hm
      simpa using he
    | cons a mid => simp at hm
  · cases mid with
    | nil =>
      cases hm
      simpa using he
    | cons a mid =>
      obtain ⟨rfl, rfl⟩ := List.cons.inj hm
      exact h pre _ mid rfl

/-- Events that need no justification may always be added. -/
theorem Justified.append (h : Justified J tr) (hp : ∀ e ∈ post, ∀ pre, J pre e) :
    Justified J (tr ++ post) := by
  induction post generalizing tr with
  | nil => simpa using h
  | cons e post ih =>
    have hs := ih (h.snoc (hp e List.mem_cons_self tr))
      (fun e' he' => hp e' (List.mem_cons_of_mem e he'))
    simpa using hs

/-- Each of several new events is justified by what is before it. -/
theorem Justified.extend (h : Justified J tr)
    (hp : ∀ pre e suf, post = pre ++ e :: suf → J (tr ++ pre) e) :
    Justified J (tr ++ post) := by
  induction post generalizing tr with
  | nil => simpa using h
  | cons e post ih =>
    have hfirst := hp [] e post rfl
    rw [List.append_nil] at hfirst
    have hs := ih (h.snoc hfirst) fun pre e' suf he => by
      rw [List.append_assoc]
      exact hp (e :: pre) e' suf (by rw [he]; rfl)
    simpa using hs

/-! ## What was switched on and not off again -/

/-- The last event that switches on has none that switches off behind it. -/
def Standing (on off : ε → Prop) (tr : List ε) : Prop :=
  ∃ pre e post, tr = pre ++ e :: post ∧ on e ∧ ∀ e' ∈ post, ¬ on e' ∧ ¬ off e'

variable {on off : ε → Prop} {a b : List ε}

theorem not_standing_nil : ¬ Standing on off [] := by
  rintro ⟨pre, e, post, h, _⟩
  simp at h

/-- What stands was switched on in the last part, or before it and is left alone by it. -/
theorem standing_append :
    Standing on off (a ++ b) ↔
      Standing on off b ∨ Standing on off a ∧ ∀ e ∈ b, ¬ on e ∧ ¬ off e := by
  constructor
  · rintro ⟨pre, e, post, h, hon, hpost⟩
    rcases List.append_eq_append_iff.mp h with ⟨mid, rfl, hm⟩ | ⟨mid, rfl, hm⟩
    · exact .inl ⟨mid, e, post, hm, hon, hpost⟩
    · cases mid with
      | nil => exact .inl ⟨[], e, post, hm.symm, hon, hpost⟩
      | cons e' mid =>
        obtain ⟨rfl, rfl⟩ := List.cons.inj hm
        refine .inr ⟨⟨pre, e, mid, rfl, hon, ?_⟩, ?_⟩
        · exact fun e' h' => hpost e' (List.mem_append_left b h')
        · exact fun e' h' => hpost e' (List.mem_append_right mid h')
  · rintro (⟨pre, e, post, rfl, hon, hpost⟩ | ⟨⟨pre, e, post, rfl, hon, hpost⟩, hb⟩)
    · exact ⟨a ++ pre, e, post, by simp, hon, hpost⟩
    · refine ⟨pre, e, post ++ b, by simp, hon, ?_⟩
      intro e' h'
      rcases List.mem_append.mp h' with h' | h'
      · exact hpost e' h'
      · exact hb e' h'

theorem standing_singleton : Standing on off [e] ↔ on e := by
  constructor
  · rintro ⟨pre, e', post, h, hon, _⟩
    obtain rfl : e' = e := by
      have hm : e' ∈ [e] := h ▸ List.mem_append_right pre List.mem_cons_self
      simpa using hm
    exact hon
  · exact fun hon => ⟨[], e, [], rfl, hon, by simp⟩

/-- Behind one more event. -/
theorem standing_snoc :
    Standing on off (tr ++ [e]) ↔ on e ∨ Standing on off tr ∧ ¬ off e := by
  rw [standing_append, standing_singleton]
  by_cases hon : on e
  · simp [hon]
  · simp [hon]

end Systems
