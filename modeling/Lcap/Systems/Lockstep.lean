import Mathlib.Logic.Basic

namespace Systems

variable {ε σ τ α β : Type} {R R' : σ → τ → Prop}

/-- Two computations on different states end alike: with the same error, or with the same
value and states that correspond. -/
inductive Lockstep (R : σ → τ → Prop) : Except ε (σ × α) → Except ε (τ × α) → Prop
  | error (e : ε) : Lockstep R (.error e) (.error e)
  | ok (h : R s x) (a : α) : Lockstep R (.ok (s, a)) (.ok (x, a))

theorem Lockstep.bind {m : Except ε (σ × α)} {n : Except ε (τ × α)} {f : σ × α → Except ε (σ × β)}
    {g : τ × α → Except ε (τ × β)} (h : Lockstep R m n)
    (hf : ∀ s x a, R s x → Lockstep R' (f (s, a)) (g (x, a))) :
    Lockstep R' (m >>= f) (n >>= g) := by
  cases h with
  | error e => exact .error e
  | ok hr a => exact hf _ _ a hr

/-- Both take the same branch. -/
theorem Lockstep.ite {p q : Prop} [Decidable p] [Decidable q] {m m' : Except ε (σ × α)}
    {n n' : Except ε (τ × α)}
    (hpq : p ↔ q) (ht : p → Lockstep R m n) (he : ¬ p → Lockstep R m' n') :
    Lockstep R (if p then m else m') (if q then n else n') := by
  by_cases hp : p
  · rw [if_pos hp, if_pos (hpq.mp hp)]
    exact ht hp
  · rw [if_neg hp, if_neg fun hq => hp (hpq.mpr hq)]
    exact he hp

theorem Lockstep.mono {m : Except ε (σ × α)} {n : Except ε (τ × α)} (h : Lockstep R m n)
    (hr : ∀ s x, R s x → R' s x) : Lockstep R' m n := by
  cases h with
  | error e => exact .error e
  | ok h a => exact .ok (hr _ _ h) a

end Systems
