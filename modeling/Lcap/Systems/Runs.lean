import Mathlib.Logic.Basic

namespace Systems

/-- A guarded executable step: `none` when the input is not enabled. -/
structure System (σ ι : Type) where
  init : σ
  step : σ → ι → Option σ

variable {σ ι τ κ : Type} {sys : System σ ι} {C D : σ → ι → Prop}

/-- Runs from `s` every step of which is taken from a state and an input that `C` admits. -/
inductive Steps (sys : System σ ι) (C : σ → ι → Prop) (s : σ) : σ → Prop
  | refl : Steps sys C s s
  | tail : Steps sys C s t → C t l → sys.step t l = some u → Steps sys C s u

/-- The states at the end of the runs under `C` from the initial state. -/
abbrev Reach (sys : System σ ι) (C : σ → ι → Prop) (t : σ) : Prop := Steps sys C sys.init t

/-- The condition that admits every step. -/
def Always : σ → ι → Prop := fun _ _ => True

instance (s : σ) (l : ι) : Decidable (Always s l) := isTrue trivial

theorem Steps.mono (h : Steps sys C s t) (hc : ∀ s l, C s l → D s l) : Steps sys D s t := by
  induction h with
  | refl => exact .refl
  | tail _ hl hs ih => exact .tail ih (hc _ _ hl) hs

theorem Steps.always (h : Steps sys C s t) : Steps sys Always s t :=
  h.mono (fun _ _ _ => trivial)

theorem Steps.trans (h : Steps sys C s t) (h' : Steps sys C t u) : Steps sys C s u := by
  induction h' with
  | refl => exact h
  | tail _ hl hs ih => exact .tail ih hl hs

/-- What one admitted step preserves, a whole run preserves. -/
theorem Steps.preserve {P : σ → Prop} (h : Steps sys C s t) (hs : P s)
    (hstep : ∀ s l t, P s → C s l → sys.step s l = some t → P t) : P t := by
  induction h with
  | refl => exact hs
  | tail _ hl hu ih => exact hstep _ _ _ ih hl hu

/-- An invariant may lean on another that holds of the same runs. -/
theorem Reach.induct {P Q : σ → Prop} (h : Reach sys C t)
    (hq : ∀ t, Reach sys C t → Q t) (hinit : P sys.init)
    (hstep : ∀ s l t, Q s → P s → C s l → sys.step s l = some t → P t) : P t := by
  induction h with
  | refl => exact hinit
  | tail hr hl hu ih => exact hstep _ _ _ (hq _ hr) ih hl hu

/-- A component of a system runs by its own steps when each step of the whole
takes it some of them. -/
theorem Steps.project {part : System τ κ} {D : τ → κ → Prop} (f : σ → τ) (h : Steps sys C s t)
    (hstep : ∀ s l t, C s l → sys.step s l = some t → Steps part D (f s) (f t)) :
    Steps part D (f s) (f t) := by
  induction h with
  | refl => exact .refl
  | tail _ hl hs ih => exact ih.trans (hstep _ _ _ hl hs)

theorem Steps.single (hl : C s l) (hs : sys.step s l = some t) : Steps sys C s t :=
  .tail .refl hl hs

/-- Replays the inputs, checking the condition before each step. -/
def obeys (sys : System σ ι) (C : σ → ι → Prop) [∀ s l, Decidable (C s l)] :
    σ → List ι → Bool
  | _, [] => true
  | s, l :: ls => decide (C s l) && match sys.step s l with
    | some t => obeys sys C t ls
    | none => false

/-- The state after the inputs, stopping at the first one that is not enabled. -/
def replay (sys : System σ ι) : σ → List ι → σ
  | s, [] => s
  | s, l :: ls => match sys.step s l with
    | some t => replay sys t ls
    | none => s

/-- A replay that passes its checks is a run. -/
theorem steps_of_obeys [∀ s l, Decidable (C s l)] {ls : List ι}
    (h : obeys sys C s ls = true) : Steps sys C s (replay sys s ls) := by
  induction ls generalizing s with
  | nil => exact .refl
  | cons l ls ih =>
    simp only [obeys, Bool.and_eq_true, decide_eq_true_eq] at h
    obtain ⟨hl, h⟩ := h
    cases hs : sys.step s l with
    | none => simp [hs] at h
    | some t =>
      simp only [hs] at h
      simp only [replay, hs]
      exact (Steps.single hl hs).trans (ih h)

/-- The system with a log beside it, extended by what each step puts out. -/
def logged {ε : Type} (sys : System σ ι) (out : σ → ι → List ε) : System (σ × List ε) ι where
  init := (sys.init, [])
  step x l := (sys.step x.1 l).map (·, x.2 ++ out x.1 l)

theorem logged_step {ε : Type} {out : σ → ι → List ε} {x y : σ × List ε}
    (h : (logged sys out).step x l = some y) :
    sys.step x.1 l = some y.1 ∧ y.2 = x.2 ++ out x.1 l := by
  obtain ⟨t, ht, rfl⟩ := Option.map_eq_some_iff.mp h
  exact ⟨ht, rfl⟩

/-- Keeping a log does not change what the system does. -/
theorem reach_of_logged {ε : Type} {out : σ → ι → List ε} {x : σ × List ε}
    (h : Reach (logged sys out) (fun x l => C x.1 l) x) : Reach sys C x.1 := by
  refine Steps.project Prod.fst h ?_
  intro x l y hl hs
  exact .single hl (logged_step hs).1

end Systems
