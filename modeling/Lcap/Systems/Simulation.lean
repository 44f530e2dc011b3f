import Lcap.Systems.Runs
import Mathlib.Data.List.Forall2

namespace Systems

variable {σ ι τ κ : Type} {sys : System σ ι} {spec : System τ κ} {C : σ → ι → Prop}
  {D : τ → κ → Prop}

/-- A relation between the states of two systems carries over to the ends of runs when
the second one can follow each step of the first. The second one may stand still, and
what all reachable states of either have in common may be used. -/
theorem Reach.simulate {R : σ → τ → Prop} {P : σ → Prop} {Q : τ → Prop} (h : Reach sys C t)
    (hp : ∀ s, Reach sys C s → P s) (hq : ∀ a, Reach spec D a → Q a) (hinit : R sys.init spec.init)
    (hstep : ∀ s l t a, P s → Q a → R s a → C s l → sys.step s l = some t →
      ∃ b, Steps spec D a b ∧ R t b) : ∃ a, Reach spec D a ∧ R t a := by
  induction h with
  | refl => exact ⟨_, .refl, hinit⟩
  | tail hr hl hs ih =>
    obtain ⟨a, ha, hra⟩ := ih
    obtain ⟨b, hab, hb⟩ := hstep _ _ _ a (hp _ hr) (hq a ha) hra hl hs
    exact ⟨b, ha.trans hab, hb⟩

/-- A step that the second system does not notice. -/
theorem Steps.stutter {P : τ → Prop} (h : P a) : ∃ b, Steps spec D a b ∧ P b := ⟨a, .refl, h⟩

/-- A step that it follows by one of its own. -/
theorem Steps.follow {P : τ → Prop} (hl : D a l) (hs : spec.step a l = some b) (h : P b) :
    ∃ b, Steps spec D a b ∧ P b := ⟨b, .single hl hs, h⟩

/-! ## Histories that correspond event by event -/

variable {α β : Type} {R : α → β → Prop}

/-- Where one history splits, the other one does. -/
theorem corresponding_split {pre post : List α} {l : List β}
    (h : List.Forall₂ R (pre ++ e :: post) l) :
    ∃ pre' e' post', l = pre' ++ e' :: post' ∧ List.Forall₂ R pre pre' ∧ R e e' := by
  induction pre generalizing l with
  | nil =>
    obtain ⟨e', post', he, _, rfl⟩ := List.forall₂_cons_left_iff.mp h
    exact ⟨[], e', post', rfl, .nil, he⟩
  | cons a pre ih =>
    obtain ⟨a', l', ha, hl, rfl⟩ := List.forall₂_cons_left_iff.mp h
    obtain ⟨pre', e', post', rfl, hpre, he⟩ := ih hl
    exact ⟨a' :: pre', e', post', rfl, .cons ha hpre, he⟩

theorem corresponding_mem {l : List α} {l' : List β} (h : List.Forall₂ R l l') (he : e ∈ l) :
    ∃ e' ∈ l', R e e' := by
  obtain ⟨pre, post, rfl⟩ := List.append_of_mem he
  obtain ⟨pre', e', post', rfl, _, hr⟩ := corresponding_split h
  exact ⟨e', List.mem_append_right _ List.mem_cons_self, hr⟩

theorem corresponding_last {l : List α} {l' : List β} (h : List.Forall₂ R l l')
    (he : l.getLast? = some e) :
    ∃ e', l'.getLast? = some e' ∧ R e e' := by
  obtain ⟨pre, rfl⟩ := List.getLast?_eq_some_iff.mp he
  obtain ⟨pre', e', post', rfl, hpre, hr⟩ := corresponding_split h
  have hlen := h.length_eq
  simp only [List.length_append, List.length_cons, List.length_nil, hpre.length_eq] at hlen
  obtain rfl := List.eq_nil_of_length_eq_zero (l := post') (by omega)
  exact ⟨e', List.getLast?_concat, hr⟩

end Systems
