import Mathlib.Data.List.Induction
import Mathlib.Logic.Function.Basic

namespace Systems

/-- Following `step` from a link visits these nodes one after the other and comes to
a null link. -/
inductive Walk {α : Type} (step : α → Option α) : Option α → List α → Prop
  | stop : Walk step none []
  | visit : Walk step (step n) l → Walk step (some n) (n :: l)

variable {α : Type} {prev next prev' next' : α → Option α} {p q v : Option α}
  {a b l : List α} {m n x : α}

/-- The nodes are linked both ways, behind `p` and ahead of `q`. -/
def Chained (prev next : α → Option α) (p : Option α) : List α → Option α → Prop
  | [], _ => True
  | n :: l, q => prev n = p ∧ next n = l.head?.or q ∧ Chained prev next (some n) l q

theorem last_or_cons (n : α) (l : List α) (p : Option α) :
    (n :: l).getLast?.or p = l.getLast?.or (some n) := by
  rw [List.getLast?_cons]
  cases l.getLast? with
  | none => rfl
  | some x => rfl

theorem chained_append : Chained prev next p (a ++ b) q ↔
    Chained prev next p a (b.head?.or q) ∧ Chained prev next (a.getLast?.or p) b q := by
  induction a generalizing p with
  | nil => simp [Chained]
  | cons n a ih =>
    rw [List.cons_append, Chained, Chained, ih, last_or_cons, List.head?_append,
      Option.or_assoc, and_assoc, and_assoc]

/-- Only the links of its own nodes matter to a chain. -/
theorem Chained.congr (h : Chained prev next p l q) (hp : ∀ n ∈ l, prev' n = prev n)
    (hn : ∀ n ∈ l, next' n = next n) : Chained prev' next' p l q := by
  induction l generalizing p with
  | nil => exact trivial
  | cons n l ih =>
    obtain ⟨h₁, h₂, h₃⟩ := h
    refine ⟨(hp n List.mem_cons_self).trans h₁, (hn n List.mem_cons_self).trans h₂, ?_⟩
    exact ih h₃ (fun m hm => hp m (List.mem_cons_of_mem n hm))
      (fun m hm => hn m (List.mem_cons_of_mem n hm))

/-- What is around a node in the chain is what its links say. -/
theorem Chained.around (h : Chained prev next p (a ++ n :: b) q) :
    prev n = a.getLast?.or p ∧ next n = b.head?.or q := by
  obtain ⟨_, hp, hn, _⟩ := chained_append.mp h
  exact ⟨hp, hn⟩

theorem Chained.walk_next (h : Chained prev next p l none) : Walk next l.head? l := by
  induction l generalizing p with
  | nil => exact .stop
  | cons n l ih =>
    obtain ⟨_, hn, h⟩ := h
    rw [Option.or_none] at hn
    exact .visit (hn ▸ ih h)

theorem Chained.walk_prev (h : Chained prev next none l q) : Walk prev l.getLast? l.reverse := by
  induction l using List.reverseRecOn generalizing q with
  | nil => exact .stop
  | append_singleton l n ih =>
    obtain ⟨hl, hp, _⟩ := chained_append.mp h
    rw [Option.or_none] at hp
    rw [List.getLast?_concat, List.reverse_concat]
    exact .visit (hp ▸ ih hl)

variable [DecidableEq α]

/-- A write through a link, where there is a node behind it. -/
def link (f : α → Option α) (o v : Option α) : α → Option α :=
  match o with
  | some n => Function.update f n v
  | none => f

theorem link_of_ne (h : p ≠ some x) : link next p v x = next x := by
  cases p with
  | none => rfl
  | some n => exact Function.update_of_ne (fun he => h (congrArg some he.symm)) v next

theorem link_update (h : p ≠ some n) (v w : Option α) :
    link (Function.update next n w) p v = Function.update (link next p v) n w := by
  cases p with
  | none => rfl
  | some m => exact Function.update_comm (fun he => h (congrArg some he.symm)) w v next

theorem update_outside (hn : n ∉ l) (hm : m ∈ l) : Function.update next n v m = next m := by
  have hne : m ≠ n := by
    rintro rfl
    exact hn hm
  exact Function.update_of_ne hne v next

/-- Writes to nodes that are not in the chain leave it alone. -/
theorem Chained.update (h : Chained prev next p l q) (hn : n ∉ l) (v w : Option α) :
    Chained (Function.update prev n v) (Function.update next n w) p l q :=
  h.congr (fun _ hm => update_outside hn hm) (fun _ hm => update_outside hn hm)

theorem Chained.link_next (h : Chained prev next p l q) (hd : l.Nodup) :
    Chained prev (link next l.getLast? v) p l v := by
  cases l using List.reverseRecOn with
  | nil => exact trivial
  | append_singleton l n =>
    obtain ⟨hl, hp, _⟩ := chained_append.mp h
    have hn : n ∉ l := fun hm => (List.nodup_append.mp hd).2.2 n hm n List.mem_cons_self rfl
    rw [List.getLast?_concat, link]
    refine chained_append.mpr ⟨?_, hp, Function.update_self n v next, trivial⟩
    exact hl.congr (fun _ _ => rfl) (fun _ hm => update_outside hn hm)

theorem Chained.link_prev (h : Chained prev next p l q) (hd : l.Nodup) :
    Chained (link prev l.head? v) next v l q := by
  cases l with
  | nil => exact trivial
  | cons n l =>
    obtain ⟨_, hn, hl⟩ := h
    have hm : n ∉ l := (List.nodup_cons.mp hd).1
    rw [List.head?_cons, link]
    refine ⟨Function.update_self n v prev, hn, ?_⟩
    exact hl.congr (fun _ hml => update_outside hm hml) (fun _ _ => rfl)

/-- Two neighbouring chains are linked to whatever is to stand between them. -/
theorem Chained.relink {c : List α} (h : Chained prev next p (a ++ c ++ b) q)
    (hd : (a ++ c ++ b).Nodup) (v w : Option α) :
    Chained (link prev b.head? w) (link next a.getLast? v) p a v ∧
      Chained (link prev b.head? w) (link next a.getLast? v) w b q := by
  obtain ⟨hab, hb⟩ := chained_append.mp h
  obtain ⟨ha, _⟩ := chained_append.mp hab
  obtain ⟨hdac, hdb, hdis⟩ := List.nodup_append.mp hd
  obtain ⟨hda, _, _⟩ := List.nodup_append.mp hdac
  have hne : ∀ m ∈ a, ∀ n ∈ b, m ≠ n := fun m hm n hn => hdis m (List.mem_append_left c hm) n hn
  constructor
  · refine (ha.link_next hda).congr (fun m hm => ?_) (fun _ _ => rfl)
    exact link_of_ne fun he => hne m hm m (List.mem_of_head? he) rfl
  · refine (hb.link_prev hdb).congr (fun _ _ => rfl) (fun n hn => ?_)
    exact link_of_ne fun he => hne n (List.mem_of_getLast? he) n hn rfl

/-- A node that stands ready with its own links enters between two neighbours. -/
theorem Chained.insert (h : Chained prev next p (a ++ b) q) (hd : (a ++ b).Nodup) (hm : m ∉ a ++ b)
    (hp : prev m = a.getLast?.or p) (hn : next m = b.head?.or q) :
    Chained (link prev b.head? (some m)) (link next a.getLast? (some m)) p (a ++ m :: b) q := by
  have hb : b.head? ≠ some m := fun he => hm (List.mem_append_right a (List.mem_of_head? he))
  have ha : a.getLast? ≠ some m := fun he => hm (List.mem_append_left b (List.mem_of_getLast? he))
  obtain ⟨hl, hr⟩ := Chained.relink (c := []) (by simpa using h) (by simpa using hd)
    (some m) (some m)
  refine chained_append.mpr ⟨hl, ?_, ?_, hr⟩
  · rw [link_of_ne hb, hp]
  · rw [link_of_ne ha, hn]

/-- Where a node stood, its two neighbours are linked to each other. -/
theorem Chained.unlink (h : Chained prev next p (a ++ n :: b) q) (hd : (a ++ n :: b).Nodup) :
    Chained (link prev b.head? (a.getLast?.or p))
      (link next a.getLast? (b.head?.or q)) p (a ++ b) q := by
  rw [List.append_cons] at h hd
  exact chained_append.mpr (h.relink hd _ _)

end Systems
