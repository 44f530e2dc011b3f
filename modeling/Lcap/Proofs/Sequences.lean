import Lcap.Queue
import Lcap.Reader.State
import Mathlib.Data.List.Nodup

namespace Lcap.Proofs
open Systems Queue

variable {α : Type} {lst lst' : ListState α} {l l' a b gone : List α} {m n : α}

/-- The list and the links of its nodes stand for a sequence. -/
structure Represents (lst : ListState α) (l : List α) : Prop where
  nodup : l.Nodup
  chained : Chained lst.lnPrev lst.lnNext none l none
  first : lst.lFirst = l.head?
  last : lst.lLast = l.getLast?
  count : lst.lCount = l.length
  fits : l.length < 2 ^ 31

/-- An operation brings the list from one sequence to another. What leaves it is
unlinked, what is on neither side keeps its links. -/
structure Brings (lst lst' : ListState α) (l l' gone : List α) : Prop where
  represents : Represents lst' l'
  unlinked : ∀ n ∈ gone, lst'.links n = (none, none)
  outside : ∀ n, n ∉ l → n ∉ l' → lst'.links n = lst.links n

theorem to_count_of_fits {k : Int} (h0 : 0 ≤ k) (h : k < 2 ^ 31) : toCount k = k :=
  Int.bmod_eq_of_le (by omega) (by omega)

theorem Represents.count_up (h : Represents lst l) (hlen : l'.length = l.length + 1)
    (hfit : l'.length < 2 ^ 31) : toCount (lst.lCount + 1) = l'.length := by
  have hsum : lst.lCount + 1 = l'.length := by rw [h.count, hlen]; rfl
  rw [hsum]
  exact to_count_of_fits (by omega) (by omega)

theorem Represents.count_down (h : Represents lst l) (hlen : l.length = l'.length + 1) :
    toCount (lst.lCount - 1) = l'.length := by
  have hfit := h.fits
  have hsum : lst.lCount - 1 = l'.length := by rw [h.count, hlen]; omega
  rw [hsum]
  exact to_count_of_fits (by omega) (by omega)

theorem Represents.around (h : Represents lst (a ++ n :: b)) :
    lst.lnPrev n = a.getLast? ∧ lst.lnNext n = b.head? := by
  obtain ⟨hp, hn⟩ := h.chained.around
  rw [Option.or_none] at hp hn
  exact ⟨hp, hn⟩

theorem head_ne (h : m ∉ l) : l.head? ≠ some m := fun he => h (List.mem_of_head? he)

theorem last_ne (h : m ∉ l) : l.getLast? ≠ some m := fun he => h (List.mem_of_getLast? he)

/-- What changes behind `a` concerns the first node when `a` is empty. -/
theorem first_of_changed (a b c : List α) :
    (a.getLast?.elim b.head? fun _ => (a ++ c).head?) = (a ++ b).head? := by
  cases a with
  | nil => rfl
  | cons n a => rw [List.getLast?_cons]; rfl

theorem ne_of_outside (h : m ∉ a ++ n :: b) : m ≠ n := by
  rintro rfl
  exact h (List.mem_append_right a List.mem_cons_self)

theorem links_eq {v w : Option α} (hp : lst.lnPrev n = v) (hn : lst.lnNext n = w) :
    lst.links n = (v, w) :=
  Prod.ext hp hn

variable [DecidableEq α]

/-! ## What each operation leaves -/

theorem list_append_eq (lst : ListState α) (n : α) : listAppend lst n =
    { lCount := toCount (lst.lCount + 1)
      lFirst := if lst.lCount = 0 then some n else lst.lFirst
      lLast := some n
      lnPrev := Function.update lst.lnPrev n lst.lLast
      lnNext := Function.update (link lst.lnNext lst.lLast (some n)) n none } := by
  by_cases h : lst.lCount = 0
  · simp [listAppend, h]
  · simp [listAppend, h]

theorem list_remove_eq (lst : ListState α) (n : α) : listRemove lst n =
    { lCount := toCount (lst.lCount - 1)
      lFirst := (lst.lnPrev n).elim (lst.lnNext n) fun _ => lst.lFirst
      lLast := (lst.lnNext n).elim (lst.lnPrev n) fun _ => lst.lLast
      lnPrev := Function.update (link lst.lnPrev (lst.lnNext n) (lst.lnPrev n)) n none
      lnNext := Function.update (link lst.lnNext (lst.lnPrev n) (lst.lnNext n)) n none } := by
  -- the first write may be to the node itself, and then writes what was there
  have hself : ∀ p, Function.update lst.lnNext p (lst.lnNext n) n = lst.lnNext n := by
    intro p
    by_cases hne : n = p
    · rw [hne, Function.update_self]
    · rw [Function.update_of_ne hne]
  cases hp : lst.lnPrev n with
  | none => cases hn : lst.lnNext n <;> simp [listRemove, link, hp, hn]
  | some p =>
    have hkept := hself p
    cases hn : lst.lnNext n <;> rw [hn] at hkept <;> simp [listRemove, link, hp, hn, hkept]

theorem list_pop_head_eq (h : lst.lFirst = some n) : listPopHead lst = (some n,
    { lCount := toCount (lst.lCount - 1)
      lFirst := lst.lnNext n
      lLast := if toCount (lst.lCount - 1) = 1 ∨ toCount (lst.lCount - 1) = 0 then lst.lnNext n
        else lst.lLast
      lnPrev := Function.update (link lst.lnPrev (lst.lnNext n) none) n none
      lnNext := Function.update lst.lnNext n none }) := by
  by_cases hc : toCount (lst.lCount - 1) = 1 ∨ toCount (lst.lCount - 1) = 0
  · simp only [listPopHead, h, if_pos hc]
  · simp only [listPopHead, h, if_neg hc]

theorem list_insert_before_eq (h : n ≠ m) : listInsertBefore lst n m =
    { lCount := toCount (lst.lCount + 1)
      lFirst := (lst.lnPrev n).elim (some m) fun _ => lst.lFirst
      lLast := lst.lLast
      lnPrev := Function.update (Function.update lst.lnPrev m (lst.lnPrev n)) n (some m)
      lnNext := link (Function.update lst.lnNext m (some n)) (lst.lnPrev n) (some m) } := by
  cases hp : lst.lnPrev n <;> simp [listInsertBefore, link, Function.update_of_ne h, hp]

/-! ## The sequences -/

theorem list_append_brings (h : Represents lst l) (hn : n ∉ l) (hfit : (l ++ [n]).length < 2 ^ 31) :
    Brings lst (listAppend lst n) l (l ++ [n]) [] := by
  have hlast : lst.lLast ≠ some n := h.last ▸ last_ne hn
  have hready : Chained (Function.update lst.lnPrev n lst.lLast)
      (Function.update lst.lnNext n none) none (l ++ []) none := by
    rw [List.append_nil]
    exact h.chained.update hn _ _
  have hd : (l ++ []).Nodup := by rw [List.append_nil]; exact h.nodup
  have hnew : n ∉ l ++ [] := by rw [List.append_nil]; exact hn
  have hc := hready.insert hd hnew (by rw [Function.update_self, Option.or_none, h.last])
    (Function.update_self n none lst.lnNext)
  rw [← h.last, link_update hlast] at hc
  have hnodup : (l ++ [n]).Nodup := List.nodup_middle.mpr (List.nodup_cons.mpr ⟨hnew, hd⟩)
  rw [list_append_eq]
  refine ⟨⟨hnodup, hc, ?_, List.getLast?_concat.symm, h.count_up List.length_append hfit, hfit⟩,
    by simp, ?_⟩
  · cases l with
    | nil => simp [h.count]
    | cons m l =>
      have hpos : lst.lCount ≠ 0 := by
        rw [h.count, List.length_cons]
        omega
      rw [if_neg hpos, h.first]
      rfl
  · intro m hm hm'
    have hne : m ≠ n := ne_of_outside hm'
    have hold : lst.lLast ≠ some m := h.last ▸ last_ne hm
    exact links_eq (Function.update_of_ne hne _ _)
      ((Function.update_of_ne hne _ _).trans (link_of_ne hold))

theorem list_remove_brings (h : Represents lst (a ++ n :: b)) :
    Brings lst (listRemove lst n) (a ++ n :: b) (a ++ b) [n] := by
  obtain ⟨hp, hn⟩ := h.around
  obtain ⟨hout, hd⟩ := List.nodup_cons.mp (List.nodup_middle.mp h.nodup)
  have hc := (h.chained.unlink h.nodup).update hout none none
  rw [Option.or_none, Option.or_none] at hc
  have hlen : (a ++ n :: b).length = (a ++ b).length + 1 := by
    simp only [List.length_append, List.length_cons]
    omega
  have hfit := h.fits
  rw [list_remove_eq, hp, hn]
  refine ⟨⟨hd, hc, ?_, ?_, h.count_down hlen, by omega⟩, ?_, ?_⟩
  · rw [h.first]
    exact first_of_changed a b (n :: b)
  · rw [h.last]
    cases b with
    | nil => rw [List.append_nil]; rfl
    | cons m b => simp [List.getLast?_append, List.getLast?_cons]
  · intro m hm
    rw [List.mem_singleton.mp hm]
    exact links_eq (Function.update_self _ _ _) (Function.update_self _ _ _)
  · intro m hm hm'
    have hne : m ≠ n := ne_of_outside hm
    obtain ⟨ha, hb⟩ := not_or.mp fun hor => hm' (List.mem_append.mpr hor)
    exact links_eq ((Function.update_of_ne hne _ _).trans (link_of_ne (head_ne hb)))
      ((Function.update_of_ne hne _ _).trans (link_of_ne (last_ne ha)))

theorem list_pop_head_none (h : Represents lst []) : listPopHead lst = (none, lst) := by
  rw [listPopHead, h.first]
  rfl

theorem list_pop_head_brings (h : Represents lst (n :: l)) :
    (listPopHead lst).1 = some n ∧ Brings lst (listPopHead lst).2 (n :: l) l [n] := by
  have hfirst : lst.lFirst = some n := h.first
  obtain ⟨hp, hn⟩ := h.around (a := [])
  obtain ⟨hout, hd⟩ := List.nodup_cons.mp h.nodup
  have hc := (h.chained.unlink (a := []) h.nodup).update hout none none
  have hdown : toCount (lst.lCount - 1) = l.length := h.count_down List.length_cons
  have hfit := h.fits
  rw [List.length_cons] at hfit
  rw [list_pop_head_eq hfirst, hn, hdown]
  refine ⟨rfl, ⟨hd, hc, rfl, ?_, rfl, by omega⟩, ?_, ?_⟩
  · -- with two nodes or more left, the last one is the same as before
    by_cases hle : (l.length : Int) = 1 ∨ (l.length : Int) = 0
    · rw [if_pos hle]
      match l with
      | [] | [_] => rfl
      | _ :: _ :: l =>
        simp only [List.length_cons] at hle
        omega
    · rw [if_neg hle, h.last]
      match l with
      | [] => simp at hle
      | m :: l => exact List.getLast?_cons_cons
  · intro m hm
    rw [List.mem_singleton.mp hm]
    exact links_eq (Function.update_self _ _ _) (Function.update_self _ _ _)
  · intro m hm hml
    have hne : m ≠ n := List.ne_of_not_mem_cons hm
    exact links_eq ((Function.update_of_ne hne _ _).trans (link_of_ne (head_ne hml)))
      (Function.update_of_ne hne _ _)

theorem list_insert_before_brings (h : Represents lst (a ++ n :: b)) (hm : m ∉ a ++ n :: b)
    (hfit : (a ++ m :: n :: b).length < 2 ^ 31) :
    Brings lst (listInsertBefore lst n m) (a ++ n :: b) (a ++ m :: n :: b) [] := by
  have hne : n ≠ m := (ne_of_outside hm).symm
  obtain ⟨hp, _⟩ := h.around
  have hready := h.chained.update hm a.getLast? (some n)
  have hc := hready.insert h.nodup hm (by rw [Function.update_self, Option.or_none])
    (Function.update_self m (some n) lst.lnNext)
  have hnodup : (a ++ m :: n :: b).Nodup :=
    List.nodup_middle.mpr (List.nodup_cons.mpr ⟨hm, h.nodup⟩)
  have hlen : (a ++ m :: n :: b).length = (a ++ n :: b).length + 1 := by
    simp only [List.length_append, List.length_cons]
    omega
  rw [list_insert_before_eq hne, hp]
  refine ⟨⟨hnodup, hc, ?_, ?_, h.count_up hlen hfit, hfit⟩, by simp, ?_⟩
  · rw [h.first]
    exact first_of_changed a (m :: n :: b) (n :: b)
  · rw [h.last, List.getLast?_append, List.getLast?_append, List.getLast?_cons_cons]
  · intro x hx hx'
    have hxm : x ≠ m := ne_of_outside hx'
    have hxn : x ≠ n := ne_of_outside hx
    have ha : x ∉ a := fun hxa => hx (List.mem_append_left _ hxa)
    refine links_eq ((Function.update_of_ne hxn _ _).trans (Function.update_of_ne hxm _ _)) ?_
    exact (link_of_ne (last_ne ha)).trans (Function.update_of_ne hxm _ _)

theorem list_empty_brings (h : Represents lst l) (hf : l.length < fuel) :
    ∃ lst', listEmpty fuel lst = some lst' ∧ Brings lst lst' l [] l := by
  induction l generalizing lst fuel with
  | nil =>
    obtain ⟨fuel, rfl⟩ := Nat.exists_eq_add_of_lt hf
    have hzero : ¬ 0 < lst.lCount := by rw [h.count]; simp
    refine ⟨lst, ?_, h, by simp, fun _ _ _ => rfl⟩
    rw [listEmpty, if_neg hzero]
  | cons n l ih =>
    obtain ⟨fuel, rfl⟩ := Nat.exists_eq_add_of_lt hf
    have hpos : 0 < lst.lCount := by rw [h.count, List.length_cons]; omega
    obtain ⟨_, hpop⟩ := list_pop_head_brings h
    have hleft : l.length < l.length + 1 + fuel := by omega
    obtain ⟨lst', hrest, hb⟩ := ih hpop.represents hleft
    have hn : n ∉ l := (List.nodup_cons.mp h.nodup).1
    refine ⟨lst', ?_, hb.represents, ?_, ?_⟩
    · rw [List.length_cons, listEmpty, if_pos hpos]
      exact hrest
    · intro m hm
      rcases List.mem_cons.mp hm with rfl | hm
      · rw [hb.outside m hn List.not_mem_nil]
        exact hpop.unlinked m List.mem_cons_self
      · exact hb.unlinked m hm
    · intro m hm hm'
      have hml : m ∉ l := fun hml => hm (List.mem_cons_of_mem n hml)
      rw [hb.outside m hml hm', hpop.outside m hm hml]

section
variable {lnPrev lnNext : α → Option α} {x y : InUse α} {op : ListOp α}

theorem all_ne (hn : n ∉ a) : ∀ m ∈ a, decide (m ≠ n) = true := by
  intro m hm
  rw [decide_eq_true_eq]
  rintro rfl
  exact hn hm

theorem insert_before_append (hn : n ∉ a) :
    (ListOp.insertBefore n m).sequence (a ++ n :: b) = a ++ m :: n :: b := by
  rw [ListOp.sequence, List.takeWhile_append_of_pos (all_ne hn),
    List.dropWhile_append_of_pos (all_ne hn)]
  simp

/-- Every operation comes back and does to the list what it does to the sequence. -/
theorem run_brings (h : Represents lst l) (hv : op.Valid l)
    (hfit : (op.sequence l).length < 2 ^ 31) :
    ∃ lst', op.run lst = some lst' ∧ Brings lst lst' l (op.sequence l) (op.removed l) := by
  cases op with
  | append n => exact ⟨_, rfl, list_append_brings h hv hfit⟩
  | remove n =>
    obtain ⟨a, b, rfl, hn⟩ := List.eq_append_cons_of_mem hv
    have hs : (ListOp.remove n).sequence (a ++ n :: b) = a ++ b := by
      rw [ListOp.sequence, List.erase_append_right _ hn, List.erase_cons_head]
    rw [hs]
    exact ⟨_, rfl, list_remove_brings h⟩
  | popHead =>
    cases l with
    | nil =>
      refine ⟨lst, ?_, h, by simp [ListOp.removed], fun _ _ _ => rfl⟩
      rw [ListOp.run, list_pop_head_none h]
    | cons n l => exact ⟨_, rfl, (list_pop_head_brings h).2⟩
  | insertBefore n m =>
    obtain ⟨a, b, rfl, hn⟩ := List.eq_append_cons_of_mem hv.1
    rw [insert_before_append hn] at hfit ⊢
    exact ⟨_, rfl, list_insert_before_brings h hv.2 hfit⟩
  | empty =>
    refine list_empty_brings h ?_
    rw [h.count]
    omega

theorem left_removed (hn : n ∈ l) (hout : n ∉ op.sequence l) : n ∈ op.removed l := by
  cases op with
  | append m => exact absurd (List.mem_append_left [m] hn) hout
  | remove m =>
    have he : n = m := by
      by_contra hne
      exact hout ((List.mem_erase_of_ne hne).mpr hn)
    exact List.mem_singleton.mpr he
  | popHead =>
    cases l with
    | nil => exact absurd hn List.not_mem_nil
    | cons m l =>
      rcases List.mem_cons.mp hn with rfl | hn
      · exact List.mem_singleton_self n
      · exact absurd hn hout
  | insertBefore m i =>
    rw [← List.takeWhile_append_dropWhile (p := (· ≠ m)) (l := l)] at hn
    simp only [ListOp.sequence, List.mem_append, List.mem_cons, not_or] at hout hn
    exact hn.elim (absurd · hout.1) (absurd · hout.2.2)
  | empty => exact hn

/-- What holds of a list in use, from the links that the nodes had before. -/
structure Tracks (lnPrev lnNext : α → Option α) (x : InUse α) : Prop where
  represents : Represents x.lst x.members
  removed : ∀ n ∈ x.former, n ∉ x.members → x.lst.links n = (none, none)
  untouched : ∀ n, n ∉ x.former → n ∉ x.members → x.lst.links n = (lnPrev n, lnNext n)

/-- `l_count` is large enough for the nodes that the operation leaves in the list. -/
def Countable (x : InUse α) (op : ListOp α) : Prop := (op.sequence x.members).length < 2 ^ 31

instance (x : InUse α) (op : ListOp α) : Decidable (Countable x op) :=
  inferInstanceAs (Decidable (_ < _))

theorem Tracks.step (h : Tracks lnPrev lnNext x) (hv : op.Valid x.members) (hc : Countable x op) :
    ∃ y, queueStep x op = some y ∧ Tracks lnPrev lnNext y ∧
      ∀ n, n ∉ x.members → n ∉ y.members → y.lst.links n = x.lst.links n := by
  obtain ⟨lst', hrun, hb⟩ := run_brings h.represents hv hc
  refine ⟨⟨lst', op.sequence x.members, x.former ++ op.removed x.members⟩, ?_,
    ⟨hb.represents, ?_, ?_⟩, hb.outside⟩
  · rw [queueStep, if_pos hv, hrun]
    rfl
  · intro n hn hout
    by_cases hm : n ∈ x.members
    · exact hb.unlinked n (left_removed hm hout)
    · rcases List.mem_append.mp hn with hn | hn
      · rw [hb.outside n hm hout, h.removed n hn hm]
      · exact hb.unlinked n hn
  · intro n hn hout
    obtain ⟨hf, hr⟩ := not_or.mp fun hor => hn (List.mem_append.mpr hor)
    have hm : n ∉ x.members := fun hm => hr (left_removed hm hout)
    rw [hb.outside n hm hout, h.untouched n hf hm]

theorem Tracks.of_step (h : Tracks lnPrev lnNext x) (hc : Countable x op)
    (hs : queueStep x op = some y) :
    Tracks lnPrev lnNext y := by
  have hv : op.Valid x.members := by
    by_contra hv
    rw [queueStep, if_neg hv] at hs
    cases hs
  obtain ⟨z, hz, hk, _⟩ := h.step hv hc
  rw [hs] at hz
  exact Option.some.inj hz ▸ hk

theorem tracks_empty : Tracks lnPrev lnNext (queue lnPrev lnNext).init where
  represents := ⟨List.nodup_nil, trivial, rfl, rfl, rfl, Nat.two_pow_pos 31⟩
  removed := by simp [queue]
  untouched := fun _ _ _ => rfl

theorem reach_tracks (h : Reach (queue lnPrev lnNext) Countable x) : Tracks lnPrev lnNext x :=
  h.preserve tracks_empty fun _ _ _ hk hc hs => hk.of_step hc hs

/-- The list is the sequence: walks from both ends visit it, it is counted, and no node
that is not in it has more than the links it had before it was in the list, or null links
from the time it left. -/
structure Sequenced (lnPrev lnNext : α → Option α) (x : InUse α) : Prop where
  distinct : x.members.Nodup
  forward : Walk x.lst.lnNext x.lst.lFirst x.members
  backward : Walk x.lst.lnPrev x.lst.lLast x.members.reverse
  count : x.lst.lCount = x.members.length
  start : ∀ n ∈ x.members.head?, x.lst.lnPrev n = none
  finish : ∀ n ∈ x.members.getLast?, x.lst.lnNext n = none
  removed : ∀ n ∈ x.former, n ∉ x.members → x.lst.links n = (none, none)
  untouched : ∀ n, n ∉ x.former → n ∉ x.members → x.lst.links n = (lnPrev n, lnNext n)

omit [DecidableEq α] in
theorem Tracks.sequenced (h : Tracks lnPrev lnNext x) : Sequenced lnPrev lnNext x := by
  have hr := h.represents
  refine ⟨hr.nodup, hr.first ▸ hr.chained.walk_next, hr.last ▸ hr.chained.walk_prev,
    hr.count, ?_, ?_, h.removed, h.untouched⟩
  · intro n hn
    obtain ⟨l, hl⟩ := List.head?_eq_some_iff.mp hn
    rw [hl] at hr
    exact hr.chained.1
  · intro n hn
    obtain ⟨l, hl⟩ := List.getLast?_eq_some_iff.mp hn
    rw [hl] at hr
    exact hr.around.2

theorem pop_head_returns (h : Represents lst l) : (listPopHead lst).1 = l.head? := by
  cases l with
  | nil => rw [list_pop_head_none h]; rfl
  | cons n l => exact (list_pop_head_brings h).1

/-- In every run in which the nodes can be counted, the list implements the sequence,
each operation comes back, and it leaves the links of all nodes alone that are not in
the list before or after it. -/
theorem list_implements_sequence (h : Reach (queue lnPrev lnNext) Countable x) :
    Sequenced lnPrev lnNext x ∧ (listPopHead x.lst).1 = x.members.head? ∧
      ∀ op, op.Valid x.members → Countable x op → ∃ y, (queue lnPrev lnNext).step x op = some y ∧
        ∀ n, n ∉ x.members → n ∉ y.members → y.lst.links n = x.lst.links n := by
  have hk := reach_tracks h
  refine ⟨hk.sequenced, pop_head_returns hk.represents, ?_⟩
  intro op hv hc
  obtain ⟨y, hs, _, hout⟩ := hk.step hv hc
  exact ⟨y, hs, hout⟩

namespace Sample

/-- Nodes without links, named by numbers. -/
def nodes : System (InUse Nat) (ListOp Nat) := queue (fun _ => none) (fun _ => none)

def listOps : List (ListOp Nat) :=
  [.append 1, .append 2, .insertBefore 1 3, .remove 2, .popHead, .append 2, .append 3,
    .empty, .append 4]

def afterOps : InUse Nat := replay nodes nodes.init listOps

end Sample

theorem list_implements_sequence_ops :
    Sequenced (fun _ => none) (fun _ => none) Sample.afterOps ∧
      (listPopHead Sample.afterOps.lst).1 = Sample.afterOps.members.head? ∧
      ∀ op, op.Valid Sample.afterOps.members → Countable Sample.afterOps op →
        ∃ y, Sample.nodes.step Sample.afterOps op = some y ∧
          ∀ n, n ∉ Sample.afterOps.members → n ∉ y.members →
            y.lst.links n = Sample.afterOps.lst.links n :=
  list_implements_sequence (steps_of_obeys (by decide +kernel))

theorem append_step (h : n ∉ x.members) : queueStep x (.append n) =
    some ⟨listAppend x.lst n, x.members ++ [n], x.former ++ []⟩ := by
  have hv : (ListOp.append n).Valid x.members := h
  rw [queueStep, if_pos hv]
  rfl

/-- As many nodes as `l_count` can tell. -/
theorem nodes_counted (h : k < 2 ^ 31) :
    ∃ x, Reach Sample.nodes Countable x ∧ x.members = List.range k := by
  induction k with
  | zero => exact ⟨Sample.nodes.init, .refl, rfl⟩
  | succ k ih =>
    obtain ⟨x, hr, hx⟩ := ih (by omega)
    have hnew : k ∉ x.members := by
      rw [hx]
      exact List.not_mem_range_self
    have hc : Countable x (.append k) := by
      rw [Countable, ListOp.sequence, List.length_append, hx, List.length_range]
      exact h
    refine ⟨_, hr.tail hc (append_step hnew), ?_⟩
    rw [hx, List.range_succ]

/-- The next node makes the count negative. -/
theorem count_overflows :
    ∃ x, Reach Sample.nodes Always x ∧ x.members.length = 2 ^ 31 ∧ x.lst.lCount = -2 ^ 31 ∧
      ¬ Sequenced (fun _ => none) (fun _ => none) x := by
  obtain ⟨k, hk⟩ : ∃ k, k + 1 = 2 ^ 31 := ⟨2 ^ 31 - 1, by decide⟩
  obtain ⟨x, hr, hx⟩ := nodes_counted (k := k) (by omega)
  have hnew : k ∉ x.members := by
    rw [hx]
    exact List.not_mem_range_self
  have hlen : (x.members ++ [k]).length = 2 ^ 31 := by
    rw [List.length_append, hx, List.length_range]
    exact hk
  have hcount : (listAppend x.lst k).lCount = -2 ^ 31 := by
    have hsum : x.lst.lCount + 1 = 2 ^ 31 := by
      rw [(reach_tracks hr).represents.count, hx, List.length_range]
      omega
    rw [list_append_eq, hsum, toCount]
    rfl
  refine ⟨_, hr.always.tail trivial (append_step hnew), hlen, hcount, ?_⟩
  intro h
  have hneg := h.count
  rw [hcount, hlen] at hneg
  exact absurd hneg (by decide)

end

/-! ## The reader's lists -/

section
open Reader

variable {lst : ListState Nat} {l : List Nat} {n : Nat}

/-- The reader's buckets are found through the links that their list has. -/
theorem ln_next_agrees (h : Represents lst l) (hn : n ∈ l ∨ lst.lnNext n = none) :
    lnNext l n = lst.lnNext n ∧ Walk lst.lnNext (some n) (nodesFrom l n) := by
  by_cases hm : n ∈ l
  · obtain ⟨a, b, rfl, ha⟩ := List.eq_append_cons_of_mem hm
    have hfrom : nodesFrom (a ++ n :: b) n = n :: b := by
      rw [nodesFrom, if_pos hm, List.dropWhile_append_of_pos (all_ne ha)]
      simp
    obtain ⟨_, hrest⟩ := chained_append.mp h.chained
    rw [ln_next_mid ha, hfrom]
    exact ⟨h.around.2.symm, hrest.walk_next⟩
  · have hnull := hn.resolve_left hm
    rw [ln_next_none hm, hnull, nodesFrom, if_neg hm]
    exact ⟨rfl, .visit (hnull ▸ .stop)⟩

end

end Lcap.Proofs
