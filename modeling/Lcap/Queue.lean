import Lcap.Systems.Links
import Lcap.Systems.Runs
import Mathlib.Algebra.Group.Int.Defs
import Mathlib.Algebra.Group.Nat.Defs

namespace Lcap.Queue
open Systems

/-- `struct list`, and beside it the links of every `struct list_node` in memory. -/
structure ListState (α : Type) where
  lCount : Int
  lFirst : Option α
  lLast : Option α
  lnPrev : α → Option α
  lnNext : α → Option α

def ListState.links (lst : ListState α) (n : α) : Option α × Option α :=
  (lst.lnPrev n, lst.lnNext n)

/-- `EMPTY_LIST_INITIALIZER`, whatever the nodes contain. -/
def emptyList (lnPrev lnNext : α → Option α) : ListState α := ⟨0, none, none, lnPrev, lnNext⟩

/-- `l_count` is an `int`. Its overflow, which C leaves open, is taken as two's complement. -/
def toCount (n : Int) : Int := Int.bmod n (2 ^ 32)

variable {α : Type} [DecidableEq α]

def listAppend (lst : ListState α) (n : α) : ListState α :=
  let last := lst.lLast
  let lst := { lst with lnNext := link lst.lnNext last (some n) }
  let lst := { lst with
    lnPrev := Function.update lst.lnPrev n last
    lnNext := Function.update lst.lnNext n none }
  let lst := if lst.lCount = 0 then { lst with lFirst := some n } else lst
  { lst with lLast := some n, lCount := toCount (lst.lCount + 1) }

def listRemove (lst : ListState α) (n : α) : ListState α :=
  let lst := match lst.lnPrev n with
    | some prev => { lst with lnNext := Function.update lst.lnNext prev (lst.lnNext n) }
    | none => { lst with lFirst := lst.lnNext n }
  let lst := match lst.lnNext n with
    | some next => { lst with lnPrev := Function.update lst.lnPrev next (lst.lnPrev n) }
    | none => { lst with lLast := lst.lnPrev n }
  { lst with
    lnPrev := Function.update lst.lnPrev n none
    lnNext := Function.update lst.lnNext n none
    lCount := toCount (lst.lCount - 1) }

/-- The node that is returned, and what is left. -/
def listPopHead (lst : ListState α) : Option α × ListState α :=
  match lst.lFirst with
  | none => (none, lst)
  | some n =>
    let lst := { lst with lFirst := lst.lnNext n }
    let lst : ListState α := { lst with
      lnPrev := link lst.lnPrev lst.lFirst none
      lCount := toCount (lst.lCount - 1) }
    let lst := if lst.lCount = 1 ∨ lst.lCount = 0 then { lst with lLast := lst.lFirst } else lst
    (some n, { lst with
      lnPrev := Function.update lst.lnPrev n none
      lnNext := Function.update lst.lnNext n none })

def listInsertBefore (lst : ListState α) (n inserted : α) : ListState α :=
  let lst := { lst with lnPrev := Function.update lst.lnPrev inserted (lst.lnPrev n) }
  let lst := { lst with lnNext := Function.update lst.lnNext inserted (some n) }
  let lst := match lst.lnPrev n with
    | some prev => { lst with lnNext := Function.update lst.lnNext prev (some inserted) }
    | none => { lst with lFirst := some inserted }
  { lst with
    lnPrev := Function.update lst.lnPrev n (some inserted)
    lCount := toCount (lst.lCount + 1) }

/-- `none` when the loop has not come to its end. -/
def listEmpty : Nat → ListState α → Option (ListState α)
  | 0, _ => none
  | fuel + 1, lst => if 0 < lst.lCount then listEmpty fuel (listPopHead lst).2 else some lst

inductive ListOp (α : Type)
  | append (n : α)
  | remove (n : α)
  | popHead
  | insertBefore (n inserted : α)
  | empty
  deriving DecidableEq, Repr

/-- A round of the loop of `list_empty` that does not count down does not come to an
end at all, so that `l_count` rounds and the last test are enough. -/
def ListOp.run (lst : ListState α) : ListOp α → Option (ListState α)
  | .append n => some (listAppend lst n)
  | .remove n => some (listRemove lst n)
  | .popHead => some (listPopHead lst).2
  | .insertBefore n inserted => some (listInsertBefore lst n inserted)
  | .empty => listEmpty (lst.lCount.toNat + 1) lst

/-! ## Sequences -/

/-- Nodes enter that are not in the sequence, and what is named otherwise is in it. -/
def ListOp.Valid (members : List α) : ListOp α → Prop
  | .append n => n ∉ members
  | .remove n => n ∈ members
  | .insertBefore n inserted => n ∈ members ∧ inserted ∉ members
  | .popHead | .empty => True

instance (members : List α) : (op : ListOp α) → Decidable (op.Valid members)
  | .append n => inferInstanceAs (Decidable (n ∉ members))
  | .remove n => inferInstanceAs (Decidable (n ∈ members))
  | .insertBefore n inserted => inferInstanceAs (Decidable (n ∈ members ∧ inserted ∉ members))
  | .popHead | .empty => isTrue trivial

def ListOp.sequence (members : List α) : ListOp α → List α
  | .append n => members ++ [n]
  | .remove n => members.erase n
  | .popHead => members.tail
  | .insertBefore n inserted => members.takeWhile (· ≠ n) ++ inserted :: members.dropWhile (· ≠ n)
  | .empty => []

/-- The nodes that leave the sequence. -/
def ListOp.removed (members : List α) : ListOp α → List α
  | .remove n => [n]
  | .popHead => members.head?.toList
  | .empty => members
  | .append _ | .insertBefore _ _ => []

/-- A list in use, the sequence it stands for and the nodes that have left it. -/
structure InUse (α : Type) where
  lst : ListState α
  members : List α := []
  former : List α := []

def queueStep (x : InUse α) (op : ListOp α) : Option (InUse α) :=
  if op.Valid x.members then
    (op.run x.lst).map fun lst => ⟨lst, op.sequence x.members, x.former ++ op.removed x.members⟩
  else none

/-- The runs of a list that starts empty, with the links that the nodes had before. -/
def queue (lnPrev lnNext : α → Option α) : System (InUse α) (ListOp α) where
  init := { lst := emptyList lnPrev lnNext }
  step := queueStep

end Lcap.Queue
