import Mathlib.Data.List.Basic

namespace Systems

variable {β ε : Type}

/-- A message of several parts, each a sequence of bytes. -/
abbrev Parts (β : Type) := List (List β)

/-- The sending side of a socket: the parts of a message that is not complete yet,
and the messages that have left. -/
structure Outbox (β : Type) where
  pending : Parts β := []
  sent : List (Parts β) := []
  deriving DecidableEq, Repr

def Outbox.send (o : Outbox β) (part : List β) (more : Bool) : Outbox β :=
  if more then { o with pending := o.pending ++ [part] }
  else { pending := [], sent := o.sent ++ [o.pending ++ [part]] }

/-- Sends the parts one after the other up to the first send that fails; `out k` is
the outcome of the `k`-th. -/
def Outbox.sendAll (out : Nat → Option ε) : Nat → Outbox β → Parts β → Outbox β × Option ε
  | _, o, [] => (o, none)
  | k, o, part :: rest =>
    match out k with
    | some e => (o, some e)
    | none => sendAll out (k + 1) (o.send part (!rest.isEmpty)) rest

/-- One of the `n` sends from the `k`-th on fails. -/
def SendFails (out : Nat → Option ε) (k n : Nat) : Prop := ∃ i < n, (out (k + i)).isSome

instance (out : Nat → Option ε) (k n : Nat) : Decidable (SendFails out k n) :=
  inferInstanceAs (Decidable (∃ i < n, (out (k + i)).isSome))

theorem send_fails_succ {out : Nat → Option ε} :
    SendFails out k (n + 1) ↔ (out k).isSome ∨ SendFails out (k + 1) n := by
  constructor
  · rintro ⟨i, hi, he⟩
    cases i with
    | zero => exact .inl he
    | succ i => exact .inr ⟨i, by omega, by rwa [show k + 1 + i = k + (i + 1) by omega]⟩
  · rintro (he | ⟨i, hi, he⟩)
    · exact ⟨0, by omega, he⟩
    · exact ⟨i + 1, by omega, by rwa [show k + (i + 1) = k + 1 + i by omega]⟩

/-- Sends of which none fails complete one message, behind what was pending. -/
theorem Outbox.send_all_works {out : Nat → Option ε} {parts : Parts β} (o : Outbox β)
    (h : ¬ SendFails out k parts.length) (hne : parts ≠ []) :
    o.sendAll out k parts = ({ pending := [], sent := o.sent ++ [o.pending ++ parts] }, none) := by
  induction parts generalizing k o with
  | nil => exact absurd rfl hne
  | cons part rest ih =>
    rw [List.length_cons, send_fails_succ, not_or] at h
    have hk : out k = none := by simpa using h.1
    rw [Outbox.sendAll, hk]
    cases rest with
    | nil => rfl
    | cons next rest =>
      rw [ih _ h.2 (List.cons_ne_nil next rest)]
      simp [Outbox.send]

theorem Outbox.send_all_ok {out : Nat → Option ε} (hout : ∀ k, out k = none) (k : Nat)
    (o : Outbox β) {parts : Parts β} (hne : parts ≠ []) :
    o.sendAll out k parts = ({ pending := [], sent := o.sent ++ [o.pending ++ parts] }, none) := by
  refine o.send_all_works ?_ hne
  rintro ⟨i, _, he⟩
  simp [hout] at he

/-- A send that fails leaves the parts before it pending. -/
theorem Outbox.send_all_fails {out : Nat → Option ε} {parts : Parts β} (o : Outbox β)
    (h : SendFails out k parts.length) :
    ∃ j e, j < parts.length ∧
      o.sendAll out k parts = ({ o with pending := o.pending ++ parts.take j }, some e) := by
  induction parts generalizing k o with
  | nil =>
    obtain ⟨i, hi, _⟩ := h
    exact absurd hi (Nat.not_lt_zero i)
  | cons part rest ih =>
    rw [List.length_cons, send_fails_succ] at h
    cases hk : out k with
    | some e => exact ⟨0, e, Nat.zero_lt_succ _, by simp [Outbox.sendAll, hk]⟩
    | none =>
      have hrest : SendFails out (k + 1) rest.length := h.resolve_left (by simp [hk])
      obtain ⟨j, e, hj, hs⟩ := ih (o.send part (!rest.isEmpty)) hrest
      have hmore : rest.isEmpty = false := by
        cases rest with
        | nil => exact absurd hj (Nat.not_lt_zero j)
        | cons _ _ => rfl
      refine ⟨j + 1, e, Nat.succ_lt_succ hj, ?_⟩
      rw [Outbox.sendAll, hk]
      simp only
      rw [hs, hmore]
      simp [Outbox.send]

/-! ## What the kinds of sockets add and remove -/

/-- A router puts the sender's identity before what it receives. -/
def routerReceive (peer : List β) (m : Parts β) : Parts β := peer :: m

/-- It takes the first part of what it sends for the identity of the receiver. -/
def routerSend : Parts β → Option (List β × Parts β)
  | [] => none
  | dst :: m => some (dst, m)

/-- A requester puts an empty delimiter before its request. -/
def reqSend (m : Parts β) : Parts β := [] :: m

/-- It expects one before the reply and removes it. -/
def reqReceive : Parts β → Option (Parts β)
  | [] :: m => some m
  | _ => none

end Systems
