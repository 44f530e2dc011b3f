import Lcap.Proofs.Framing

namespace Lcap.Proofs
open Net Systems

/-- The requests that a handler should see of a queue: those with a body, in order. -/
def requestsOf (flags : Nat) (inbox : List (Parts UInt8)) : List NetRequest :=
  (inbox.map (recompose (hasFlag flags lcapRecvNoEnvelope))).filter (·.lrBody ≠ [])

/-- Every handler that returns zero is called for each request of the queue, which is
then empty, and the calls are counted. -/
def Drains (flags : Nat) (inbox : List (Parts UInt8)) : Prop :=
  ∀ (σ : Type) (cb : σ → NetRequest → σ × Int) (st : σ), (∀ st req, (cb st req).2 = 0) →
    ∃ fuel, lcapRpcRecv flags (fun _ => true) (fun _ _ => {}) cb fuel 0 st inbox =
      some ((requestsOf flags inbox).foldl (fun st req => (cb st req).1) st,
        (requestsOf flags inbox).length, [])

section Calm

variable {σ : Type} {cb : σ → NetRequest → σ × Int} {flags : Nat}

/-- One call takes one message, whether it has a body or not. -/
theorem recv_once_drains (hcb : ∀ st req, (cb st req).2 = 0) (st : σ) (message : Parts UInt8)
    (inbox : List (Parts UInt8)) :
    lcapRpcRecvOnce flags true (fun _ => {}) cb st (message :: inbox) =
      some ((requestsOf flags [message]).foldl (fun st req => (cb st req).1) st, 0, inbox) := by
  rw [recv_once_calm (fun _ => rfl)]
  by_cases hb : (recompose (hasFlag flags lcapRecvNoEnvelope) message).lrBody = []
  · simp [requestsOf, hb]
  · simp [requestsOf, hb, hcb]

theorem requests_of_cons (flags : Nat) (message : Parts UInt8) (inbox : List (Parts UInt8)) :
    requestsOf flags (message :: inbox) = requestsOf flags [message] ++ requestsOf flags inbox := by
  unfold requestsOf
  rw [← List.filter_append, ← List.map_append]
  rfl

/-- Calls that do not wait end behind the last message, and count every one of them. -/
theorem recv_all (hcb : ∀ st req, (cb st req).2 = 0) (hflag : hasFlag flags zmqDontwait = true)
    (n : Nat) (st : σ) (inbox : List (Parts UInt8)) :
    lcapRpcRecv flags (fun _ => true) (fun _ _ => {}) cb (inbox.length + 1) n st inbox =
      some ((requestsOf flags inbox).foldl (fun st req => (cb st req).1) st,
          n + inbox.length, []) := by
  induction inbox generalizing n st with
  | nil =>
    have hempty : lcapRpcRecvOnce flags true (fun _ => {}) cb st [] = some (st, -EAGAIN, []) := by
      simp [lcapRpcRecvOnce, hflag]
    have hneg : -EAGAIN < 0 := by decide
    simp only [lcapRpcRecv, hempty, if_pos hneg]
    rfl
  | cons message inbox ih =>
    rw [List.length_cons, lcapRpcRecv]
    simp only [recv_once_drains hcb, Int.lt_irrefl, ↓reduceIte]
    rw [ih (n + 1), requests_of_cons flags message inbox, List.foldl_append, Nat.add_right_comm n 1,
      Nat.add_assoc]

/-- Without the flag of libzmq the call behind the last message waits. -/
theorem recv_all_waits (hcb : ∀ st req, (cb st req).2 = 0)
    (hflag : hasFlag flags zmqDontwait = false)
    (fuel n : Nat) (st : σ) (inbox : List (Parts UInt8)) :
    lcapRpcRecv flags (fun _ => true) (fun _ _ => {}) cb fuel n st inbox = none := by
  induction fuel generalizing n st inbox with
  | zero => rfl
  | succ fuel ih =>
    cases inbox with
    | nil => simp [lcapRpcRecv, lcapRpcRecvOnce, hflag]
    | cons message inbox =>
      simp only [lcapRpcRecv, recv_once_drains hcb, Int.lt_irrefl, ↓reduceIte]
      exact ih (n + 1) _ inbox

end Calm

/-- A result does not depend on how many more calls were allowed. -/
theorem recv_fuel {σ : Type} {reqAlloc : Nat → Bool} {io : Nat → Nat → FrameIo}
    {cb : σ → NetRequest → σ × Int} {st : σ} {r : σ × Nat × List (Parts UInt8)}
    (h : lcapRpcRecv flags reqAlloc io cb fuel n st inbox = some r) (more : Nat) :
    lcapRpcRecv flags reqAlloc io cb (fuel + more) n st inbox = some r := by
  induction fuel generalizing n st inbox with
  | zero => cases h
  | succ fuel ih =>
    rw [Nat.succ_add_eq_add_succ, Nat.add_succ, lcapRpcRecv]
    rw [lcapRpcRecv] at h
    cases hone : lcapRpcRecvOnce flags (reqAlloc n) (io n) cb st inbox with
    | none => simp [hone] at h
    | some res =>
      simp only [hone] at h ⊢
      split at h
      · rename_i hneg
        rw [if_pos hneg]
        exact h
      · rename_i hok
        rw [if_neg hok]
        exact ih h

theorem recv_unique {σ : Type} {reqAlloc : Nat → Bool} {io : Nat → Nat → FrameIo}
    {cb : σ → NetRequest → σ × Int} {st : σ} {r r' : σ × Nat × List (Parts UInt8)}
    (h : lcapRpcRecv flags reqAlloc io cb fuel n st inbox = some r)
    (h' : lcapRpcRecv flags reqAlloc io cb fuel' n st inbox = some r') : r = r' := by
  have hsame := recv_fuel h' fuel
  rw [Nat.add_comm, recv_fuel h fuel'] at hsame
  exact Option.some.inj hsame

/-- A queue is drained as documented exactly by flags without an envelope, whose bit is
the one that libzmq takes for not waiting, and if no message is without a body. -/
theorem drains_iff (flags : Nat) (inbox : List (Parts UInt8)) :
    Drains flags inbox ↔
      hasFlag flags lcapRecvNoEnvelope = true ∧
        ∀ message ∈ inbox, (recompose true message).lrBody ≠ [] := by
  have hcalm : ∀ st req, ((fun _ _ => ((), 0) : Unit → NetRequest → Unit × Int) st req).2 = 0 :=
    fun _ _ => rfl
  constructor
  · intro h
    obtain ⟨fuel, hd⟩ := h Unit (fun _ _ => ((), 0)) () hcalm
    cases hflag : hasFlag flags lcapRecvNoEnvelope with
    | false =>
      rw [recv_all_waits hcalm hflag] at hd
      cases hd
    | true =>
      refine ⟨rfl, ?_⟩
      have hsame := recv_unique (recv_all hcalm hflag 0 () inbox) hd
      have hlen : 0 + inbox.length = (requestsOf flags inbox).length :=
        congrArg (fun r => r.2.1) hsame
      rw [Nat.zero_add, requestsOf, ← List.length_map
        (recompose (hasFlag flags lcapRecvNoEnvelope)),
        eq_comm, List.length_filter_eq_length_iff] at hlen
      intro message hm
      have hb := hlen _ (List.mem_map_of_mem hm)
      rw [hflag] at hb
      simpa using hb
  · rintro ⟨hflag, hbody⟩ σ cb st hcb
    refine ⟨inbox.length + 1, ?_⟩
    have hlen : (requestsOf flags inbox).length = inbox.length := by
      rw [requestsOf, List.filter_eq_self.mpr, List.length_map]
      intro req hreq
      obtain ⟨message, hm, rfl⟩ := List.mem_map.mp hreq
      rw [hflag]
      simpa using hbody message hm
    rw [recv_all hcb hflag, hlen, Nat.zero_add]

/-- An envelope and a body, followed by an envelope without one. -/
def mixedQueue : List (Parts UInt8) := [[[1], [], [2], [], [3, 4]], [[1], [], [2]]]

/-- Asked not to wait, the call waits behind the last message of an enveloped queue; and
a message without a body counts as a processed request. -/
theorem nonblocking_receive_waits :
    hasFlag lcapRecvNonblock lcapRecvNonblock = true ∧
      (∀ fuel, lcapRpcRecv lcapRecvNonblock (fun _ => true) (fun _ _ => {})
        (fun (handled : List NetRequest) req => (handled ++ [req], 0)) fuel 0 []
        mixedQueue = none) ∧
      ¬ Drains lcapRecvNonblock mixedQueue ∧
      lcapRpcRecv 3 (fun _ => true) (fun _ _ => {})
        (fun (handled : List NetRequest) req => (handled ++ [req], 0)) 3 0 []
        [[[2]]] = some ([], 1, []) ∧
      ¬ Drains 3 [[[2]]] := by
  have hwaits : ∀ {σ : Type} {cb : σ → NetRequest → σ × Int}, (∀ st req, (cb st req).2 = 0) →
      ∀ fuel st, lcapRpcRecv lcapRecvNonblock (fun _ => true) (fun _ _ => {}) cb fuel 0 st
        mixedQueue = none :=
    fun hcb fuel st => recv_all_waits hcb (by decide) fuel 0 st mixedQueue
  refine ⟨by decide, fun fuel => hwaits (fun _ _ => rfl) fuel [], ?_, by decide, ?_⟩
  · intro h
    obtain ⟨fuel, hd⟩ := h Unit (fun _ _ => ((), 0)) () (fun _ _ => rfl)
    rw [hwaits (fun _ _ => rfl)] at hd
    cases hd
  · intro h
    obtain ⟨fuel, hd⟩ := h Unit (fun _ _ => ((), 0)) () (fun _ _ => rfl)
    have hsame := recv_unique (recv_all (fun _ _ => rfl) (by decide) 0 () [[[2]]]) hd
    cases congrArg (fun r => r.2.1) hsame

end Lcap.Proofs
