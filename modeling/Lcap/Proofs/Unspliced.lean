import Lcap.Broker
import Lcap.Net.Senders
import Lcap.Proofs.Framing

namespace Lcap.Proofs
open Broker Net Systems

/-- What has left each socket are the frames of the calls that returned zero, one
message for each. -/
def Unspliced (x : Senders) : Prop :=
  ∀ sock, (x.socks sock).sent = (x.completed sock).map SendCall.frames

/-- The socket holds no frames of a call that failed, or this call fails as well. -/
def NothingPending (x : Senders) (l : Sending) : Prop :=
  (x.socks l.sock).pending = [] ∨ SendFails l.out 0 l.call.frames.length

instance (x : Senders) (l : Sending) : Decidable (NothingPending x l) :=
  inferInstanceAs (Decidable (_ ∨ _))

/-! ## One call -/

theorem run_eq (o : Outbox UInt8) (out : Nat → Option Errno) (call : SendCall) :
    call.run o out = sendAllRc (o.sendAll out 0 call.frames) := by
  cases call <;> rfl

theorem frames_ne_nil (call : SendCall) : call.frames ≠ [] := by
  cases call with
  | peerRpcSend src dst msg => exact peer_frames_ne_nil src dst msg
  | ackRetcode src dst ret => exact peer_frames_ne_nil src dst (packAck ret)
  | pxRpcSend recMdt rpc => exact List.cons_ne_nil _ _

theorem run_works (o : Outbox UInt8) {call : SendCall} (h : ¬ SendFails out 0 call.frames.length) :
    call.run o out = ({ pending := [], sent := o.sent ++ [o.pending ++ call.frames] }, 0) := by
  rw [run_eq, o.send_all_works h (frames_ne_nil call)]
  rfl

/-- A call that fails adds no message, and leaves its first frames pending. -/
theorem run_fails (o : Outbox UInt8) {call : SendCall} (h : SendFails out 0 call.frames.length) :
    ∃ j rc, rc < 0 ∧
      call.run o out = ({ o with pending := o.pending ++ call.frames.take j }, rc) := by
  obtain ⟨j, e, _, hs⟩ := o.send_all_fails h
  refine ⟨j, -(e.val : Int), errno_neg e, ?_⟩
  rw [run_eq, hs]
  rfl

theorem completed_append (x : Senders) (socks : Nat → Outbox UInt8) (made : Made) (sock : Nat) :
    Senders.completed ⟨socks, x.calls ++ [made]⟩ sock =
      x.completed sock ++ if made.sock = sock ∧ made.rc = 0 then [made.call] else [] := by
  simp only [Senders.completed, List.filterMap_append]
  by_cases hm : made.sock = sock ∧ made.rc = 0
  · simp [hm]
  · simp [hm]

/-- The next call keeps the messages whole exactly when it does not complete the frames
of another one. -/
theorem step_unspliced (hx : Unspliced x) (h : senders.step x l = some y) :
    Unspliced y ↔ NothingPending x l := by
  obtain ⟨sock, call, out⟩ := l
  by_cases hf : SendFails out 0 call.frames.length
  · obtain ⟨j, rc, hneg, hrun⟩ := run_fails (x.socks sock) hf
    simp only [senders, sendersStep, hrun, Option.some.injEq] at h
    subst h
    refine iff_of_true ?_ (.inr hf)
    intro s
    rw [completed_append, if_neg (fun hm => absurd hm.2 (Int.ne_of_lt hneg)),
      List.append_nil, ← hx s]
    by_cases hs : s = sock
    · subst hs
      simp
    · simp [hs]
  · have hrun := run_works (x.socks sock) hf
    simp only [senders, sendersStep, hrun, Option.some.injEq] at h
    subst h
    constructor
    · intro hy
      have hsock := hy sock
      rw [completed_append, if_pos ⟨rfl, rfl⟩, List.map_append, ← hx sock] at hsock
      simp only [Function.update_self, List.map_cons, List.map_nil] at hsock
      have hlast := (List.append_inj' hsock rfl).2
      exact .inl (List.append_left_eq_self.mp (List.cons.inj hlast).1)
    · intro hn s
      have hp : (x.socks sock).pending = [] := hn.resolve_right hf
      rw [completed_append, List.map_append, ← hx s]
      by_cases hs : s = sock
      · subst hs
        simp [hp]
      · simp [hs, Ne.symm hs]

/-- In runs in which no call completes the frames that another has left, each message
consists of the frames of one call, and the next call keeps this exactly when it
completes none either. -/
theorem messages_unspliced (h : Reach senders NothingPending x) :
    Unspliced x ∧ ∀ l y, senders.step x l = some y → (Unspliced y ↔ NothingPending x l) := by
  have hx : Unspliced x := by
    refine Steps.preserve h (fun _ => rfl) ?_
    exact fun x l y hx hl hs => (step_unspliced hx hs).mpr hl
  exact ⟨hx, fun l y hs => step_unspliced hx hs⟩

namespace Sample

theorem eagain_pos : 0 < 11 := by decide

/-- The send of one frame fails. -/
def failsAt (n : Nat) (k : Nat) : Option Errno := if k = n then some ⟨11, eagain_pos⟩ else none

/-- The client's request does not get further than the delimiter of the reader's
identity, and the client, which is on another socket, repeats one as well. -/
def failedSends : List Sending :=
  [⟨0, .peerRpcSend (some [1]) [2] [7], failsAt 2⟩, ⟨1, .pxRpcSend [109] [1], failsAt 1⟩]

/-- The replies to the errors, or the next attempts. -/
def laterSends : List Sending :=
  [⟨0, .ackRetcode none [2] (-11), fun _ => none⟩, ⟨1, .pxRpcSend [109] [1], fun _ => none⟩]

def sendersAfter (ls : List Sending) : Senders := replay senders senders.init ls

def forwarded : NetRequest := ⟨false, some [2], some [1], Client.clDequeuePack⟩

end Sample

theorem messages_unspliced_failed :
    Unspliced (Sample.sendersAfter Sample.failedSends) ∧
      ∀ l y, senders.step (Sample.sendersAfter Sample.failedSends) l = some y →
        (Unspliced y ↔ NothingPending (Sample.sendersAfter Sample.failedSends) l) :=
  messages_unspliced (steps_of_obeys (by decide +kernel))

/-- The error ACK completes the frames that the broker could not send: the reader gets it
as if it came from the client. On the client's socket the name is there twice. -/
theorem error_ack_spliced :
    Reach senders Always (Sample.sendersAfter (Sample.failedSends ++ Sample.laterSends)) ∧
      ((Sample.sendersAfter (Sample.failedSends ++ Sample.laterSends)).socks 0).sent =
        [peerFrames (some [1]) [2] (packAck (-11))] ∧
      ((Sample.sendersAfter (Sample.failedSends ++ Sample.laterSends)).socks 1).sent =
      [[[109], [109], [1]]] ∧
      (∀ made ∈ (Sample.sendersAfter (Sample.failedSends ++ Sample.laterSends)).calls,
        made.call.frames ≠ peerFrames (some [1]) [2] (packAck (-11)) ∧
          made.call.frames ≠ [[109], [109], [1]]) ∧
      (lcapdProcessRequest { send := Sample.failsAt 2 } ⟨{}, fun _ => none, {}⟩
        Sample.forwarded).1.ccSock.sent =
        [peerFrames (some [1]) [2] (packAck (-11))] :=
  ⟨steps_of_obeys (by decide +kernel), by decide +kernel, by decide +kernel, by decide +kernel,
    by decide +kernel⟩

end Lcap.Proofs
