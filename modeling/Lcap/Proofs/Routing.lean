import Lcap.Broker
import Lcap.Proofs.Framing

namespace Lcap.Proofs
open Broker Net Systems

/-- The opcodes that the broker forwards to a reader. -/
def ForReader (op : RpcOpType) : Prop := op = .start ∨ op = .dequeue ∨ op = .clear ∨ op = .fini

/-- The opcodes that it forwards to a client. -/
def ForClient (op : RpcOpType) : Prop := op = .enqueue ∨ op = .ack

/-- `cc_sock` once a complete message has left on it. -/
def emitted (ctx : LcapCtx) (message : Parts UInt8) : LcapCtx :=
  { ctx with ccSock := { pending := [], sent := ctx.ccSock.sent ++ [message] } }

theorem emits {ctx : LcapCtx} (hidle : ctx.ccSock.pending = []) {out : Nat → Option Errno}
    (hout : ∀ k, out k = none) (src : Option ConnId) (dst : ConnId) (msg : List UInt8) :
    ctx.sending (peerRpcSend ctx.ccSock src dst msg out) =
      (emitted ctx (peerFrames src dst msg), 0) := by
  rw [peer_rpc_send_ok hout, hidle]
  rfl

theorem forwards_to_reader (hidle : ctx.ccSock.pending = [])
    (hop : rpcOpType (leField body 0 4) = some op) (hreq : ForReader op)
    (hlen : rpcExpectedLength op ≤ body.length) :
    lcapdProcessRequest {} ctx ⟨false, some remote, some forward, body⟩ =
      (emitted ctx (peerFrames (some forward) remote body), 0) := by
  have hhdr : ¬ body.length < sizeofHdr := by
    rcases hreq with rfl | rfl | rfl | rfl <;>
      simp only [rpcExpectedLength, sizeofRegister, sizeofDequeue, sizeofClear, sizeofFini,
        sizeofHdr] at hlen ⊢ <;> omega
  have hone : rpcHandleOne ctx op ⟨remote, forward, body⟩ {} =
      brokerReaderSend ctx op ⟨remote, forward, body⟩ {} := by
    rcases hreq with rfl | rfl | rfl | rfl <;> rfl
  simp only [lcapdProcessRequest, rpcDispatch, if_neg hhdr, hop, hone, brokerReaderSend,
    if_neg (Nat.not_lt.mpr hlen)]
  rw [emits hidle (fun _ => rfl)]
  rfl

theorem forwards_to_client (hidle : ctx.ccSock.pending = [])
    (hop : rpcOpType (leField body 0 4) = some op) (hrep : ForClient op)
    (hlen : sizeofHdr ≤ body.length) :
    lcapdProcessRequest {} ctx ⟨false, some remote, some forward, body⟩ =
      (emitted ctx (peerFrames none forward body), 0) := by
  have hone : rpcHandleOne ctx op ⟨remote, forward, body⟩ {} =
      brokerClientSend ctx ⟨remote, forward, body⟩ {} := by
    rcases hrep with rfl | rfl <;> rfl
  simp only [lcapdProcessRequest, rpcDispatch, if_neg (Nat.not_lt.mpr hlen), hop, hone,
    brokerClientSend]
  rw [emits hidle (fun _ => rfl)]
  rfl

theorem flatten_drop_empty (parts : Parts UInt8) :
    (parts.filter (· ≠ [])).flatten = parts.flatten :=
  List.flatten_filter_ne_nil

theorem recompose_envelope (hr : remote ≠ []) (hf : forward ≠ []) (parts : Parts UInt8) :
    recompose false (remote :: [] :: forward :: parts) =
      ⟨false, some remote, some forward, parts.flatten⟩ ∧
    recompose false (remote :: forward :: parts) =
      ⟨false, some remote, some forward, parts.flatten⟩ := by
  have hone : (remote :: [] :: forward :: parts).filter (· ≠ []) =
      remote :: forward :: parts.filter (· ≠ []) := by simp [hr, hf]
  have htwo : (remote :: forward :: parts).filter (· ≠ []) =
      remote :: forward :: parts.filter (· ≠ []) := by simp [hr, hf]
  constructor
  · rw [recompose, hone]
    simp only [Bool.false_eq_true, if_false, flatten_drop_empty]
  · rw [recompose, htwo]
    simp only [Bool.false_eq_true, if_false, flatten_drop_empty]

theorem recompose_no_envelope (hf : forward ≠ []) (parts : Parts UInt8) :
    recompose true ([] :: forward :: parts) = ⟨true, none, some forward, parts.flatten⟩ := by
  have hone : ([] :: forward :: parts).filter (· ≠ []) = forward :: parts.filter (· ≠ []) := by
    simp [hf]
  rw [recompose, hone]
  simp only [if_true, flatten_drop_empty]

/-- The broker takes one message off its socket, and nothing fails. -/
def brokerTake (ctx : LcapCtx) (inbox : List (Parts UInt8)) :
    Option (LcapCtx × Int × List (Parts UInt8)) :=
  lcapRpcRecvOnce lcapRecvNonblock true (fun _ => {}) (lcapdProcessRequest {}) ctx inbox

theorem broker_take {message : Parts UInt8} {remote forward : ConnId} {body : List UInt8}
    (hm : recompose false message = ⟨false, some remote, some forward, body⟩) (hb : body ≠ [])
    (hp : lcapdProcessRequest {} ctx ⟨false, some remote, some forward, body⟩ = (ctx', rc))
    (inbox : List (Parts UInt8)) : brokerTake ctx (message :: inbox) = some (ctx', rc, inbox) := by
  have hflag : hasFlag lcapRecvNonblock lcapRecvNoEnvelope = false := rfl
  rw [brokerTake, recv_once_calm (fun _ => rfl), hflag, hm]
  simp only [if_neg hb, hp]

theorem ne_nil_of_length {body : List UInt8} (h : sizeofHdr ≤ body.length) : body ≠ [] := by
  rintro rfl
  simp [sizeofHdr] at h

/-- What a client sends to the reader of an MDT reaches it under the client's identity
with all its bytes, and what that reader replies reaches this client alone. -/
theorem routing_round_trip {frames : Parts UInt8} (hcid : cid ≠ []) (hmdt : mdt ≠ [])
    (hop : rpcOpType (leField frames.flatten 0 4) = some op) (hreq : ForReader op)
    (hlen : rpcExpectedLength op ≤ frames.flatten.length) (hidle : ctx.ccSock.pending = []) :
    pxRpcSend {} mdt frames.flatten (fun _ => none) = ({ sent := [[mdt, frames.flatten]] }, 0) ∧
    (recvFrames (fun _ => {}) 0 {} (routerReceive cid (reqSend (mdt :: frames)))).1 =
      ⟨false, some cid, some mdt, frames.flatten⟩ ∧
    (∃ message forwarded,
      (∀ inbox, brokerTake ctx (routerReceive cid (reqSend (mdt :: frames)) :: inbox) =
        some (emitted ctx message, 0, inbox)) ∧
      routerSend message = some (mdt, forwarded) ∧
      ∀ {σ : Type} (cb : σ → NetRequest → σ × Int) st inbox,
        lcapRpcRecvOnce (lcapRecvNonblock + lcapRecvNoEnvelope) true (fun _ => {}) cb st
            (forwarded :: inbox) =
          some ((cb st ⟨true, none, some cid, frames.flatten⟩).1,
            (cb st ⟨true, none, some cid, frames.flatten⟩).2, inbox)) ∧
    ∀ body op', rpcOpType (leField body 0 4) = some op' → ForClient op' → sizeofHdr ≤ body.length →
      ∃ reply message forwarded,
        peerRpcSend {} none cid body (fun _ => none) = ({ sent := [reply] }, 0) ∧
        (∀ inbox, brokerTake ctx (routerReceive mdt reply :: inbox) =
          some (emitted ctx message, 0, inbox)) ∧
        routerSend message = some (cid, forwarded) ∧ reqReceive forwarded = some [body] := by
  have hhdr : sizeofHdr ≤ frames.flatten.length := by
    refine Nat.le_trans ?_ hlen
    rcases hreq with rfl | rfl | rfl | rfl <;> decide
  have hparse := (recompose_envelope hcid hmdt frames).1
  refine ⟨rfl, ?_, ⟨peerFrames (some mdt) cid frames.flatten,
    [[], cid, [], frames.flatten], ?_, rfl, ?_⟩, ?_⟩
  · rw [recv_frames_calm (fun _ => rfl), fold_absorb]
    exact hparse
  · exact broker_take hparse (ne_nil_of_length hhdr) (forwards_to_reader hidle hop hreq hlen)
  · intro σ cb st inbox
    have hflag : hasFlag (lcapRecvNonblock + lcapRecvNoEnvelope) lcapRecvNoEnvelope = true := rfl
    have hfwd := recompose_no_envelope hcid [[], frames.flatten]
    simp only [List.flatten_cons, List.nil_append, List.flatten_nil, List.append_nil] at hfwd
    rw [recv_once_calm (fun _ => rfl), hflag, hfwd]
    simp only [if_neg (ne_nil_of_length hhdr)]
  · intro body op' hop' hrep hlen'
    refine ⟨[cid, [], body], peerFrames none cid body, [[], body], rfl, ?_, rfl, rfl⟩
    have hback := (recompose_envelope hmdt hcid [[], body]).2
    simp only [List.flatten_cons, List.nil_append, List.flatten_nil, List.append_nil] at hback
    exact broker_take hback (ne_nil_of_length hlen') (forwards_to_client hidle hop' hrep hlen')

/-- A DEQUEUE whose body comes in two frames with an empty one between them. -/
theorem routing_round_trip_split :
    (recvFrames (fun _ => {}) 0 {}
      (routerReceive [1] (reqSend ([109] :: [[1, 0], [], [0, 0, 0, 0, 0, 0]])))).1 =
      ⟨false, some [1], some [109], [1, 0, 0, 0, 0, 0, 0, 0]⟩ :=
  (routing_round_trip (by decide) (by decide) (by decide : _ = some .dequeue) (.inr (.inl rfl))
    (by decide) (rfl : (⟨{}, fun _ => none, {}⟩ : LcapCtx).ccSock.pending = [])).2.1

end Lcap.Proofs
