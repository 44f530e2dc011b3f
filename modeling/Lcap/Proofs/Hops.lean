import Lcap.Net.Network
import Lcap.Proofs.BrokerReplies
import Lcap.Proofs.Rendering

namespace Lcap.Proofs
open Reader Broker Net Wire Network Systems
open Config (cString)
open Client (WireRequest start_well_formed dequeue_well_formed clear_well_formed fini_well_formed)

/-! ## What a message is to the broker -/

/-- Every request of a client is one that the broker forwards to a reader. -/
theorem request_for_reader (cid : ConnId) (req : WireRequest) :
    ∃ op, ForReader op ∧ (req.pack cid).WellFormed op := by
  cases req with
  | fini => exact ⟨.fini, .inr (.inr (.inr rfl)), fini_well_formed cid⟩
  | px req =>
    cases req with
    | start flags mdtname startrec =>
      exact ⟨.start, .inl rfl, start_well_formed cid flags mdtname startrec⟩
    | dequeue => exact ⟨.dequeue, .inr (.inl rfl), dequeue_well_formed cid⟩
    | clear mdtname id endrec =>
      exact ⟨.clear, .inr (.inr (.inl rfl)), clear_well_formed cid mdtname id endrec⟩

/-- Every message of a reader to a client is one that the broker forwards to it. -/
theorem reply_for_client {L : RecLayout} (h : Renders L rep bytes) :
    ∃ op, ForClient op ∧ rpcOpType (leField bytes 0 4) = some op ∧ sizeofHdr ≤ bytes.length := by
  cases h with
  | @ack rc _ =>
    obtain ⟨hop, hlen, _⟩ := pack_ack_fields rc
    refine ⟨.ack, .inr rfl, hop ▸ rpc_op_type_code _, ?_⟩
    rw [hlen]
    decide
  | @enqueue raws _ _ =>
    refine ⟨.enqueue, .inl rfl, (pack_records_fields raws).1 ▸ rpc_op_type_code _, ?_⟩
    rw [pack_records_length]
    exact Nat.le_add_right_of_le (by decide)

/-- A signal changes no more than the registered identities, or is refused. -/
theorem signal_handled (ctx : LcapCtx) (req : Request) :
    ∃ ctx' rc, brokerHandleSignal ctx req {} = (ctx', rc) ∧
      (rc = 0 ∧ ctx'.ccSock = ctx.ccSock ∨ rc < 0 ∧ ctx' = ctx) := by
  unfold brokerHandleSignal
  split
  · exact ⟨ctx, _, rfl, .inr ⟨einval_neg, rfl⟩⟩
  split
  · rcases register_outcome ctx (prMdtname req.lrBody) req.lrRemote with ⟨ctx', hr, hs, _⟩ | hr
    · exact ⟨ctx', 0, hr, .inl ⟨rfl, hs⟩⟩
    · exact ⟨ctx, _, hr, .inr ⟨einval_neg, rfl⟩⟩
  · exact ⟨_, 0, rfl, .inl ⟨rfl, deregister_sock ctx req.lrRemote⟩⟩

/-- What the broker sends for a signal: nothing, or the refusal. -/
def Refusal (who : ConnId) (out : List (Parts UInt8)) : Prop :=
  out = [] ∨ ∃ ret, out = [peerFrames none who (packAck ret)]

theorem signal_outcome (ctx : LcapCtx) (hidle : ctx.ccSock.pending = [])
    (hop : rpcOpType (leField body 0 4) = some .signal) (hlen : sizeofHdr ≤ body.length)
    (remote forward : ConnId) :
    ∃ ctx' rc out, lcapdProcessRequest {} ctx
      ⟨false, some remote, some forward, body⟩ = (ctx', rc) ∧
      Emits ctx ctx' out ∧ Refusal remote out := by
  obtain ⟨ctx', rc, hs, hcases⟩ := signal_handled ctx ⟨remote, forward, body⟩
  have hdisp : Broker.rpcDispatch ctx ⟨remote, forward, body⟩ {} = (ctx', rc) := by
    simp only [Broker.rpcDispatch, if_neg (Nat.not_lt.mpr hlen), hop, Broker.rpcHandleOne, hs]
  rcases hcases with ⟨rfl, hsock⟩ | ⟨hrc, rfl⟩
  · refine ⟨ctx', 0, [], ?_, ?_, .inl rfl⟩
    · simp only [lcapdProcessRequest, hdisp]
      rfl
    · rw [Emits, hsock, List.append_nil, ← hidle]
  · refine ⟨emitted ctx' (peerFrames none remote (packAck rc)), 0, _, ?_, rfl, .inr ⟨rc, rfl⟩⟩
    simp only [lcapdProcessRequest, hdisp, if_pos hrc, Net.ackRetcode]
    rw [emits hidle (fun _ => rfl)]

/-! ## One turn of the broker -/

section
variable {N : Site} {x : NetState} {rest : List (Parts UInt8)} {who cid : ConnId}

/-- The message is off the connection, and the broker's socket idle. -/
def taken (x : NetState) (who : ConnId) (rest : List (Parts UInt8)) (ctx : LcapCtx) : NetState :=
  { x with up := Function.update x.up who rest, ctx := { ctx with ccSock := {} } }

theorem broker_turn_of {ctx : LcapCtx} (hup : x.up who = message :: rest)
    (ht : brokerTake { x.ctx with ccSock := {} } [routerReceive who message] = some (ctx, rc, [])) :
    brokerTurn x who = some (ctx.ccSock.sent.foldl NetState.route (taken x who rest ctx)) := by
  rw [brokerTake] at ht
  simp only [brokerTurn, hup, ht, Option.map_some]
  rfl

theorem broker_takes_request {req : WireRequest}
    (hup : x.up cid = [[], mdt, (req.pack cid).lrBody] :: rest)
    (hcid : cid ≠ []) (hmdt : mdt ≠ []) :
    brokerTurn x cid =
      some (NetState.route (taken x cid rest x.ctx) [mdt, [], cid, [], (req.pack cid).lrBody]) := by
  obtain ⟨op, hreq, hhdr, hop, hlen⟩ := request_for_reader cid req
  have hm := (recompose_envelope hcid hmdt [(req.pack cid).lrBody]).1
  rw [List.flatten_singleton] at hm
  rw [broker_turn_of hup (broker_take hm (ne_nil_of_length hhdr)
    (forwards_to_reader rfl hop hreq hlen) [])]
  rfl

/-- A request for no device is dropped: its body stands where the device is looked for. -/
theorem broker_drops_request {req : WireRequest}
    (hup : x.up cid = [[], [], (req.pack cid).lrBody] :: rest) (hcid : cid ≠ []) :
    brokerTurn x cid = some (taken x cid rest x.ctx) := by
  obtain ⟨op, hreq, hhdr, hop, hlen⟩ := request_for_reader cid req
  have hbody := ne_nil_of_length hhdr
  have hm : recompose false (routerReceive cid [[], [], (req.pack cid).lrBody]) =
      ⟨false, some cid, some (req.pack cid).lrBody, []⟩ := by
    simp [recompose, routerReceive, hcid, hbody]
  have hflag : hasFlag lcapRecvNonblock lcapRecvNoEnvelope = false := rfl
  have ht : brokerTake { x.ctx with ccSock := {} }
      [routerReceive cid [[], [], (req.pack cid).lrBody]] =
      some ({ x.ctx with ccSock := {} }, 0, []) := by
    rw [brokerTake, recv_once_calm (fun _ => rfl), hflag, hm]
    rfl
  rw [broker_turn_of hup ht]
  rfl

theorem broker_takes_reply {L : RecLayout} (hup : x.up who = [cid, [], bytes] :: rest)
    (hwho : who ≠ []) (hcid : cid ≠ []) (hrep : Renders L rep bytes) :
    brokerTurn x who = some (NetState.route (taken x who rest x.ctx) [cid, [], bytes]) := by
  obtain ⟨op, hreply, hop, hlen⟩ := reply_for_client hrep
  have hm := (recompose_envelope hwho hcid [[], bytes]).2
  simp only [List.flatten_cons, List.nil_append, List.flatten_nil, List.append_nil] at hm
  rw [broker_turn_of hup (broker_take hm (ne_nil_of_length hlen)
    (forwards_to_client rfl hop hreply hlen) [])]
  rfl

/-- The message of `changelog_reader_signal`. -/
def signalFrames (errcode : Int) (dev : List UInt8) : Parts UInt8 :=
  [[], cString (signalMdtname dev).field, packSignal errcode dev]

theorem broker_takes_signal (hup : x.up who = signalFrames errcode dev :: rest) (hwho : who ≠ []) :
    ∃ ctx, brokerTurn x who = some (taken x who rest ctx) ∨
      ∃ ret,
        brokerTurn x who = some (NetState.route (taken x who rest ctx) [who, [], packAck ret]) := by
  have hlen : sizeofHdr ≤ (packSignal errcode dev).length := by
    rw [packSignal, List.append_assoc, List.length_append, Client.pack_hdr_length]
    exact Nat.le_add_right 8 _
  have hop : rpcOpType (leField (packSignal errcode dev) 0 4) = some .signal := by
    rw [packSignal, List.append_assoc, Client.pack_hdr_op]
    exact rpc_op_type_code _
  have hbody := ne_nil_of_length hlen
  have hflag : hasFlag lcapRecvNonblock lcapRecvNoEnvelope = false := rfl
  by_cases hname : cString (signalMdtname dev).field = []
  · have hm : recompose false (routerReceive who (signalFrames errcode dev)) =
        ⟨false, some who, some (packSignal errcode dev), []⟩ := by
      simp [recompose, routerReceive, signalFrames, hname, hwho, hbody]
    have ht : brokerTake { x.ctx with ccSock := {} }
        [routerReceive who (signalFrames errcode dev)] =
        some ({ x.ctx with ccSock := {} }, 0, []) := by
      rw [brokerTake, recv_once_calm (fun _ => rfl), hflag, hm]
      rfl
    refine ⟨x.ctx, .inl ?_⟩
    rw [broker_turn_of hup ht]
    rfl
  · have hm := (recompose_envelope hwho hname [packSignal errcode dev]).1
    rw [List.flatten_singleton] at hm
    obtain ⟨ctx, rc, out, hp, hemit, hout⟩ := signal_outcome
      { x.ctx with ccSock := {} } rfl hop hlen who (cString (signalMdtname dev).field)
    have ht := broker_turn_of hup (broker_take hm hbody hp [])
    rw [Emits] at hemit
    rw [hemit, List.nil_append] at ht
    refine ⟨ctx, ?_⟩
    rcases hout with rfl | ⟨ret, rfl⟩
    · exact .inl ht
    · exact .inr ⟨ret, ht⟩

/-! ## One turn of a reader -/

theorem reader_takes_request (hdown : x.down (N.device i) = [[], cid, [], body] :: rest)
    (hcid : cid ≠ []) (hbody : body ≠ []) :
    readerTurn N x i io = (readerStep (x.readers i) (.request ⟨cid, body⟩ io)).bind fun env =>
      (sentBy N i (x.readers i) env).map fun out =>
        (({ x with down := Function.update x.down (N.device i) rest } : NetState).advance i
          env).post (N.device i) out := by
  have hflag : hasFlag (lcapRecvNonblock + lcapRecvNoEnvelope) lcapRecvNoEnvelope = true := rfl
  have hm := recompose_no_envelope hcid [[], body]
  simp only [List.flatten_cons, List.nil_append, List.flatten_nil, List.append_nil] at hm
  simp only [readerTurn, hdown]
  rw [recv_once_calm (fun _ => rfl), hflag, hm]
  simp only [if_neg hbody, readerCallback, Option.bind_some, Option.getD_some]

/-- A refusal of the broker reaches the reader as a message without a body. -/
theorem reader_takes_refusal (hdown : x.down (N.device i) = [[], packAck ret] :: rest) :
    readerTurn N x i io = (sentBy N i (x.readers i) (x.readers i)).map fun out =>
      (({ x with down := Function.update x.down (N.device i) rest } : NetState).advance i
        (x.readers i)).post (N.device i) out := by
  have hflag : hasFlag (lcapRecvNonblock + lcapRecvNoEnvelope) lcapRecvNoEnvelope = true := rfl
  have hack : packAck ret ≠ [] := ne_nil_of_length (by
    rw [(pack_ack_fields ret).2.1]
    decide)
  have hm := recompose_no_envelope hack []
  simp only [List.flatten_nil] at hm
  simp only [readerTurn, hdown]
  rw [recv_once_calm (fun _ => rfl), hflag, hm]
  rfl

end

end Lcap.Proofs
