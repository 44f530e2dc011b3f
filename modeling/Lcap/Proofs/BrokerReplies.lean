import Lcap.Proofs.Routing

namespace Lcap.Proofs
open Broker Config Net Systems

/-- A SIGNAL that the broker accepts: a reader starts for a device of the configuration,
or says that it has failed. -/
def AcceptedSignal (ctx : LcapCtx) (body : List UInt8) : Prop :=
  rpcOpType (leField body 0 4) = some .signal ∧ sizeofSignal ≤ body.length ∧
    (prRet body ≠ 0 ∨ prMdtname body ∈ ctx.ccConfig.ccfMdt)

/-- What the broker may emit for one request. -/
inductive Reaction (ctx : LcapCtx) (sender forward : ConnId) (body : List UInt8) :
    List (Parts UInt8) → Prop
  | toReader : Reaction ctx sender forward body [peerFrames (some forward) sender body]
  | toClient : Reaction ctx sender forward body [peerFrames none forward body]
  | refused (hrc : rc < 0) : Reaction ctx sender forward body [peerFrames none sender (packAck rc)]
  | accepted (hsig : AcceptedSignal ctx body) : Reaction ctx sender forward body []

/-- `cc_sock` once the messages have left on it; the identities may have changed. -/
def Emits (ctx ctx' : LcapCtx) (out : List (Parts UInt8)) : Prop :=
  ctx'.ccSock = { pending := [], sent := ctx.ccSock.sent ++ out }

theorem register_outcome (ctx : LcapCtx) (mdt : List UInt8) (cid : ConnId) :
    (∃ ctx', changelogReaderRegister ctx mdt cid true = (ctx', 0) ∧ ctx'.ccSock = ctx.ccSock ∧
      mdt ∈ ctx.ccConfig.ccfMdt) ∨
    changelogReaderRegister ctx mdt cid true = (ctx, -EINVAL) := by
  unfold changelogReaderRegister
  cases hi : ctx.ccConfig.ccfMdt.findIdx? (mdt == ·) with
  | none => exact .inr rfl
  | some i =>
    refine .inl ⟨_, rfl, rfl, ?_⟩
    obtain ⟨hlt, hp, _⟩ := List.findIdx?_eq_some_iff_getElem.mp hi
    rw [eq_of_beq hp]
    exact List.getElem_mem hlt

theorem deregister_sock (ctx : LcapCtx) (cid : ConnId) :
    (changelogReaderDeregister ctx cid).ccSock = ctx.ccSock := by
  unfold changelogReaderDeregister
  split <;> rfl

/-- A request is forwarded, or its error is left to the reply, or it is a SIGNAL. -/
theorem dispatch_outcome (hidle : ctx.ccSock.pending = []) (req : Request) :
    (∃ ctx' out, rpcDispatch ctx req {} = (ctx', 0) ∧ Emits ctx ctx' out ∧
      Reaction ctx req.lrRemote req.lrForward req.lrBody out) ∨
    ∃ rc, rc < 0 ∧ rpcDispatch ctx req {} = (ctx, rc) := by
  unfold rpcDispatch
  split
  · exact .inr ⟨-EPROTO, eproto_neg, rfl⟩
  split
  · exact .inr ⟨-EINVAL, einval_neg, rfl⟩
  rename_i op hop
  have hread : (∃ ctx' out, brokerReaderSend ctx op req {} = (ctx', 0) ∧ Emits ctx ctx' out ∧
      Reaction ctx req.lrRemote req.lrForward req.lrBody out) ∨
      ∃ rc, rc < 0 ∧ brokerReaderSend ctx op req {} = (ctx, rc) := by
    unfold brokerReaderSend
    split
    · exact .inr ⟨-EINVAL, einval_neg, rfl⟩
    · exact .inl ⟨_, _, emits hidle (fun _ => rfl) _ _ _, rfl, .toReader⟩
  have hclient : ∃ ctx' out, brokerClientSend ctx req {} = (ctx', 0) ∧ Emits ctx ctx' out ∧
      Reaction ctx req.lrRemote req.lrForward req.lrBody out :=
    ⟨_, _, emits hidle (fun _ => rfl) _ _ _, rfl, .toClient⟩
  cases op with
  | start | dequeue | clear | fini => exact hread
  | enqueue | ack => exact .inl hclient
  | signal =>
    simp only [rpcHandleOne, brokerHandleSignal]
    have hquiet : ∀ {ctx' : LcapCtx}, ctx'.ccSock = ctx.ccSock → Emits ctx ctx' [] := by
      intro ctx' he
      rw [Emits, he, List.append_nil, ← hidle]
    split
    · exact .inr ⟨-EINVAL, einval_neg, rfl⟩
    rename_i hlen
    split
    · rename_i hret
      rcases register_outcome ctx (prMdtname req.lrBody) req.lrRemote with ⟨ctx', he, hs, hm⟩ | he
      · exact .inl ⟨ctx', [], he, hquiet hs, .accepted ⟨hop, Nat.le_of_not_lt hlen, .inr hm⟩⟩
      · exact .inr ⟨-EINVAL, einval_neg, he⟩
    · rename_i hret
      exact .inl ⟨_, [], rfl, hquiet (deregister_sock ctx _),
        .accepted ⟨hop, Nat.le_of_not_lt hlen, .inl hret⟩⟩

/-- Every request gets one reaction: errors are answered where they are found. -/
theorem process_outcome (hidle : ctx.ccSock.pending = []) (sender forward : ConnId)
    (body : List UInt8) :
    ∃ ctx' out rc, lcapdProcessRequest {} ctx
      ⟨false, some sender, some forward, body⟩ = (ctx', rc) ∧
      Emits ctx ctx' out ∧ Reaction ctx sender forward body out := by
  rcases dispatch_outcome hidle ⟨sender, forward, body⟩ with ⟨ctx', out, hd, he, hr⟩ | ⟨rc, hrc, hd⟩
  · refine ⟨ctx', out, 0, ?_, he, hr⟩
    simp only [lcapdProcessRequest, hd]
    rfl
  · refine ⟨emitted ctx (peerFrames none sender (packAck rc)), _, 0, ?_, rfl, .refused hrc⟩
    simp only [lcapdProcessRequest, hd, if_pos hrc, ackRetcode]
    rw [emits hidle (fun _ => rfl)]

/-- The frames behind the sender's identity that carry bytes. -/
def contents (frames : Parts UInt8) : Parts UInt8 := frames.filter (· ≠ [])

/-- The broker reacts in one way to each message that carries bytes in two frames behind
the sender's identity, a destination and a body. The receiving loop keeps every
other message from it. -/
theorem broker_reacts_once (hid : sender ≠ []) (hidle : ctx.ccSock.pending = [])
    (frames : Parts UInt8) (inbox : List (Parts UInt8)) :
    ∃ ctx' rc, brokerTake ctx (routerReceive sender frames :: inbox) = some (ctx', rc, inbox) ∧
      (∀ forward first rest, contents frames = forward :: first :: rest →
        ∃ out, Emits ctx ctx' out ∧ Reaction ctx sender forward (first :: rest).flatten out) ∧
      ((contents frames).length < 2 → ctx' = ctx) := by
  have hflag : hasFlag lcapRecvNonblock lcapRecvNoEnvelope = false := rfl
  have hcons : (sender :: frames).filter (· ≠ []) = sender :: contents frames :=
    List.filter_cons_of_pos (by simpa using hid)
  have hne : ∀ f ∈ contents frames, f ≠ [] := by
    intro f hf
    simpa using (List.mem_filter.mp hf).2
  rw [brokerTake, recv_once_calm (fun _ => rfl), hflag, routerReceive, recompose, hcons]
  rcases hc : contents frames with _ | ⟨forward, _ | ⟨first, rest⟩⟩
  · exact ⟨ctx, 0, rfl, by simp, fun _ => rfl⟩
  · exact ⟨ctx, 0, rfl, by simp, fun _ => rfl⟩
  · have hbody : (first :: rest).flatten ≠ [] := by
      have hfirst := hne first (hc ▸ by simp)
      simp [hfirst]
    obtain ⟨ctx', out, rc, hp, he, hr⟩ :=
      process_outcome hidle sender forward (first :: rest).flatten
    refine ⟨ctx', rc, ?_, ?_, ?_⟩
    · simp only [Bool.false_eq_true, if_false, if_neg hbody, hp]
    · intro forward' first' rest' h
      cases h
      exact ⟨out, he, hr⟩
    · intro h
      simp only [List.length_cons] at h
      omega

/-- A START without the rest of its body is answered with an error. -/
theorem broker_reacts_once_truncated :
    ∃ ctx' rc, brokerTake ⟨{}, fun _ => none, {}⟩ [routerReceive [1] [[], [109], [0, 0, 0]]] =
        some (ctx', rc, []) ∧
      ∃ out, Emits ⟨{}, fun _ => none, {}⟩ ctx' out ∧
        Reaction ⟨{}, fun _ => none, {}⟩ [1] [109] [0, 0, 0] out := by
  obtain ⟨ctx', rc, h, hreact, _⟩ :=
    broker_reacts_once (by decide : ([1] : ConnId) ≠ [])
      (rfl : (⟨{}, fun _ => none, {}⟩ : LcapCtx).ccSock.pending = []) [[], [109], [0, 0, 0]] []
  exact ⟨ctx', rc, h, hreact [109] [0, 0, 0] [] rfl⟩

/-- A request without a body, and one with a body but without the name of an MDT, are
taken off the socket and get no answer. -/
theorem empty_frames_dropped :
    brokerTake ⟨{}, fun _ => none, {}⟩ [routerReceive [1] (reqSend [[109], []])] =
        some (⟨{}, fun _ => none, {}⟩, 0, []) ∧
      brokerTake ⟨{}, fun _ => none, {}⟩ [routerReceive [1] (reqSend [[], Client.clDequeuePack])] =
        some (⟨{}, fun _ => none, {}⟩, 0, []) :=
  ⟨rfl, rfl⟩

end Lcap.Proofs
