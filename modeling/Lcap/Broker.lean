import Lcap.Config
import Lcap.Net.Peer

namespace Lcap.Broker
open Config Net Systems

/-- `struct lcap_ctx`, with the identities under which the readers have registered. -/
structure LcapCtx where
  ccConfig : ParsedCfg
  ccRcid : Nat → Option ConnId := fun _ => none
  ccSock : Outbox UInt8 := {}

/-- The outcomes of what the broker does for one request: the allocation of an
identity, the sends of the handler and those of the reply to an error. -/
structure BrokerIo where
  cidAlloc : Bool := true
  send : Nat → Option Errno := fun _ => none
  ackSend : Nat → Option Errno := fun _ => none

/-- `px_rpc_signal::pr_ret` and `pr_mdtname`. -/
def prRet (body : List UInt8) : Nat := leField body 8 8

def prMdtname (body : List UInt8) : List UInt8 := cString ((body.drop 16).take 128)

def changelogReaderRegister (ctx : LcapCtx) (mdt : List UInt8) (cid : ConnId) (alloc : Bool) :
    LcapCtx × Int :=
  match ctx.ccConfig.ccfMdt.findIdx? (mdt == ·) with
  | none => (ctx, -EINVAL)
  | some i =>
    if alloc then ({ ctx with ccRcid := Function.update ctx.ccRcid i (some cid) }, 0)
    else (ctx, -ENOMEM)

/-- Always returns zero. -/
def changelogReaderDeregister (ctx : LcapCtx) (cid : ConnId) : LcapCtx :=
  match (List.range ctx.ccConfig.ccfMdt.length).find? (fun i => ctx.ccRcid i == some cid) with
  | none => ctx
  | some i => { ctx with ccRcid := Function.update ctx.ccRcid i none }

/-- `cc_sock` after a send, with the return code of the send. -/
def LcapCtx.sending (ctx : LcapCtx) (o : Outbox UInt8 × Int) : LcapCtx × Int :=
  ({ ctx with ccSock := o.1 }, o.2)

/-- A request as the handlers find it: a body comes behind both identities. -/
structure Request where
  lrRemote : ConnId
  lrForward : ConnId
  lrBody : List UInt8
  deriving DecidableEq, Repr

def brokerReaderSend (ctx : LcapCtx) (opType : RpcOpType) (req : Request) (io : BrokerIo) :
    LcapCtx × Int :=
  if req.lrBody.length < rpcExpectedLength opType then (ctx, -EINVAL)
  else ctx.sending (peerRpcSend ctx.ccSock (some req.lrForward) req.lrRemote req.lrBody io.send)

def brokerClientSend (ctx : LcapCtx) (req : Request) (io : BrokerIo) : LcapCtx × Int :=
  ctx.sending (peerRpcSend ctx.ccSock none req.lrForward req.lrBody io.send)

def brokerHandleSignal (ctx : LcapCtx) (req : Request) (io : BrokerIo) : LcapCtx × Int :=
  if req.lrBody.length < sizeofSignal then (ctx, -EINVAL)
  else if prRet req.lrBody = 0 then
    changelogReaderRegister ctx (prMdtname req.lrBody) req.lrRemote io.cidAlloc
  else (changelogReaderDeregister ctx req.lrRemote, 0)

/-- The table of handlers. -/
def rpcHandleOne (ctx : LcapCtx) (opType : RpcOpType) (req : Request) (io : BrokerIo) :
    LcapCtx × Int :=
  match opType with
  | .start | .dequeue | .clear | .fini => brokerReaderSend ctx opType req io
  | .enqueue | .ack => brokerClientSend ctx req io
  | .signal => brokerHandleSignal ctx req io

/-- What the broker makes of the request, before it replies to an error. -/
def rpcDispatch (ctx : LcapCtx) (req : Request) (io : BrokerIo) : LcapCtx × Int :=
  if req.lrBody.length < sizeofHdr then (ctx, -EPROTO)
  else match rpcOpType (leField req.lrBody 0 4) with
    | none => (ctx, -EINVAL)
    | some opType => rpcHandleOne ctx opType req io

/-- The receiving loop hands on no request that lacks an identity. -/
def lcapdProcessRequest (io : BrokerIo) (ctx : LcapCtx) (req : NetRequest) : LcapCtx × Int :=
  match req.lrRemote, req.lrForward with
  | some remote, some forward =>
    match rpcDispatch ctx ⟨remote, forward, req.lrBody⟩ io with
    | (ctx, rc) =>
      if rc < 0 then ctx.sending (ackRetcode ctx.ccSock none remote rc io.ackSend) else (ctx, rc)
  | _, _ => (ctx, 0)

end Lcap.Broker
