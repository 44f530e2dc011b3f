import Lcap.Idl
import Lcap.Systems.Sockets

namespace Lcap.Net
open Systems

def lcapRecvNoEnvelope : Nat := 1
def lcapRecvNonblock : Nat := 2

/-- The flag of libzmq that `lcap_rpc_recv_once` hands its own flags over as. -/
def zmqDontwait : Nat := 1

def hasFlag (flags flag : Nat) : Bool := flags &&& flag != 0

/-- `struct lcapnet_request` while it is being recomposed. The only flag is the one
for messages without an envelope; `lr_body_len` is the length of the body. -/
structure NetRequest where
  lrNoEnvelope : Bool := false
  lrRemote : Option ConnId := none
  lrForward : Option ConnId := none
  lrBody : List UInt8 := []
  deriving DecidableEq, Repr

/-- `alloc` is the outcome of the frame's `malloc` or `realloc`; a failed `realloc`
has already overwritten the pointer to the body. -/
def lcapnetReqUpdate (req : NetRequest) (frame : List UInt8) (alloc : Bool) : NetRequest × Int :=
  if frame = [] then (req, 0)
  else if req.lrRemote = none ∧ !req.lrNoEnvelope then
    if alloc then ({ req with lrRemote := some frame }, 0) else (req, -ENOMEM)
  else if req.lrForward = none then
    if alloc then ({ req with lrForward := some frame }, 0) else (req, -ENOMEM)
  else
    if alloc then ({ req with lrBody := req.lrBody ++ frame }, 0)
    else ({ req with lrBody := [] }, -ENOMEM)

/-- The outcomes of one turn of the loop over the frames. -/
structure FrameIo where
  init : Option Errno := none
  recv : Option Errno := none
  alloc : Bool := true
  deriving DecidableEq, Repr

/-- The loop over the frames of a message, with the frames it leaves on the socket. -/
def recvFrames (io : Nat → FrameIo) : Nat → NetRequest → Parts UInt8 →
    NetRequest × Int × Parts UInt8
  | _, req, [] => (req, 0, [])
  | k, req, frame :: rest =>
    match (io k).init, (io k).recv with
    | some e, _ | none, some e => (req, -(e.val : Int), frame :: rest)
    | none, none =>
      match lcapnetReqUpdate req frame (io k).alloc with
      | (req, rc) => if rc < 0 then (req, rc, rest) else recvFrames io (k + 1) req rest

/-- What is left of a message is what the next receive finds first. -/
def requeue (rest : Parts UInt8) (inbox : List (Parts UInt8)) : List (Parts UInt8) :=
  if rest.isEmpty then inbox else rest :: inbox

/-- One request of a socket on which `inbox` is queued, with the handler `cb` and the
state it works on; there is no result while the call waits for a message. -/
def lcapRpcRecvOnce {σ : Type} (flags : Nat) (reqAlloc : Bool) (io : Nat → FrameIo)
    (cb : σ → NetRequest → σ × Int) (st : σ) : List (Parts UInt8) →
    Option (σ × Int × List (Parts UInt8))
  | inbox =>
    if !reqAlloc then some (st, -ENOMEM, inbox)
    else match inbox with
      | [] =>
        match (io 0).init, (io 0).recv with
        | some e, _ | none, some e => some (st, -(e.val : Int), [])
        | none, none => if hasFlag flags zmqDontwait then some (st, -EAGAIN, []) else none
      | message :: inbox =>
        match recvFrames io 0 { lrNoEnvelope := hasFlag flags lcapRecvNoEnvelope } message with
        | (req, rc, rest) =>
          if rc ≥ 0 ∧ req.lrBody.length > 0 then
            match cb st req with
            | (st, rc) => some (st, rc, requeue rest inbox)
          else some (st, rc, requeue rest inbox)

/-- Receives and counts requests up to the first error. There is no result while a
call waits for a message, nor behind `fuel` calls. -/
def lcapRpcRecv {σ : Type} (flags : Nat) (reqAlloc : Nat → Bool) (io : Nat → Nat → FrameIo)
    (cb : σ → NetRequest → σ × Int) :
    Nat → Nat → σ → List (Parts UInt8) → Option (σ × Nat × List (Parts UInt8))
  | 0, _, _, _ => none
  | fuel + 1, rpcProcessed, st, inbox =>
    match lcapRpcRecvOnce flags (reqAlloc rpcProcessed) (io rpcProcessed) cb st inbox with
    | none => none
    | some (st, rc, inbox) =>
      if rc < 0 then some (st, rpcProcessed, inbox)
      else lcapRpcRecv flags reqAlloc io cb fuel (rpcProcessed + 1) st inbox

end Lcap.Net
