import Lcap.Client.Pack
import Lcap.Net.Recv

namespace Lcap.Net
open Client Systems

/-- The frames of a message between peers: with a sender, it is routed to that one
first. -/
def peerFrames (src : Option ConnId) (dst : ConnId) (msg : List UInt8) : Parts UInt8 :=
  (match src with
    | some src => [src, []]
    | none => []) ++ [dst, [], msg]

/-- `rc` of a sequence of sends: zero, or the negated errno of the one that failed. -/
def sendAllRc (o : Outbox UInt8 × Option Errno) : Outbox UInt8 × Int :=
  match o with
  | (o, none) => (o, 0)
  | (o, some e) => (o, -(e.val : Int))

def peerRpcSend (o : Outbox UInt8) (src : Option ConnId) (dst : ConnId) (msg : List UInt8)
    (out : Nat → Option Errno) : Outbox UInt8 × Int :=
  sendAllRc (o.sendAll out 0 (peerFrames src dst msg))

/-- The message of `ack_retcode`. -/
def packAck (ret : Int) : List UInt8 := packHdr .ack ++ leBytes 4 (ret % 2 ^ 32).toNat

def ackRetcode (o : Outbox UInt8) (src : Option ConnId) (dst : ConnId) (ret : Int)
    (out : Nat → Option Errno) : Outbox UInt8 × Int :=
  peerRpcSend o src dst (packAck ret) out

/-- `px_rpc_send` on the client's socket, whose delimiter comes from its kind. -/
def pxRpcSend (o : Outbox UInt8) (recMdt : List UInt8) (rpc : List UInt8)
    (out : Nat → Option Errno) : Outbox UInt8 × Int :=
  sendAllRc (o.sendAll out 0 [recMdt, rpc])

theorem peer_frames_ne_nil (src : Option ConnId) (dst : ConnId) (msg : List UInt8) :
    peerFrames src dst msg ≠ [] := by
  simp [peerFrames]

/-- Without failures the message leaves as a whole. -/
theorem peer_rpc_send_ok {out : Nat → Option Errno} (hout : ∀ k, out k = none) (o : Outbox UInt8)
    (src : Option ConnId) (dst : ConnId) (msg : List UInt8) :
    peerRpcSend o src dst msg out =
      ({ pending := [], sent := o.sent ++ [o.pending ++ peerFrames src dst msg] }, 0) := by
  rw [peerRpcSend, Outbox.send_all_ok hout 0 o (peer_frames_ne_nil src dst msg)]
  rfl

end Lcap.Net
