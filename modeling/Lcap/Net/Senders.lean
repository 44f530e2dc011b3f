import Lcap.Net.Peer
import Lcap.Systems.Runs

namespace Lcap.Net
open Client Systems

/-- A call that sends a message between two processes. -/
inductive SendCall
  | peerRpcSend (src : Option ConnId) (dst : ConnId) (msg : List UInt8)
  | ackRetcode (src : Option ConnId) (dst : ConnId) (ret : Int)
  | pxRpcSend (recMdt rpc : List UInt8)
  deriving DecidableEq, Repr

/-- The frames that the call is to send. -/
def SendCall.frames : SendCall → Parts UInt8
  | .peerRpcSend src dst msg => peerFrames src dst msg
  | .ackRetcode src dst ret => peerFrames src dst (packAck ret)
  | .pxRpcSend recMdt rpc => [recMdt, rpc]

def SendCall.run (o : Outbox UInt8) (out : Nat → Option Errno) : SendCall → Outbox UInt8 × Int
  | .peerRpcSend src dst msg => Net.peerRpcSend o src dst msg out
  | .ackRetcode src dst ret => Net.ackRetcode o src dst ret out
  | .pxRpcSend recMdt rpc => Net.pxRpcSend o recMdt rpc out

/-- A call that has returned. -/
structure Made where
  sock : Nat
  call : SendCall
  rc : Int
  deriving DecidableEq, Repr

/-- The sockets of the processes, and the calls made on them so far. -/
structure Senders where
  socks : Nat → Outbox UInt8 := fun _ => {}
  calls : List Made := []

/-- A call on a socket, with the outcomes of its sends. -/
structure Sending where
  sock : Nat
  call : SendCall
  out : Nat → Option Errno := fun _ => none

def sendersStep (x : Senders) (l : Sending) : Option Senders :=
  match l.call.run (x.socks l.sock) l.out with
  | (o, rc) => some
    { socks := Function.update x.socks l.sock o
      calls := x.calls ++ [⟨l.sock, l.call, rc⟩] }

/-- Any calls on any sockets, one after the other. -/
def senders : System Senders Sending where
  init := {}
  step := sendersStep

/-- The calls on a socket that have returned zero. -/
def Senders.completed (x : Senders) (sock : Nat) : List SendCall :=
  x.calls.filterMap fun m => if m.sock = sock ∧ m.rc = 0 then some m.call else none

end Lcap.Net
