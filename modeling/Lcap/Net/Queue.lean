import Lcap.Net.Recv
import Lcap.Systems.Runs

namespace Lcap.Net
open Systems

/-- A message on a socket, of which some frames have been taken already. -/
structure Queued where
  message : Parts UInt8
  taken : Nat := 0
  deriving DecidableEq, Repr

def Queued.rest (q : Queued) : Parts UInt8 := q.message.drop q.taken

/-- A call of the handler, with the flags of the receive and the message that it took
frames from, as that was found. -/
structure Invocation where
  flags : Nat
  source : Queued
  req : NetRequest
  deriving DecidableEq, Repr

structure Socket where
  inbox : List Queued := []
  handled : List Invocation := []
  deriving DecidableEq, Repr

/-- What one call of `lcap_rpc_recv_once` leaves: the first message is gone, or as many
of its frames as are no longer on the socket have been taken. -/
def resume (inbox : List Queued) (rests : List (Parts UInt8)) : List Queued :=
  match inbox, rests with
  | q :: later, rest :: rests =>
    if rests.length = later.length then
      { q with taken := q.message.length - rest.length } :: later
    else later
  | _, _ => []

inductive SocketMove
  | arrive (message : Parts UInt8)
  | receive (flags : Nat) (reqAlloc : Bool) (io : Nat → FrameIo) (hdl : NetRequest → Int)

def socketStep (x : Socket) : SocketMove → Option Socket
  | .arrive message =>
    if message = [] then none else some { x with inbox := x.inbox ++ [{ message }] }
  | .receive flags reqAlloc io hdl =>
    (lcapRpcRecvOnce flags reqAlloc io (fun reqs req => (reqs ++ [req], hdl req)) []
      (x.inbox.map Queued.rest)).map fun (reqs, _, rests) =>
        { inbox := resume x.inbox rests
          handled := x.handled ++ x.inbox.head?.toList.flatMap fun q => reqs.map (⟨flags, q, ·⟩) }

/-- A socket on which messages arrive as a whole, and the calls that read it. -/
def socket : System Socket SocketMove where
  init := {}
  step := socketStep

end Lcap.Net
