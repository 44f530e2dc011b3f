import Lcap.Net.Peer
import Lcap.Systems.Runs
import Lcap.Wire.Decode

namespace Lcap.Wire
open Client (PxRequest efsm leBytes packHdr recvBufferLength)
open Systems

/-- A reply of the server to a proxied client. -/
inductive ServerReply
  | ack (retcode : Int)
  | enqueue (recs : List (List UInt8))
  deriving DecidableEq, Repr

def ServerReply.pack : ServerReply → List UInt8
  | .ack retcode => Net.packAck retcode
  | .enqueue recs => packHdr .enqueue ++ leBytes 4 recs.length ++ recs.flatten

/-- The reply is of a kind that answers the request, and each of its records is as
long as it says. -/
def ServerReply.Answers (L : RecLayout) (req : PxRequest) : ServerReply → Prop
  | .ack _ => True
  | .enqueue recs => req = .dequeue ∧
    ∀ r ∈ recs, L.recLen (r.take L.sizeofRec) = r.length ∧ L.sizeofRec ≤ r.length

instance (L : RecLayout) (req : PxRequest) : (msg : ServerReply) → Decidable (msg.Answers L req)
  | .ack _ => .isTrue trivial
  | .enqueue _ => inferInstanceAs (Decidable (_ ∧ _))

/-- A ZMQ_REQ socket sends only after the reply to the last request has been
received to its last frame. -/
inductive ReqSocket
  | ready
  | owed (req : PxRequest)
  | arrived (msg : ServerReply) (frames : Parts UInt8)
  deriving DecidableEq, Repr

def ReqSocket.left (msg : ServerReply) : Parts UInt8 → ReqSocket
  | [] => .ready
  | frames => .arrived msg frames

/-- The outcomes of a call on a socket in the given state. -/
def ReqSocket.gate (sock : ReqSocket) (io : DequeueIo) : DequeueIo :=
  if sock = .ready then io else { io with send := some efsm }

def clAckRetcode (io : DequeueIo) (reply : Parts UInt8) : Int :=
  match clRepRecv sizeofAck io.frame 0 [] reply with
  | (buff, rcvd, _) =>
    if rcvd < 0 then rcvd else if rcvd < sizeofAck then -EINVAL else prRetcode buff

def pxChangelogClear (z : PxCache) (io : DequeueIo) : Dequeue Int :=
  if z.recNxt < z.recCnt then .ret 0
  else if !io.alloc then .ret (-ENOMEM)
  else match io.send with
    | some e => .ret (-(e.val : Int))
    | none => .ask (clAckRetcode io)

/-- What passes between the application, its context and the server. -/
inductive PxEvent
  | transmitted (req : PxRequest)
  | replied (msg : ServerReply)
  | returned (rec : Option (List UInt8))
  deriving DecidableEq, Repr

inductive Progress
  | running
  | waiting (io : DequeueIo) (req : PxRequest)
  | crashed

structure PxContext where
  cache : PxCache := pzdInit
  sock : ReqSocket := .ready
  progress : Progress := .running
  trace : List PxEvent := []

/-- The calls of the application, the replies of the server, and how a call that
waits for one goes on. -/
inductive PxMove
  | recv (io : DequeueIo)
  | free
  | clear (mdtname id : List UInt8) (endrec : Int) (io : DequeueIo)
  | reply (msg : ServerReply) (frames : Parts UInt8)
  | resume
  | interrupt (e : Errno)

namespace PxContext

def transmit (x : PxContext) (req : PxRequest) : PxContext :=
  { x with sock := .owed req, trace := x.trace ++ [.transmitted req] }

/-- The end of a call of `px_changelog_recv`. -/
def finish (L : RecLayout) (x : PxContext) : Except Crash (PxCache × Received) → PxContext
  | .error _ => { x with progress := .crashed }
  | .ok (z, .record rec) =>
    { x with
      cache := z, progress := .running, trace := x.trace ++ [.returned (recordBytes L z rec)] }
  | .ok (z, .code _) => { x with cache := z, progress := .running }

def recv (L : RecLayout) (x : PxContext) (io : DequeueIo) : PxContext :=
  match pxChangelogRecv L (x.sock.gate io) x.cache with
  | .ret res => x.finish L res
  | .leave res => (x.transmit .dequeue).finish L res
  | .ask _ => { x.transmit .dequeue with progress := .waiting io .dequeue }

def clear (x : PxContext) (req : PxRequest) (io : DequeueIo) : PxContext :=
  match pxChangelogClear x.cache (x.sock.gate io) with
  | .ret _ => x
  | .leave _ => x.transmit req
  | .ask _ => { x.transmit req with progress := .waiting io req }

/-- The call that waits receives what there is of a reply. -/
def resume (L : RecLayout) (x : PxContext) (io : DequeueIo) (req : PxRequest)
    (frames : Parts UInt8) :
    Option PxContext :=
  match req with
  | .dequeue => match pxChangelogRecv L io x.cache with
    | .ask resume => some (x.finish L (resume frames))
    | _ => none
  | _ => some { x with progress := .running }

end PxContext

/-- How many bytes the buffer for a reply takes. -/
def replyBufflen : PxRequest → Nat
  | .dequeue => recvBufferLength
  | _ => sizeofAck

def pxContextStep (L : RecLayout) (x : PxContext) : PxMove → Option PxContext
  | .recv io => match x.progress with
    | .running => some (x.recv L io)
    | _ => none
  | .free => match x.progress with
    | .running => some { x with cache := pxChangelogFree x.cache }
    | _ => none
  | .clear mdtname id endrec io => match x.progress with
    | .running => some (x.clear (.clear mdtname id endrec) io)
    | _ => none
  | .reply msg frames => match x.sock with
    | .owed req =>
      if msg.Answers L req ∧ frames ≠ [] ∧ frames.flatten = msg.pack then
        some { x with sock := .arrived msg frames, trace := x.trace ++ [.replied msg] }
      else none
    | _ => none
  | .resume => match x.progress, x.sock with
    | .waiting io req, .arrived msg frames =>
      ({ x with sock := .left msg (clRepRecv (replyBufflen req) io.frame 0 [] frames).2.2 } :
        PxContext).resume L io req frames
    | _, _ => none
  -- zmq_recv fails before the reply is there; its first frame stands for any.
  | .interrupt e => match x.progress, x.sock with
    | .waiting io req, .owed _ =>
      x.resume L { io with frame := fun _ => { recv := some e } } req [[]]
    | _, _ => none

/-- A proxied context after its start. -/
def pxContext (L : RecLayout) : System PxContext PxMove where
  init := {}
  step := pxContextStep L

end Lcap.Wire
