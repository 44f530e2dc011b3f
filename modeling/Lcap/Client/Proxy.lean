import Lcap.Client.Pack
import Lcap.Reader.State

namespace Lcap.Client
open Reader

def EOVERFLOW : Int := 75

theorem eoverflow_neg : -EOVERFLOW < 0 := by decide

/-- The errno `EFSM` of libzmq: a REQ socket that is owed a reply sends nothing. -/
def efsm : Errno := ⟨156384763, by decide⟩

/-- `RECV_BUFFER_LENGTH`. -/
def recvBufferLength : Nat := 8 * 1024 * 1024

inductive PxRequest
  | start (flags : Nat) (mdtname : List UInt8) (startrec : Int)
  | dequeue
  | clear (mdtname id : List UInt8) (endrec : Int)
  deriving DecidableEq, Repr

def PxRequest.pack (cid : ConnId) : PxRequest → LcapnetRequest
  | .start flags mdtname startrec => ⟨cid, clStartPack flags mdtname startrec⟩
  | .dequeue => ⟨cid, clDequeuePack⟩
  | .clear mdtname id endrec => ⟨cid, clClearPack mdtname id endrec⟩

/-- The outcomes of what one call of the library does besides its RPC: `setup` is
everything before the send of `px_changelog_start`, `grow` the `realloc`. -/
structure PxIo where
  setup : Option Errno := none
  alloc : Bool := true
  grow : Bool := true
  send : Option Errno := none
  recv : Option Errno := none
  deriving DecidableEq, Repr

/-- A call of the library returns at once, returns with a request on its way, or
sends a request and goes on with the reply. -/
inductive Call (α : Type)
  | ret (a : α)
  | leave (req : PxRequest) (a : α)
  | ask (req : PxRequest) (resume : Reply → α)

def Call.map (f : α → β) : Call α → Call β
  | .ret a => .ret (f a)
  | .leave req a => .leave req (f a)
  | .ask req resume => .ask req (fun rep => f (resume rep))

/-- `records` lists the allocated entries that have been written. -/
structure PxZmqData where
  recBuff : Option Reply := none
  records : List ChangelogRec := []
  recNxt : Nat := 0
  recCnt : Nat := 0
  deriving DecidableEq, Repr

def repSize : Reply → Nat
  | .ack _ => sizeofAck
  | .enqueue rpcSize _ _ => rpcSize

/-- The number behind the header, which both messages have there. -/
def repRetcode : Reply → Int
  | .ack rc => rc
  | .enqueue _ prCount _ => Int.bmod prCount (2 ^ 32)

def clAckRetcode (io : PxIo) (rep : Reply) : Int :=
  match io.recv with
  | some e => -(e.val : Int)
  | none =>
    if repSize rep > sizeofAck then -EOVERFLOW
    else if repSize rep < sizeofAck then -EINVAL
    else repRetcode rep

def pxChangelogStart (flags : Nat) (mdtname : List UInt8) (startrec : Int) (io : PxIo) :
    Call (PxZmqData × Int) :=
  if !io.alloc then .ret ({}, -ENOMEM)
  else match io.setup, io.send with
    | some e, _ | none, some e => .ret ({}, -(e.val : Int))
    | none, none => .ask (.start flags mdtname startrec) fun rep =>
      match io.recv with
      | some e => ({}, -(e.val : Int))
      | none => ({}, if repSize rep < sizeofAck then -EINVAL else repRetcode rep)

/-- The reply to a DEQUEUE; `recSize` is the size of a `struct changelog_rec`. -/
def cacheReply (recSize : Nat) (pzd : PxZmqData) (io : PxIo) (rep : Reply) : PxZmqData × Int :=
  match io.recv with
  | some e => (pzd, -(e.val : Int))
  | none =>
    if repSize rep > recvBufferLength then (pzd, -EOVERFLOW)
    else match rep with
      | .ack rc => (pzd, rc)
      | .enqueue rpcSize prCount prRecords =>
        if rpcSize < sizeofEnqueue + recSize then (pzd, -EINVAL)
        else if prCount > pzd.recCnt then
          if io.grow then
            ({ recBuff := some rep, records := prRecords, recNxt := 0, recCnt := prCount }, 0)
          else ({ pzd with records := [] }, -ENOMEM)
        else
          ({ recBuff := some rep, records := prRecords ++ pzd.records.drop prCount,
             recNxt := 0, recCnt := prCount }, 0)

def pxDequeueRecords (recSize : Nat) (pzd : PxZmqData) (io : PxIo) : Call (PxZmqData × Int) :=
  match io.send with
  | some e => .ret (pzd, -(e.val : Int))
  | none =>
    if io.alloc then .ask .dequeue (cacheReply recSize pzd io)
    else .leave .dequeue (pzd, -ENOMEM)

/-- What `px_changelog_recv` gives: a record, a return code, or whatever lies
behind the entries of its cache. -/
inductive RecvResult
  | record (rec : ChangelogRec)
  | code (rc : Int)
  | overrun
  deriving DecidableEq, Repr

def nextRecord (pzd : PxZmqData) : PxZmqData × RecvResult :=
  ({ pzd with recNxt := pzd.recNxt + 1 },
    match pzd.records[pzd.recNxt]? with
    | some rec => .record rec
    | none => .overrun)

def pxChangelogRecv (recSize : Nat) (pzd : PxZmqData) (io : PxIo) :
    Call (PxZmqData × RecvResult) :=
  if pzd.recNxt = pzd.recCnt then
    (pxDequeueRecords recSize pzd io).map fun (pzd, rc) =>
      if rc ≠ 0 then (pzd, .code rc) else nextRecord pzd
  else .ret (nextRecord pzd)

/-- The call always returns zero. -/
def pxChangelogFree (pzd : PxZmqData) : PxZmqData :=
  if pzd.recNxt = pzd.recCnt then { pzd with recBuff := none } else pzd

def pxChangelogClear (pzd : PxZmqData) (mdtname id : List UInt8) (endrec : Int) (io : PxIo) :
    Call Int :=
  if pzd.recNxt < pzd.recCnt then .ret 0
  else if !io.alloc then .ret (-ENOMEM)
  else match io.send with
    | some e => .ret (-(e.val : Int))
    | none => .ask (.clear mdtname id endrec) (clAckRetcode io)

end Lcap.Client
