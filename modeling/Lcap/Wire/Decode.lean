import Lcap.Client.Proxy
import Lcap.Net.Recv
import Lcap.Wire.Records

namespace Lcap.Wire
open Client Systems

/-- A pointer into a receive buffer. -/
structure Ptr where
  buf : Nat := 0
  off : Nat := 0
  deriving DecidableEq, Repr

/-- The part of `px_zmq_data` that caches records, and the receive buffers that are
allocated. `records` is the allocated array; a buffer's bytes go on behind its end. -/
structure PxCache where
  recBuff : Option Nat := none
  records : Option (List Ptr) := none
  recNxt : Nat := 0
  recCnt : Nat := 0
  heap : Nat → Option (Nat → UInt8) := fun _ => none
  nextBuf : Nat := 0

/-- The process does not survive the access. -/
inductive Crash
  | nullDeref | overrun
  deriving DecidableEq, Repr

/-- The outcomes of receiving one frame of a reply: those of `zmq_recv` and of
`zmq_getsockopt`. -/
structure RepIo where
  recv : Option Errno := none
  getsockopt : Option Errno := none
  deriving DecidableEq, Repr

/-- The outcomes of one call of `px_changelog_recv`; `garbage` is what the memory of
the new buffer and behind it contains. -/
structure DequeueIo where
  send : Option Errno := none
  alloc : Bool := true
  frame : Nat → RepIo := fun _ => {}
  grow : Bool := true
  garbage : Nat → UInt8 := fun _ => 0

/-- The loop over the frames of a reply: the bytes in the buffer, the result and the
frames that have not been received. A frame that is too long is cut by `zmq_recv`. -/
def clRepRecv (bufflen : Nat) (io : Nat → RepIo) : Nat → List UInt8 → Parts UInt8 →
    List UInt8 × Int × Parts UInt8
  | _, buff, [] => (buff, buff.length, [])
  | k, buff, frame :: rest =>
    match (io k).recv with
    | some e => (buff, -(e.val : Int), frame :: rest)
    | none =>
      if frame.length > bufflen - buff.length then
        (buff ++ frame.take (bufflen - buff.length), -EOVERFLOW, rest)
      else match (io k).getsockopt with
        | some e => (buff ++ frame, -(e.val : Int), rest)
        | none => clRepRecv bufflen io (k + 1) (buff ++ frame) rest

/-- The largest `int`. -/
def intMax : Nat := 2 ^ 31 - 1

/-- The loop has no defined result: a write outside the buffer, or a size or a sum of sizes
beyond an `int`. -/
inductive RepFault
  | overrun | intOverflow
  deriving DecidableEq, Repr

/-- `bufflen - rcvd`, which is a `size_t`. -/
def capacity (bufflen rcvd : Nat) : Nat := (bufflen + 2 ^ 64 - rcvd) % 2 ^ 64

/-- One turn of the loop on a buffer of `bufflen` bytes where nothing fails: the bytes
received so far, unless the frame is cut. -/
def repRecvFrame (bufflen : Nat) (buff : List UInt8) (rcvd : Nat) (frame : List UInt8) :
    Except RepFault (List UInt8 × Option Nat) :=
  if frame.length > intMax then .error .intOverflow
  else match memcpyAt buff rcvd (frame.take (capacity bufflen rcvd)) with
    | none => .error .overrun
    | some buff =>
      if frame.length > capacity bufflen rcvd then .ok (buff, none)
      else if rcvd + frame.length > intMax then .error .intOverflow
      else .ok (buff, some (rcvd + frame.length))

/-- `cl_rep_recv` where nothing fails, with the arithmetic of `int` and `size_t`. -/
def clRepRecvInt (bufflen : Nat) : List UInt8 → Nat → Parts UInt8 →
    Except RepFault (List UInt8 × Int × Parts UInt8)
  | buff, rcvd, [] => .ok (buff, rcvd, [])
  | buff, rcvd, frame :: rest =>
    match repRecvFrame bufflen buff rcvd frame with
    | .error fault => .error fault
    | .ok (buff, none) => .ok (buff, -EOVERFLOW, rest)
    | .ok (buff, some rcvd) => clRepRecvInt bufflen buff rcvd rest

def PxCache.malloc (z : PxCache) (m : Nat → UInt8) : PxCache :=
  { z with heap := Function.update z.heap z.nextBuf (some m), nextBuf := z.nextBuf + 1 }

def PxCache.free (z : PxCache) (buf : Nat) : PxCache :=
  { z with heap := Function.update z.heap buf none }

/-- `realloc` keeps what fits; the other entries are not initialized. -/
def resize (records : Option (List Ptr)) (newsize : Nat) : List Ptr :=
  let old := (records.getD []).take newsize
  old ++ List.replicate (newsize - old.length) ({} : Ptr)

/-- `pr_retcode` as the signed number that it is. -/
def prRetcode (buff : List UInt8) : Int := Int.bmod (leField buff 8 4) (2 ^ 32)

def prCount (buff : List UInt8) : Nat := leField buff 8 4

/-- The loop that fills the array. Its counter is an `int`, so that it stays
within the C standard for fewer than 2^31 records. -/
def cacheRecords (L : RecLayout) (z : PxCache) (buf : Nat) (m : Nat → UInt8) (count : Nat)
    (records : Option (List Ptr)) : Except Crash (PxCache × Int) :=
  match records with
  | none =>
    if count = 0 then
      .ok ({ z with recNxt := 0, recCnt := 0, recBuff := some buf, records := none }, 0)
    else .error .nullDeref
  | some old =>
    if count > old.length then .error .overrun
    else
      let found := (walk (L.stepAt m) count sizeofEnqueue).map fun off => Ptr.mk buf off
      .ok ({ z with
        recNxt := 0, recCnt := count, recBuff := some buf,
          records := some (found ++ old.drop count) }, 0)

/-- What `px_dequeue_records` makes of the reply once it has a buffer for it. -/
def handleReply (L : RecLayout) (io : DequeueIo) (z : PxCache) (reply : Parts UInt8) :
    Except Crash (PxCache × Int) :=
  let buf := z.nextBuf
  match clRepRecv recvBufferLength io.frame 0 [] reply with
  | (buff, rcvd, _) =>
    let m := laid buff io.garbage
    let z := z.malloc m
    if rcvd < 0 then .ok (z.free buf, rcvd)
    else if rcvd < sizeofHdr then .ok (z.free buf, -EINVAL)
    else match rpcOpType (leField buff 0 4) with
      | some .ack =>
        if rcvd < sizeofAck then .ok (z.free buf, -EINVAL)
        else if prRetcode buff ≠ 0 then .ok (z.free buf, prRetcode buff)
        else .ok (z, 0)
      | some .enqueue =>
        if rcvd < sizeofEnqueue + L.sizeofRec then .ok (z.free buf, -EINVAL)
        else if prCount buff > z.recCnt then
          if io.grow then cacheRecords L z buf m (prCount buff)
            (some (resize z.records (prCount buff)))
          else .ok ({ z.free buf with records := none }, -ENOMEM)
        else cacheRecords L z buf m (prCount buff) z.records
      | _ => .ok (z.free buf, -EPROTO)

/-- A call that may send a request: it returns without one, returns with one on its
way, or goes on with the reply. -/
inductive Dequeue (α : Type)
  | ret (a : α)
  | leave (a : α)
  | ask (resume : Parts UInt8 → α)

def Dequeue.map (f : α → β) : Dequeue α → Dequeue β
  | .ret a => .ret (f a)
  | .leave a => .leave (f a)
  | .ask resume => .ask fun reply => f (resume reply)

def pxDequeueRecords (L : RecLayout) (io : DequeueIo) (z : PxCache) :
    Dequeue (Except Crash (PxCache × Int)) :=
  match io.send with
  | some e => .ret (.ok (z, -(e.val : Int)))
  | none => if io.alloc then .ask (handleReply L io z) else .leave (.ok (z, -ENOMEM))

/-- What `px_changelog_recv` returns: zero with a record, or another code. -/
inductive Received
  | record (rec : Ptr)
  | code (rc : Int)
  deriving DecidableEq, Repr

def takeNext (z : PxCache) : Except Crash (PxCache × Received) :=
  match z.records with
  | none => .error .nullDeref
  | some records =>
    match records[z.recNxt]? with
    | none => .error .overrun
    | some rec => .ok ({ z with recNxt := z.recNxt + 1 }, .record rec)

def pxChangelogRecv (L : RecLayout) (io : DequeueIo) (z : PxCache) :
    Dequeue (Except Crash (PxCache × Received)) :=
  if z.recNxt = z.recCnt then
    (pxDequeueRecords L io z).map fun
      | .error c => .error c
      | .ok (z, rc) => if rc ≠ 0 then .ok (z, .code rc) else takeNext z
  else .ret (takeNext z)

/-- The call always returns zero. -/
def pxChangelogFree (z : PxCache) : PxCache :=
  if z.recNxt = z.recCnt then
    match z.recBuff with
    | none => z
    | some buf => { z.free buf with recBuff := none }
  else z

/-- `DEFAULT_CACHE_SIZE`. -/
def defaultCacheSize : Nat := 256

/-- The cache as `pzd_init` leaves it. -/
def pzdInit : PxCache := { records := some (resize none defaultCacheSize) }

/-- The bytes of the record a pointer leads to. -/
def recordBytes (L : RecLayout) (z : PxCache) (rec : Ptr) : Option (List UInt8) :=
  (z.heap rec.buf).map fun m => slice m rec.off (L.stepAt m rec.off)

end Lcap.Wire
