import Lcap.Net.Peer
import Lcap.Systems.Fields
import Lcap.Wire.Decode

namespace Lcap.Start
open Client (clStartPack)
open Systems

/-- What one start allocates and opens, one of each kind. -/
inductive Handle
  | ctx | pzd | zmqCtx | zmqSrv | records
  deriving DecidableEq, Repr

inductive HandleEvent
  | acquired (h : Handle)
  | released (h : Handle)
  deriving DecidableEq, Repr

/-- Releasing a null pointer does nothing. -/
def release (log : List HandleEvent) : Option Handle → List HandleEvent
  | none => log
  | some h => log ++ [.released h]

/-- A name field that has been zeroed. -/
def emptyName : List UInt8 := List.replicate 128 0

/-- `struct px_zmq_data`, zeroed. -/
structure PxZmqData where
  zmqCtx : Option Handle := none
  zmqSrv : Option Handle := none
  recBuff : Option Handle := none
  records : Option Handle := none
  recNxt : Int := 0
  recCnt : Int := 0
  recMdtLen : Int := 0
  recMdt : List UInt8 := emptyName
  deriving DecidableEq, Repr

/-- The outcomes of what a start calls; `reply` is the first frame of the answer. -/
structure StartIo where
  ctxAlloc : Bool := true
  pzdAlloc : Bool := true
  zmqCtxNew : Option Errno := none
  zmqSocket : Option Errno := none
  grow : Bool := true
  connect : Option Errno := none
  send : Nat → Option Errno := fun _ => none
  recv : Option Errno := none
  reply : List UInt8

/-- The name is written beyond the end of the structure. -/
inductive Overrun
  | recMdt
  deriving DecidableEq, Repr

/-- `rec_mdt` is the last field. The alignment of the structure leaves four bytes behind it. -/
def recMdtRoom : Nat := 128 + 4

def pzdDestroy (pzd : PxZmqData) (log : List HandleEvent) : PxZmqData × List HandleEvent :=
  ({}, release (release (release (release log pzd.zmqSrv) pzd.zmqCtx) pzd.recBuff) pzd.records)

/-- A `realloc` that fails releases nothing. -/
def pzdCacheGrow (pzd : PxZmqData) (log : List HandleEvent) (alloc : Bool) :
    PxZmqData × List HandleEvent × Int :=
  if alloc then
    ({ pzd with records := some .records }, release log pzd.records ++ [.acquired .records], 0)
  else ({ pzd with records := none }, log, -ENOMEM)

/-- `rec_mdt_len` is an `int`. -/
def recMdtLen (mdtname : List UInt8) : Int := Int.bmod mdtname.length (2 ^ 32)

/-- It is compared as a `size_t`. -/
def mdtnameTooLong (mdtname : List UInt8) : Bool := decide (recMdtLen mdtname % 2 ^ 64 > 128)

/-- `strcpy` into `rec_mdt`. -/
def recMdtCopy (mdtname : List UInt8) : FieldCopy UInt8 :=
  copyInto emptyName (mdtname ++ [0])

/-- The label `err_cleanup`. -/
def errCleanup (pzd : PxZmqData) (log : List HandleEvent) (rc : Int) :
    PxZmqData × List HandleEvent × Int :=
  if rc ≠ 0 then ((pzdDestroy pzd log).1, (pzdDestroy pzd log).2, rc) else (pzd, log, rc)

def pzdInit (io : StartIo) (mdtname : List UInt8) (pzd : PxZmqData) (log : List HandleEvent) :
    Except Overrun (PxZmqData × List HandleEvent × Int) :=
  match io.zmqCtxNew with
  | some e => .ok (errCleanup { pzd with zmqCtx := none } log (-(e.val : Int)))
  | none =>
    let pzd := { pzd with zmqCtx := some .zmqCtx }
    let log := log ++ [.acquired .zmqCtx]
    match io.zmqSocket with
    | some e => .ok (errCleanup { pzd with zmqSrv := none } log (-(e.val : Int)))
    | none =>
      let log := log ++ [.acquired .zmqSrv]
      let pzd := { pzd with
        zmqSrv := some .zmqSrv, recCnt := 0, recNxt := 0, recBuff := none, records := none,
        recMdtLen := recMdtLen mdtname }
      if mdtnameTooLong mdtname then .ok (errCleanup pzd log (-EINVAL))
      else if (recMdtCopy mdtname).written.length > recMdtRoom then .error .recMdt
      else match pzdCacheGrow { pzd with recMdt := (recMdtCopy mdtname).field } log io.grow with
        | (pzd, log, rc) => .ok (errCleanup pzd log rc)

/-- `ccc_ptr` and the return code. -/
structure Opened where
  cccPtr : Option Handle
  log : List HandleEvent
  rc : Int
  deriving DecidableEq, Repr

/-- The label `out`. -/
def giveUp (pzd : Option Handle) (log : List HandleEvent) (rc : Int) : Opened :=
  ⟨none, release log pzd, rc⟩

/-- The label `out_initialized`. -/
def giveUpInitialized (pzd : PxZmqData) (log : List HandleEvent) (rc : Int) : Opened :=
  giveUp (some .pzd) (pzdDestroy pzd log).2 rc

def pxChangelogStart (io : StartIo) (flags : Nat) (mdtname : List UInt8) (startrec : Int)
    (log : List HandleEvent) : Except Overrun Opened :=
  if !io.pzdAlloc then .ok (giveUp none log (-ENOMEM))
  else match pzdInit io mdtname {} (log ++ [.acquired .pzd]) with
    | .error fault => .error fault
    | .ok (pzd, log, rc) =>
      if rc ≠ 0 then .ok (giveUp (some .pzd) log rc)
      else match io.connect with
        | some e => .ok (giveUpInitialized pzd log (-(e.val : Int)))
        | none =>
          match Net.pxRpcSend {} (pzd.recMdt.take pzd.recMdtLen.toNat)
              (clStartPack flags mdtname startrec) io.send with
          | (_, rc) =>
            if rc < 0 then .ok (giveUpInitialized pzd log rc)
            else match io.recv with
              | some e => .ok (giveUpInitialized pzd log (-(e.val : Int)))
              | none =>
                if io.reply.length < sizeofAck then .ok (giveUpInitialized pzd log (-EINVAL))
                else .ok ⟨some .pzd, log, Wire.prRetcode io.reply⟩

/-- `*pctx`: null, what the caller had there, or the new context. -/
inductive CtxPtr
  | null | callers | opened
  deriving DecidableEq, Repr

structure Started where
  pctx : CtxPtr
  log : List HandleEvent
  rc : Int
  deriving DecidableEq, Repr

/-- `lcap_changelog_start` on the proxy channel. -/
def lcapChangelogStart (io : StartIo) (pctx : CtxPtr) (flags : Nat) (mdtname : List UInt8)
    (startrec : Int) : Except Overrun Started :=
  if !io.ctxAlloc then .ok ⟨pctx, [], -ENOMEM⟩
  else match pxChangelogStart io flags mdtname startrec [.acquired .ctx] with
    | .error fault => .error fault
    | .ok ⟨_, log, rc⟩ =>
      if rc < 0 then .ok ⟨.null, release log (some .ctx), rc⟩ else .ok ⟨.opened, log, rc⟩

end Lcap.Start
