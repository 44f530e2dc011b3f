import Lcap.Queue
import Lcap.Reader.Loop

namespace Lcap.Linked
open Reader Queue Systems

/-- `struct reader_env` with its two lists as `queue.h` links them, followed by the blocks
its pointers lead to. A block is named by the number of the `calloc` that first returned
it, and a node of a list by the block that it is in. -/
structure LinkedEnv where
  reCfg : LcapCfg
  reIndex : Nat
  reClpriv : Bool
  reSrec : Nat
  reBktIdx : Nat
  reRecCnt : Int
  reCurrentOpen : Option Nat
  reDeliverNext : Option Nat
  reCleanupNext : Option Nat
  reBuckets : ListState Nat
  rePeers : ListState Nat
  bkts : Nat → LcapRecBucket
  bktLive : Nat → Bool
  states : Nat → ClientState
  stateLive : Nat → Bool
  stateCnt : Nat
  terminateSig : Bool
  stopped : Bool
  trace : List Event

namespace LinkedEnv

def log (x : LinkedEnv) (e : Event) : LinkedEnv := { x with trace := x.trace ++ [e] }

/-- Writes one bucket through its address. -/
def modify (x : LinkedEnv) (p : Nat) (f : LcapRecBucket → LcapRecBucket) : LinkedEnv :=
  { x with bkts := Function.update x.bkts p (f (x.bkts p)) }

/-- Writes `cs_bucket` through the address of a client state. -/
def setBucket (x : LinkedEnv) (cs : Nat) (bkt : Option Nat) : LinkedEnv :=
  { x with states := Function.update x.states cs { x.states cs with csBucket := bkt } }

end LinkedEnv

def readerDevice (x : LinkedEnv) : String := x.reCfg.ccfMdt.getD x.reIndex ""

def changelogReaderFull (x : LinkedEnv) : Bool :=
  decide (x.reRecCnt ≥ Int.bmod (x.reCfg.ccfRecBatchCount * x.reCfg.ccfMaxBkt) (2 ^ 32))

/-! ## Buckets -/

/-- The block that `calloc` returns for the next bucket: a released one, or a new one. -/
def callocBlock (x : LinkedEnv) : Option Nat → Nat
  | none => x.reBktIdx
  | some block => if block < x.reBktIdx ∧ x.bktLive block = false then block else x.reBktIdx

/-- A new bucket in the given block, which `calloc` has cleared. -/
def openBucket (x : LinkedEnv) (bkt : Nat) : LinkedEnv :=
  { x with
    bkts := Function.update x.bkts bkt { lrbIndex := x.reBktIdx }
    bktLive := Function.update x.bktLive bkt true
    reBktIdx := x.reBktIdx + 1
    reBuckets := listAppend x.reBuckets bkt
    reCurrentOpen := some bkt
    trace := x.trace ++ [.opened x.reBktIdx] }

def recBucketAdd (x : LinkedEnv) (alloc : Bool) (block : Option Nat) : LinkedEnv × Int :=
  if alloc then (openBucket x (callocBlock x block), 0) else (x, -ENOMEM)

def bucketNext (x : LinkedEnv) : Option Nat → Option Nat
  | none => none
  | some bkt => x.reBuckets.lnNext bkt

/-- Reading through a pointer to a released block finds the allocator's bytes. -/
def lrbExpiry (x : LinkedEnv) (g : Garbage) (bkt : Nat) : Nat :=
  if x.bktLive bkt then (x.bkts bkt).lrbExpiry else g.lrbExpiry

def lrbReady (x : LinkedEnv) (g : Garbage) (bkt : Nat) : Bool :=
  if x.bktLive bkt then (x.bkts bkt).lrbReady else g.lrbReady

/-- The bytes found there once `lrb_ready` has been set through a pointer to it. -/
def afterAck (g : Garbage) (x : LinkedEnv) (bkt : Nat) : Garbage :=
  if x.reCleanupNext = some bkt then { g with lrbReady := true } else g

/-- The loop of `rec_bucket_get` from node to node. Out of fuel it does not come back. -/
def markNonReady : Nat → LinkedEnv → Option Nat → Except Halt LinkedEnv
  | _, x, none => .ok x
  | 0, _, some _ => .error .waiting
  | fuel + 1, x, some tmp =>
    if some tmp = x.reDeliverNext then .ok x
    else markNonReady fuel (x.modify tmp fun b => { b with lrbReady := false })
      (bucketNext x (some tmp))

def headExpired (x : LinkedEnv) (io : RpcIo) (bkt : Nat) : Bool :=
  decide (io.now > lrbExpiry x io.garbage bkt)

/-- Every bucket ever allocated is visited once at most. -/
def recBucketGet (x : LinkedEnv) (io : RpcIo) : Except Halt (LinkedEnv × Option Nat) :=
  match x.reCleanupNext with
  | none => .error .assertion
  | some bkt =>
    if headExpired x io bkt then do
      let x ← markNonReady (x.reBktIdx + 1) x (some bkt)
      return ({ x with reDeliverNext := bucketNext x (some bkt) }, some bkt)
    else match x.reDeliverNext with
      | none => .ok (x, none)
      | some bkt => .ok ({ x with reDeliverNext := bucketNext x (some bkt) }, some bkt)

def recBucketMaxIndex (x : LinkedEnv) (bkt : Nat) : Except Halt Int :=
  match (x.bkts bkt).lrbRecords.getLast? with
  | none => .ok (-1)
  | some rec =>
    if (x.bkts bkt).freed < (x.bkts bkt).lrbRecords.length then .ok rec.crIndex
    else .error .nullDeref

/-- `list_remove` and `rec_bucket_destroy`, which frees the records and releases the
block. -/
def recBucketDestroy (x : LinkedEnv) (bkt : Nat) : LinkedEnv :=
  { x with
    reBuckets := listRemove x.reBuckets bkt
    bkts := Function.update x.bkts bkt (freeRecords (x.bkts bkt))
    bktLive := Function.update x.bktLive bkt false
    reRecCnt := x.reRecCnt - (x.bkts bkt).lrbRecords.length
    trace := x.trace ++ [.destroyed (x.bkts bkt).lrbIndex] }

def lrbRecCount (x : LinkedEnv) (bkt : Nat) : Int := (x.bkts bkt).lrbRecords.length

def needsBucket (x : LinkedEnv) : Bool :=
  match x.reCurrentOpen with
  | none => true
  | some current => decide (lrbRecCount x current = x.reCfg.ccfRecBatchCount)

def recInsert (x : LinkedEnv) (current : Nat) (rec : ChangelogRec) : LinkedEnv :=
  (x.modify current (recAppend rec)).log (.stored (x.bkts current).lrbIndex rec)

/-- What `changelog_reader_rec_store` does with the bucket that is open. -/
def storeInOpen (x : LinkedEnv) (rec : ChangelogRec) : Except Halt (LinkedEnv × Int) :=
  match x.reCurrentOpen with
  | none => .error .assertion
  | some current =>
    if lrbRecCount x current < x.reCfg.ccfRecBatchCount then .ok (recInsert x current rec, 0)
    else .error .assertion

def changelogReaderRecStore (x : LinkedEnv) (rec : ChangelogRec) (alloc : Bool)
    (block : Option Nat) : Except Halt (LinkedEnv × Int) :=
  if needsBucket x then
    if alloc then storeInOpen (recBucketAdd x true block).1 rec else .ok (x, -ENOMEM)
  else storeInOpen x rec

def bucketSetExpiryTime (x : LinkedEnv) (bkt : Nat) (now : Nat) : LinkedEnv :=
  x.modify bkt fun b => { b with lrbExpiry := now + ackTimeoutSec }

/-! ## Requests -/

def peerRpcSend (x : LinkedEnv) (dst : ConnId) (bkt : Option Nat) (msg : Reply)
    (out : Option Errno) :
    LinkedEnv × Int :=
  (x.log (.sent dst bkt msg (sendRc out)), sendRc out)

def ackRetcode (x : LinkedEnv) (dst : ConnId) (ret : Int) (out : Option Errno) : LinkedEnv × Int :=
  peerRpcSend x dst none (.ack ret) out

/-- The loop of `client_state_get`, from node to node. -/
def clientStateFrom (x : LinkedEnv) (cid : ConnId) : Nat → Option Nat → Except Halt (Option Nat)
  | _, none => .ok none
  | 0, some _ => .error .waiting
  | fuel + 1, some cs =>
    if sameIdent cid (x.states cs) then .ok (some cs)
    else clientStateFrom x cid fuel (x.rePeers.lnNext cs)

/-- The address of the state of a client. -/
def clientStateGet (x : LinkedEnv) (cid : ConnId) : Except Halt (Option Nat) :=
  clientStateFrom x cid x.stateCnt x.rePeers.lFirst

/-- A new client state at the end of the list. -/
def registerClient (x : LinkedEnv) (req : LcapnetRequest) : LinkedEnv :=
  { x with
    states := Function.update x.states x.stateCnt
      { csStart := req.prStart, csIdent := req.lrForward }
    stateLive := Function.update x.stateLive x.stateCnt true
    stateCnt := x.stateCnt + 1
    rePeers := listAppend x.rePeers x.stateCnt }

def readerHandleStart (x : LinkedEnv) (req : LcapnetRequest) (io : RpcIo) :
    Except Halt (LinkedEnv × Int) :=
  if req.lrBody.length < sizeofRegister then .ok (x, -EINVAL)
  else clientStateGet x req.lrForward >>= fun
    | some _ => .ok (x, -EALREADY)
    | none =>
      if !io.csAlloc then .ok (x, -ENOMEM)
      else if !io.identAlloc then .ok (x, -ENOMEM)
      else .ok (ackRetcode (registerClient x req) req.lrForward 0 io.send)

def enqueueRec (x : LinkedEnv) (cid : ConnId) (bkt : Nat) (io : RpcIo) :
    Except Halt (LinkedEnv × Int) :=
  if !io.rpcAlloc then .ok (x, -ENOMEM)
  else if 0 < (x.bkts bkt).freed then .error .nullDeref
  else
    .ok (peerRpcSend (bucketSetExpiryTime x bkt io.sendNow) cid (some (x.bkts bkt).lrbIndex)
      (packEnqueue (x.bkts bkt)) io.send)

/-- From here on the bucket belongs to the client. -/
def assignBucket (x : LinkedEnv) (cid : ConnId) (cs bkt : Nat) : LinkedEnv :=
  (x.setBucket cs (some bkt)).log (.assigned cid (x.bkts bkt).lrbIndex)

/-- The bucket that `rec_bucket_get` has returned is delivered. -/
def deliver (x : LinkedEnv) (cid : ConnId) (cs bkt : Nat) (io : RpcIo) :
    Except Halt (LinkedEnv × Int) :=
  if some bkt = x.reCurrentOpen then
    if io.bktAlloc then
      enqueueRec (assignBucket (recBucketAdd x true io.bktBlock).1 cid cs bkt) cid bkt io
    else .ok (x, -ENOMEM)
  else enqueueRec (assignBucket x cid cs bkt) cid bkt io

def readerHandleDequeue (x : LinkedEnv) (req : LcapnetRequest) (io : RpcIo) :
    Except Halt (LinkedEnv × Int) :=
  if req.lrBody.length < sizeofDequeue then .ok (x, -EPROTO)
  else clientStateGet x req.lrForward >>= fun
    | none => .ok (x, -EPROTO)
    | some cs =>
      if (x.states cs).csBucket.isSome then .ok (x, -EPROTO)
      else recBucketGet x io >>= fun
        | (x, none) => .ok (x, 1)
        | (x, some bkt) => deliver x req.lrForward cs bkt io

/-- The client gives its bucket up, which makes the bucket ready. -/
def acknowledgeBucket (x : LinkedEnv) (cid : ConnId) (cs bkt : Nat) : LinkedEnv :=
  ((x.setBucket cs none).modify bkt fun b => { b with lrbReady := true }).log
    (.acknowledged cid (x.bkts bkt).lrbIndex)

/-- The loop of `reader_handle_clear`, at its `k`-th upstream call. -/
def clearLoop (io : RpcIo) (g : Garbage) : Nat → Nat → LinkedEnv → Option Nat →
    Except Halt (LinkedEnv × Option Int)
  | _, _, x, none => .ok (x, none)
  | 0, _, _, some _ => .error .waiting
  | fuel + 1, k, x, some bkt =>
    if !lrbReady x g bkt then .ok (x, none)
    else
      let x := { x with reCleanupNext := some bkt }
      recBucketMaxIndex x bkt >>= fun endrec =>
        let x := x.log (.cleared (readerDevice x) x.reCfg.ccfClreader endrec (io.clearRc k))
        if io.clearRc k < 0 then .ok (x, some (io.clearRc k))
        else if x.bktLive bkt = false then .error .doubleFree
        else
          let x := recBucketDestroy x bkt
          clearLoop io g fuel (k + 1) x (bucketNext x (some bkt))

/-- The rest of `reader_handle_clear` for a client that holds a bucket. -/
def clearHeld (x : LinkedEnv) (req : LcapnetRequest) (io : RpcIo) (cs bkt : Nat) :
    Except Halt (LinkedEnv × Int) :=
  let y := acknowledgeBucket x req.lrForward cs bkt
  match y.reCleanupNext with
  | none => .error .nullDeref
  | some head => clearLoop io (afterAck io.garbage x bkt) (x.reBktIdx + 1) 0 y (some head) >>= fun
    | (y, some rc) => .ok (y, rc)
    | (y, none) => .ok (ackRetcode y req.lrForward 0 io.send)

def readerHandleClear (x : LinkedEnv) (req : LcapnetRequest) (io : RpcIo) :
    Except Halt (LinkedEnv × Int) :=
  if req.lrBody.length < sizeofClear then .ok (x, -EPROTO)
  else clientStateGet x req.lrForward >>= fun
    | none => .ok (x, -EPROTO)
    | some cs => match (x.states cs).csBucket with
      | none => .ok (x, 0)
      | some bkt => clearHeld x req io cs bkt

/-- `list_remove` and `client_state_release`. -/
def deregisterClient (x : LinkedEnv) (cs : Nat) : LinkedEnv :=
  { x with rePeers := listRemove x.rePeers cs, stateLive := Function.update x.stateLive cs false }

def readerHandleFini (x : LinkedEnv) (req : LcapnetRequest) (io : RpcIo) :
    Except Halt (LinkedEnv × Int) :=
  if req.lrBody.length < sizeofFini then .ok (x, -EPROTO)
  else clientStateGet x req.lrForward >>= fun
    | none => .ok (x, -EPROTO)
    | some cs => .ok (ackRetcode (deregisterClient x cs) req.lrForward 0 io.send)

def rpcHandleOne (x : LinkedEnv) (op : RpcOpType) (req : LcapnetRequest) (io : RpcIo) :
    Except Halt (LinkedEnv × Int) :=
  match op with
  | .start => readerHandleStart x req io
  | .dequeue => readerHandleDequeue x req io
  | .clear => readerHandleClear x req io
  | .fini => readerHandleFini x req io
  | .enqueue | .ack | .signal => .ok (x, -EPROTO)

def rpcDispatch (x : LinkedEnv) (req : LcapnetRequest) (io : RpcIo) :
    Except Halt (LinkedEnv × Int) :=
  if req.lrBody.length < sizeofHdr then .ok (x, -EPROTO)
  else match rpcOpType req.opType with
    | none => .ok (x, -EINVAL)
    | some op => rpcHandleOne x op req io

def changelogReaderRpcHdl (x : LinkedEnv) (req : LcapnetRequest) (io : RpcIo) :
    Except Halt (LinkedEnv × Int) :=
  rpcDispatch x req io >>= fun (x, rc) =>
    if rc < 0 ∨ rc = 1 then .ok (ackRetcode x req.lrForward rc io.ackSend) else .ok (x, rc)

/-! ## The loop -/

def recCounted (x : LinkedEnv) (rec : ChangelogRec) : LinkedEnv :=
  { x with reSrec := rec.crIndex + 1, reRecCnt := x.reRecCnt + 1 }

def recvLoop (x : LinkedEnv) (batchCount : Int) :
    List RecvEvent → Except Halt (LinkedEnv × Int × List RecvEvent)
  | [] => .error .waiting
  | .sigterm :: rest => recvLoop { x with terminateSig := true } batchCount rest
  | .fail rc :: rest => .ok (x, rc.val, rest)
  | .recv rec alloc block :: rest =>
    if x.terminateSig then .ok (x, 0, rest)
    else if rec.crIndex < x.reSrec then recvLoop x batchCount rest
    else changelogReaderRecStore x rec alloc block >>= fun (x, rc) =>
      if rc ≠ 0 then .ok (x, rc, rest)
      else
        let x := recCounted x rec
        if batchCount + 1 ≥ x.reCfg.ccfRecBatchCount ∨ changelogReaderFull x then .ok (x, 0, rest)
        else recvLoop x (batchCount + 1) rest

def changelogReaderEnqueue (x : LinkedEnv) (startRc : Int) (script : List RecvEvent) :
    Except Halt (LinkedEnv × Int × List RecvEvent) :=
  if changelogReaderFull x then .ok (x, 0, script)
  else if !x.reClpriv ∧ startRc ≠ 0 then .ok (x, startRc, script)
  else recvLoop { x with reClpriv := true } 0 script >>= fun (x, rc, rest) =>
    .ok ({ x with reClpriv := x.reClpriv && !closesStream rc }, rc, rest)

def linkedStep (x : LinkedEnv) : Label → Option LinkedEnv
  | .enqueue startRc script =>
    if x.stopped || x.terminateSig then none
    else match changelogReaderEnqueue x startRc script with
      | .ok (x, rc, []) => some { x with stopped := decide (rc < 0) }
      | _ => none
  | .request req io =>
    if x.stopped then none
    else match changelogReaderRpcHdl x req io with
      | .ok (x, _) => some x
      | .error _ => none
  | .sigterm => some { x with terminateSig := true }

/-- No block has been handed out: those of `calloc` come without links. -/
def unlinked : ListState Nat := emptyList (fun _ => none) (fun _ => none)

/-- `changelog_reader_init`, whose `memset` leaves both lists empty. -/
def initialReader (cfg : LcapCfg) (idx : Nat) : LinkedEnv where
  reCfg := cfg
  reIndex := idx
  reClpriv := false
  reSrec := 0
  reBktIdx := 1
  reRecCnt := 0
  reCurrentOpen := some 0
  reDeliverNext := some 0
  reCleanupNext := some 0
  reBuckets := listAppend unlinked 0
  rePeers := unlinked
  bkts := fun p => { lrbIndex := p }
  bktLive := Function.update (fun _ => false) 0 true
  states := fun _ => { csStart := 0, csIdent := [] }
  stateLive := fun _ => false
  stateCnt := 0
  terminateSig := false
  stopped := false
  trace := [.opened 0]

/-- The reader with the lists that it has in memory. -/
def linkedReader (cfg : LcapCfg) (idx : Nat) : System LinkedEnv Label where
  init := initialReader cfg idx
  step := linkedStep

end Lcap.Linked
