import Lcap.Reader.Buckets

namespace Lcap.Reader

/-- `rc` of a send: zero, or the negated errno. -/
def sendRc : Option Errno → Int
  | none => 0
  | some e => -(e.val : Int)

/-- `peer_rpc_send` on the reader's socket; `out` is the outcome of its frames. -/
def peerRpcSend (s : ReaderEnv) (dst : ConnId) (bkt : Option Nat) (msg : Reply)
    (out : Option Errno) : ReaderEnv × Int :=
  (s.log (.sent dst bkt msg (sendRc out)), sendRc out)

def ackRetcode (s : ReaderEnv) (dst : ConnId) (ret : Int) (out : Option Errno) :
    ReaderEnv × Int :=
  peerRpcSend s dst none (.ack ret) out

/-- Identities are compared by length, then by bytes. -/
def sameIdent (cid : ConnId) (cs : ClientState) : Bool :=
  cs.csIdent.length == cid.length && cs.csIdent == cid

def clientStateGet (s : ReaderEnv) (cid : ConnId) : Option ClientState :=
  s.rePeers.find? (sameIdent cid)

/-- Writes `cs_bucket` of the entry that `client_state_get` finds. -/
def setCsBucket (cid : ConnId) (bkt : Option Nat) : List ClientState → List ClientState
  | [] => []
  | cs :: rest =>
    if sameIdent cid cs then { cs with csBucket := bkt } :: rest
    else cs :: setCsBucket cid bkt rest

def registerClient (s : ReaderEnv) (req : LcapnetRequest) : ReaderEnv :=
  { s with
    rePeers := s.rePeers ++ [{ csStart := req.prStart, csIdent := req.lrForward }] }

def readerHandleStart (s : ReaderEnv) (req : LcapnetRequest) (io : RpcIo) : ReaderEnv × Int :=
  if req.lrBody.length < sizeofRegister then (s, -EINVAL)
  else if (clientStateGet s req.lrForward).isSome then (s, -EALREADY)
  else if !io.csAlloc then (s, -ENOMEM)
  else if !io.identAlloc then (s, -ENOMEM)
  else
    ackRetcode (registerClient s req) req.lrForward 0 io.send

def packEnqueue (b : LcapRecBucket) : Reply :=
  .enqueue (sizeofEnqueue + b.lrbSize) b.lrbRecords.length b.lrbRecords

/-- Packs the client's bucket, through the pointers to its records. -/
def enqueueRec (s : ReaderEnv) (cid : ConnId) (bkt : Nat) (io : RpcIo) :
    Except Halt (ReaderEnv × Int) := do
  if !io.rpcAlloc then return (s, -ENOMEM)
  let b := s.mem bkt
  if 0 < b.freed then throw .nullDeref
  return peerRpcSend (bucketSetExpiryTime s bkt io.sendNow) cid (some b.lrbIndex) (packEnqueue b)
    io.send

/-- From here on the bucket belongs to the client. -/
def assignBucket (s : ReaderEnv) (cid : ConnId) (bkt : Nat) : ReaderEnv :=
  { s with
    rePeers := setCsBucket cid (some bkt) s.rePeers
    trace := s.trace ++ [.assigned cid (s.mem bkt).lrbIndex] }

def readerHandleDequeue (s : ReaderEnv) (req : LcapnetRequest) (io : RpcIo) :
    Except Halt (ReaderEnv × Int) := do
  if req.lrBody.length < sizeofDequeue then return (s, -EPROTO)
  let some cs := clientStateGet s req.lrForward | return (s, -EPROTO)
  if cs.csBucket.isSome then return (s, -EPROTO)
  let (s, bkt) ← recBucketGet s io
  let some bkt := bkt | return (s, 1)
  let (s, rc) :=
    if some bkt = s.reCurrentOpen then recBucketAdd s io.bktAlloc io.bktBlock else (s, 0)
  if rc ≠ 0 then return (s, rc)
  enqueueRec (assignBucket s req.lrForward bkt) req.lrForward bkt io

/-- The client gives its bucket up, which makes the bucket ready. -/
def acknowledgeBucket (s : ReaderEnv) (cid : ConnId) (bkt : Nat) : ReaderEnv :=
  { s with
    rePeers := setCsBucket cid none s.rePeers
    mem := Function.update s.mem bkt { s.mem bkt with lrbReady := true }
    trace := s.trace ++ [.acknowledged cid (s.mem bkt).lrbIndex] }

/-- The loop of `reader_handle_clear`, at its `k`-th upstream call. It ends with
a return code when the upstream call fails. The step to the next node reads the
link of the node just released, as `list_remove` has left it. -/
def clearLoop (io : RpcIo) (g : Garbage) :
    Nat → Nat → ReaderEnv → Option Nat → Except Halt (ReaderEnv × Option Int)
  | 0, _, s, _ => .ok (s, none)
  | _ + 1, _, s, none => .ok (s, none)
  | fuel + 1, k, s, some bkt => do
    if !lrbReady s g bkt then return (s, none)
    let s := { s with reCleanupNext := some bkt }
    let endrec ← recBucketMaxIndex s bkt
    let rc := io.clearRc k
    let s := s.log (.cleared (readerDevice s) s.reCfg.ccfClreader endrec rc)
    if rc < 0 then return (s, some rc)
    if bkt ∉ s.reBuckets then throw .doubleFree
    let s := recBucketDestroy s bkt
    clearLoop io g fuel (k + 1) s (bucketNext s (some bkt))

def readerHandleClear (s : ReaderEnv) (req : LcapnetRequest) (io : RpcIo) :
    Except Halt (ReaderEnv × Int) := do
  if req.lrBody.length < sizeofClear then return (s, -EPROTO)
  let some cs := clientStateGet s req.lrForward | return (s, -EPROTO)
  let some bkt := cs.csBucket | return (s, 0)
  let s := acknowledgeBucket s req.lrForward bkt
  let some head := s.reCleanupNext | throw .nullDeref
  let g := io.garbage.afterAck s bkt
  let (s, rc) ← clearLoop io g (s.reBuckets.length + 1) 0 s (some head)
  if let some rc := rc then return (s, rc)
  return ackRetcode s req.lrForward 0 io.send

def deregisterClient (s : ReaderEnv) (cid : ConnId) : ReaderEnv :=
  { s with rePeers := s.rePeers.eraseP (sameIdent cid) }

def readerHandleFini (s : ReaderEnv) (req : LcapnetRequest) (io : RpcIo) : ReaderEnv × Int :=
  if req.lrBody.length < sizeofFini then (s, -EPROTO)
  else if (clientStateGet s req.lrForward).isNone then (s, -EPROTO)
  else
    ackRetcode (deregisterClient s req.lrForward) req.lrForward 0 io.send

/-- The table of handlers, which has none for the opcodes a client does not send. -/
def rpcHandleOne (s : ReaderEnv) (op : RpcOpType) (req : LcapnetRequest) (io : RpcIo) :
    Except Halt (ReaderEnv × Int) :=
  match op with
  | .start => .ok (readerHandleStart s req io)
  | .dequeue => readerHandleDequeue s req io
  | .clear => readerHandleClear s req io
  | .fini => .ok (readerHandleFini s req io)
  | .enqueue | .ack | .signal => .ok (s, -EPROTO)

/-- What the dispatcher makes of the request, before it replies. -/
def rpcDispatch (s : ReaderEnv) (req : LcapnetRequest) (io : RpcIo) :
    Except Halt (ReaderEnv × Int) :=
  if req.lrBody.length < sizeofHdr then .ok (s, -EPROTO)
  else match rpcOpType req.opType with
    | none => .ok (s, -EINVAL)
    | some op => rpcHandleOne s op req io

def changelogReaderRpcHdl (s : ReaderEnv) (req : LcapnetRequest) (io : RpcIo) :
    Except Halt (ReaderEnv × Int) := do
  let (s, rc) ← rpcDispatch s req io
  if rc < 0 ∨ rc = 1 then return ackRetcode s req.lrForward rc io.ackSend
  return (s, rc)

end Lcap.Reader
