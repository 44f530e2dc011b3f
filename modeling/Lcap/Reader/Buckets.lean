import Lcap.Reader.State

namespace Lcap.Reader

/-- `ACK_TIMEOUT_MSEC / 1000`. -/
def ackTimeoutSec : Nat := 10

def readerDevice (s : ReaderEnv) : String := s.reCfg.ccfMdt.getD s.reIndex ""

/-- The product is an `int`, kept here modulo 2^32 as the machine computes it. -/
def changelogReaderFull (s : ReaderEnv) : Bool :=
  decide (s.reRecCnt ≥ Int.bmod (s.reCfg.ccfRecBatchCount * s.reCfg.ccfMaxBkt) (2 ^ 32))

/-- The address that `calloc` returns for the next bucket: a block that is not in use, or
a new one, which goes by the number of the call. -/
def callocBlock (s : ReaderEnv) : Option Nat → Nat
  | none => s.reBktIdx
  | some block => if block < s.reBktIdx ∧ block ∉ s.reBuckets then block else s.reBktIdx

/-- A new empty bucket at the end of the list, open for insert. -/
def openBucket (s : ReaderEnv) (bkt : Nat) : ReaderEnv :=
  { s with
    mem := Function.update s.mem bkt { lrbIndex := s.reBktIdx }
    reBktIdx := s.reBktIdx + 1
    reBuckets := s.reBuckets ++ [bkt]
    reCurrentOpen := some bkt
    trace := s.trace ++ [.opened s.reBktIdx] }

/-- `alloc` is the outcome of `calloc`, and `block` the one that it may hand out again. -/
def recBucketAdd (s : ReaderEnv) (alloc : Bool) (block : Option Nat) : ReaderEnv × Int :=
  if alloc then (openBucket s (callocBlock s block), 0) else (s, -ENOMEM)

def bucketNext (s : ReaderEnv) : Option Nat → Option Nat
  | none => none
  | some bkt => lnNext s.reBuckets bkt

/-- Reading through a pointer to a released block finds the allocator's bytes. -/
def lrbExpiry (s : ReaderEnv) (g : Garbage) (bkt : Nat) : Nat :=
  if bkt ∈ s.reBuckets then (s.mem bkt).lrbExpiry else g.lrbExpiry

def lrbReady (s : ReaderEnv) (g : Garbage) (bkt : Nat) : Bool :=
  if bkt ∈ s.reBuckets then (s.mem bkt).lrbReady else g.lrbReady

/-- The bytes found there once `lrb_ready` has been set through a pointer to it. -/
def Garbage.afterAck (g : Garbage) (s : ReaderEnv) (bkt : Nat) : Garbage :=
  if s.reCleanupNext = some bkt then { g with lrbReady := true } else g

/-- The loop of `rec_bucket_get` that marks buckets non ready up to the cursor. -/
def markNonReady (stop : Option Nat) (s : ReaderEnv) : List Nat → ReaderEnv
  | [] => s
  | tmp :: rest =>
    if some tmp = stop then s
    else markNonReady stop (s.modify tmp (fun b => { b with lrbReady := false })) rest

/-- Has the first unacknowledged bucket expired? An undelivered one has expiry zero. -/
def headExpired (s : ReaderEnv) (io : RpcIo) (bkt : Nat) : Bool :=
  decide (io.now > lrbExpiry s io.garbage bkt)

def recBucketGet (s : ReaderEnv) (io : RpcIo) : Except Halt (ReaderEnv × Option Nat) := do
  let some bkt := s.reCleanupNext | throw .assertion
  if headExpired s io bkt then
    let s := markNonReady s.reDeliverNext s (nodesFrom s.reBuckets bkt)
    return ({ s with reDeliverNext := bucketNext s (some bkt) }, some bkt)
  let some bkt := s.reDeliverNext | return (s, none)
  return ({ s with reDeliverNext := bucketNext s (some bkt) }, some bkt)

def recBucketMaxIndex (s : ReaderEnv) (bkt : Nat) : Except Halt Int :=
  match (s.mem bkt).lrbRecords.getLast? with
  | none => .ok (-1)
  | some rec =>
    if (s.mem bkt).freed < (s.mem bkt).lrbRecords.length then .ok rec.crIndex
    else .error .nullDeref

/-- `llapi_changelog_free` leaves the pointers to the records null. -/
def freeRecords (b : LcapRecBucket) : LcapRecBucket := { b with freed := b.lrbRecords.length }

/-- Unlinks a bucket, gives its slots back and releases it. -/
def recBucketDestroy (s : ReaderEnv) (bkt : Nat) : ReaderEnv :=
  { s with
    reBuckets := s.reBuckets.erase bkt
    reRecCnt := s.reRecCnt - (s.mem bkt).lrbRecords.length
    mem := Function.update s.mem bkt (freeRecords (s.mem bkt))
    trace := s.trace ++ [.destroyed (s.mem bkt).lrbIndex] }

def lrbRecCount (s : ReaderEnv) (bkt : Nat) : Int := (s.mem bkt).lrbRecords.length

/-- Does the store have to open a bucket first? -/
def needsBucket (s : ReaderEnv) : Bool :=
  match s.reCurrentOpen with
  | none => true
  | some current => decide (lrbRecCount s current = s.reCfg.ccfRecBatchCount)

def recAppend (rec : ChangelogRec) (b : LcapRecBucket) : LcapRecBucket :=
  { b with
    lrbRecords := b.lrbRecords ++ [rec]
    lrbSize := b.lrbSize + (rec.changelogRecSize + rec.crNamelen) }

def recInsert (s : ReaderEnv) (current : Nat) (rec : ChangelogRec) : ReaderEnv :=
  (s.modify current (recAppend rec)).log (.stored (s.mem current).lrbIndex rec)

def changelogReaderRecStore (s : ReaderEnv) (rec : ChangelogRec) (alloc : Bool)
    (block : Option Nat) : Except Halt (ReaderEnv × Int) := do
  let (s, rc) := if needsBucket s then recBucketAdd s alloc block else (s, 0)
  if rc ≠ 0 then return (s, rc)
  let some current := s.reCurrentOpen | throw .assertion
  if ¬ lrbRecCount s current < s.reCfg.ccfRecBatchCount then throw .assertion
  return (recInsert s current rec, 0)

def bucketSetExpiryTime (s : ReaderEnv) (bkt : Nat) (now : Nat) : ReaderEnv :=
  s.modify bkt (fun b => { b with lrbExpiry := now + ackTimeoutSec })

end Lcap.Reader
