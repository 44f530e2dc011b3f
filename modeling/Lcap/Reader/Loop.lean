import Lcap.Reader.Handlers
import Lcap.Systems.Runs

namespace Lcap.Reader
open Systems

/-- A record has been stored: the cursor of the stream moves past it. -/
def recCounted (s : ReaderEnv) (rec : ChangelogRec) : ReaderEnv :=
  { s with reSrec := rec.crIndex + 1, reRecCnt := s.reRecCnt + 1 }

/-- The reading loop of `changelog_reader_enqueue`, with the results that
`llapi_changelog_recv` will give and the ones it leaves unread. -/
def recvLoop (s : ReaderEnv) (batchCount : Int) :
    List RecvEvent → Except Halt (ReaderEnv × Int × List RecvEvent)
  | [] => .error .waiting
  | .sigterm :: rest => recvLoop { s with terminateSig := true } batchCount rest
  | .fail rc :: rest => .ok (s, rc.val, rest)
  | .recv rec alloc block :: rest => do
    if s.terminateSig then return (s, 0, rest)
    if rec.crIndex < s.reSrec then recvLoop s batchCount rest
    else
      let (s, rc) ← changelogReaderRecStore s rec alloc block
      if rc ≠ 0 then return (s, rc, rest)
      let s := recCounted s rec
      if batchCount + 1 ≥ s.reCfg.ccfRecBatchCount ∨ changelogReaderFull s then
        return (s, 0, rest)
      recvLoop s (batchCount + 1) rest

/-- Results after which the stream has to be started again. -/
def closesStream (rc : Int) : Bool := decide (rc = 1 ∨ rc = -EAGAIN ∨ rc = -EPROTO)

/-- `startRc` is what `llapi_changelog_start` returns if it is called. -/
def changelogReaderEnqueue (s : ReaderEnv) (startRc : Int) (script : List RecvEvent) :
    Except Halt (ReaderEnv × Int × List RecvEvent) := do
  if changelogReaderFull s then return (s, 0, script)
  if !s.reClpriv ∧ startRc ≠ 0 then return (s, startRc, script)
  let (s, rc, rest) ← recvLoop { s with reClpriv := true } 0 script
  return ({ s with reClpriv := s.reClpriv && !closesStream rc }, rc, rest)

/-- A call of `changelog_reader_enqueue` with exactly the results it receives, a
request from the broker, or a termination signal between two calls. -/
inductive Label
  | enqueue (startRc : Int) (script : List RecvEvent)
  | request (req : LcapnetRequest) (io : RpcIo)
  | sigterm

/-- One turn of `reader_main`: a negative result of the enqueue call ends its
loop, the termination signal ends it before the next one. -/
def readerStep (s : ReaderEnv) : Label → Option ReaderEnv
  | .enqueue startRc script =>
    if s.stopped || s.terminateSig then none
    else match changelogReaderEnqueue s startRc script with
      | .ok (s, rc, []) => some { s with stopped := decide (rc < 0) }
      | _ => none
  | .request req io =>
    if s.stopped then none
    else match changelogReaderRpcHdl s req io with
      | .ok (s, _) => some s
      | .error _ => none
  | .sigterm => some { s with terminateSig := true }

/-- The bytes of a bucket, without and with the pointers to its records. The second is
a `size_t`. -/
def sizeofBucket : Nat := 64

def bktSz (cfg : LcapCfg) : Nat := ((sizeofBucket + cfg.ccfRecBatchCount * 8) % 2 ^ 64).toNat

/-- The state of a reader whose first bucket is allocated. -/
def initialReader (cfg : LcapCfg) (idx : Nat) : ReaderEnv where
  reCfg := cfg
  reIndex := idx
  reClpriv := false
  reSrec := 0
  reBktIdx := 1
  reRecCnt := 0
  reCurrentOpen := some 0
  reDeliverNext := some 0
  reCleanupNext := some 0
  reBuckets := [0]
  rePeers := []
  mem := fun p => { lrbIndex := p }
  terminateSig := false
  stopped := false
  trace := [.opened 0]

/-- The beginning of `changelog_reader_init`: `alloc` is the outcome of `calloc`, which
refuses more than `PTRDIFF_MAX` bytes. -/
def changelogReaderInit (cfg : LcapCfg) (idx : Nat) (alloc : Bool) : Except Int ReaderEnv :=
  if alloc ∧ bktSz cfg < 2 ^ 63 then .ok (initialReader cfg idx) else .error (-ENOMEM)

/-- A reader thread for the MDT of index `idx`, once it is initialised. -/
def reader (cfg : LcapCfg) (idx : Nat) : System ReaderEnv Label where
  init := initialReader cfg idx
  step := readerStep

end Lcap.Reader
