import Lcap.Idl

namespace Lcap

/-- A changelog record as the daemon reads it. Lustre numbers records from one
and its interface carries the numbers in a `long long`. -/
structure ChangelogRec where
  crIndex : Nat
  crNamelen : Nat
  /-- What `changelog_rec_size` computes from the record's own flags. -/
  changelogRecSize : Nat
  crIndex_lt : crIndex < 2 ^ 63 - 1 := by decide
  deriving DecidableEq, Repr

structure LcapCfg where
  ccfMdt : List String
  ccfClreader : String
  ccfMaxBkt : Int
  ccfRecBatchCount : Int
  deriving DecidableEq, Repr

namespace Reader

/-- `lrb_rec_count` is the length of `lrbRecords`, and only the seconds of the expiry
time are compared. The first `freed` pointers of `lrb_records` are null: releasing a
bucket leaves them so, and what is in its block stays there until `calloc` clears it. -/
structure LcapRecBucket where
  lrbIndex : Nat
  freed : Nat := 0
  lrbExpiry : Nat := 0
  lrbReady : Bool := false
  lrbSize : Nat := 0
  lrbRecords : List ChangelogRec := []
  deriving DecidableEq, Repr

structure ClientState where
  csStart : Nat
  csBucket : Option Nat := none
  csIdent : ConnId
  deriving DecidableEq, Repr

/-- The two messages a reader sends to its clients. The first number of an
ENQUEUE is the length of the message, the second its `pr_count`. -/
inductive Reply
  | enqueue (rpcSize prCount : Nat) (prRecords : List ChangelogRec)
  | ack (prRetcode : Int)
  deriving DecidableEq, Repr

/-- What a reader has done so far, with the `lrb_index` of the buckets. A message keeps
the bucket it was packed from and the return code of `peer_rpc_send`. -/
inductive Event
  | opened (bkt : Nat)
  | stored (bkt : Nat) (rec : ChangelogRec)
  | assigned (cid : ConnId) (bkt : Nat)
  | sent (dst : ConnId) (bkt : Option Nat) (msg : Reply) (rc : Int)
  | acknowledged (cid : ConnId) (bkt : Nat)
  | cleared (dev cli : String) (endrec rc : Int)
  | destroyed (bkt : Nat)
  deriving DecidableEq, Repr

def messageOf : Event → Option (ConnId × Reply)
  | .sent dst _ msg rc => if rc = 0 then some (dst, msg) else none
  | _ => none

/-- The messages sent so far without an error, with their destinations. -/
def messages (tr : List Event) : List (ConnId × Reply) := tr.filterMap messageOf

/-- `struct reader_env`, followed by the memory its pointers lead to, the flags
of `reader_main` and the history of its actions. A bucket is designated by the address
of its block, and it is on the list for as long as the block is not released. -/
structure ReaderEnv where
  reCfg : LcapCfg
  reIndex : Nat
  reClpriv : Bool
  reSrec : Nat
  reBktIdx : Nat
  reRecCnt : Int
  reCurrentOpen : Option Nat
  reDeliverNext : Option Nat
  reCleanupNext : Option Nat
  reBuckets : List Nat
  rePeers : List ClientState
  mem : Nat → LcapRecBucket
  terminateSig : Bool
  stopped : Bool
  trace : List Event

/-- Ways in which the reader does not come back from a call: the process dies,
or `llapi_changelog_recv` has not returned yet. -/
inductive Halt
  | assertion | nullDeref | doubleFree | waiting
  deriving DecidableEq, Repr

/-- What the allocator has left in the head of the released block that the request
reads, which it uses for its own links. The list links, the count and the records lie
behind it. Of the blocks of this size only buckets are taken to be allocated. -/
structure Garbage where
  lrbExpiry : Nat
  lrbReady : Bool
  deriving DecidableEq, Repr

/-- The answers of the world to one request. `now` is the clock read by
`rec_bucket_get`, `sendNow` the one read when a bucket leaves, `bktBlock` a block that
`calloc` may hand out again. -/
structure RpcIo where
  now : Nat
  sendNow : Nat
  csAlloc : Bool := true
  identAlloc : Bool := true
  bktAlloc : Bool := true
  bktBlock : Option Nat := none
  rpcAlloc : Bool := true
  send : Option Errno := none
  ackSend : Option Errno := none
  clearRc : Nat → Int := fun _ => 0
  garbage : Garbage := ⟨0, false⟩

/-- What may happen while `changelog_reader_enqueue` waits for a record. -/
inductive RecvEvent
  | recv (rec : ChangelogRec) (bktAlloc : Bool) (bktBlock : Option Nat)
  | fail (rc : { rc : Int // rc ≠ 0 })
  | sigterm
  deriving DecidableEq, Repr

def ReaderEnv.log (s : ReaderEnv) (e : Event) : ReaderEnv :=
  { s with trace := s.trace ++ [e] }

/-- Writes one bucket through its address. -/
def ReaderEnv.modify (s : ReaderEnv) (p : Nat) (f : LcapRecBucket → LcapRecBucket) : ReaderEnv :=
  { s with mem := Function.update s.mem p (f (s.mem p)) }

/-- `ln_next` of a node: the links of a node off the list are null. -/
def lnNext : List Nat → Nat → Option Nat
  | [], _ => none
  | a :: rest, p => if a = p then rest.head? else lnNext rest p

theorem ln_next_none (hp : p ∉ bkts) : lnNext bkts p = none := by
  induction bkts with
  | nil => rfl
  | cons a rest ih =>
    have hne : p ≠ a := List.ne_of_not_mem_cons hp
    rw [lnNext, if_neg hne.symm, ih (List.not_mem_of_not_mem_cons hp)]

theorem ln_next_mid (hp : p ∉ pre) : lnNext (pre ++ p :: post) p = post.head? := by
  induction pre with
  | nil => exact if_pos rfl
  | cons a pre ih =>
    have hne : p ≠ a := List.ne_of_not_mem_cons hp
    rw [List.cons_append, lnNext, if_neg hne.symm, ih (List.not_mem_of_not_mem_cons hp)]

/-- The nodes that `list_foreach_entry` visits from a given one. -/
def nodesFrom (bkts : List Nat) (p : Nat) : List Nat :=
  if p ∈ bkts then bkts.dropWhile (· ≠ p) else [p]

end Reader
end Lcap
