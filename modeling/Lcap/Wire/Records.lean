import Lcap.Client.Pack
import Lcap.Reader.State
import Lcap.Systems.Chunks

namespace Lcap.Wire
open Client Reader Systems

/-- What liblustreapi knows about a record: each of these reads its fixed part, the
first `sizeofRec` bytes. The name follows at `changelog_rec_size` from the start. -/
structure RecLayout where
  sizeofRec : Nat
  crIndex : List UInt8 → Nat
  crNamelen : List UInt8 → Nat
  changelogRecSize : List UInt8 → Nat
  sizeofRec_pos : 0 < sizeofRec
  size_ge : ∀ fixed, sizeofRec ≤ changelogRecSize fixed

namespace RecLayout

/-- `changelog_rec_size(rec) + rec->cr_namelen`. -/
def recLen (L : RecLayout) (fixed : List UInt8) : Nat :=
  L.changelogRecSize fixed + L.crNamelen fixed

/-- How far `changelog_rec_next` steps from a record in memory. -/
def stepAt (L : RecLayout) (m : Nat → UInt8) (off : Nat) : Nat := L.recLen (slice m off L.sizeofRec)

/-- The bytes of a record. -/
structure Describes (L : RecLayout) (raw : List UInt8) (rec : ChangelogRec) : Prop where
  index : L.crIndex (raw.take L.sizeofRec) = rec.crIndex
  namelen : L.crNamelen (raw.take L.sizeofRec) = rec.crNamelen
  size : L.changelogRecSize (raw.take L.sizeofRec) = rec.changelogRecSize
  length : raw.length = rec.changelogRecSize + rec.crNamelen

end RecLayout

/-- `memcpy` into a buffer, which must have room for the bytes. -/
def memcpyAt (buff : List UInt8) (off : Nat) (bytes : List UInt8) : Option (List UInt8) :=
  if off + bytes.length ≤ buff.length then
    some (buff.take off ++ bytes ++ buff.drop (off + bytes.length))
  else none

/-- The loop of `enqueue_rec`, with the place behind the last record. -/
def copyRecords (L : RecLayout) : List UInt8 → Nat → List (List UInt8) → Option (List UInt8 × Nat)
  | rpc, nextRec, [] => some (rpc, nextRec)
  | rpc, nextRec, rec :: recs =>
    let copyLen := L.recLen (rec.take L.sizeofRec)
    match memcpyAt rpc nextRec (rec.take copyLen) with
    | none => none
    | some rpc => copyRecords L rpc (nextRec + copyLen) recs

/-- The message of `enqueue_rec` for a bucket whose record pointers lead to `recs`. -/
def enqueueMessage (L : RecLayout) (b : LcapRecBucket) (recs : List (List UInt8)) :
    Option (List UInt8 × Nat) :=
  let rpcSize := sizeofEnqueue + b.lrbSize
  let hdr := packHdr .enqueue ++ leBytes 4 b.lrbRecords.length
  (memcpyAt (List.replicate rpcSize 0) 0 hdr).bind fun rpc => copyRecords L rpc sizeofEnqueue recs

end Lcap.Wire
