import Lcap.Proofs.LargestBatch
import Lcap.Wire.Records
import Mathlib.Data.List.Forall2

namespace Lcap.Proofs
open Client Reader Systems Wire

/-- The message that carries the given records. -/
def packRecords (recs : List (List UInt8)) : List UInt8 :=
  packHdr .enqueue ++ leBytes 4 recs.length ++ recs.flatten

theorem pack_records_length (recs : List (List UInt8)) :
    (packRecords recs).length = sizeofEnqueue + recs.flatten.length := by
  rw [packRecords, List.length_append, List.length_append, pack_hdr_length, le_bytes_length]
  rfl

theorem described_length {L : RecLayout} (h : L.Describes raw rec) :
    L.recLen (raw.take L.sizeofRec) = raw.length ∧ L.sizeofRec ≤ raw.length := by
  have hlen : L.recLen (raw.take L.sizeofRec) = raw.length := by
    rw [RecLayout.recLen, h.size, h.namelen, h.length]
  refine ⟨hlen, ?_⟩
  rw [← hlen]
  exact Nat.le_trans (L.size_ge _) (Nat.le_add_right _ _)

theorem described_all {L : RecLayout} (h : List.Forall₂ L.Describes recs rs) :
    ∀ r ∈ recs, L.recLen (r.take L.sizeofRec) = r.length ∧ L.sizeofRec ≤ r.length := by
  induction h with
  | nil => simp
  | cons hr _ ih =>
    intro r hm
    rcases List.mem_cons.mp hm with rfl | hm
    · exact described_length hr
    · exact ih r hm

/-- The bytes of described records take up what the reader has counted for them. -/
theorem described_size {L : RecLayout} (h : List.Forall₂ L.Describes recs rs) :
    recs.flatten.length = recordsSize rs ∧ recs.length = rs.length := by
  induction h with
  | nil => exact ⟨rfl, rfl⟩
  | cons hr _ ih =>
    refine ⟨?_, congrArg (· + 1) ih.2⟩
    simp only [List.flatten_cons, List.length_append, ih.1, hr.length, recordsSize, List.map_cons,
      List.sum_cons]

/-- Writing at the end of what has been filled leaves the zeros behind it. -/
theorem memcpy_at_end (filled bytes : List UInt8) (n : Nat) :
    memcpyAt (filled ++ List.replicate (bytes.length + n) 0) filled.length bytes =
      some (filled ++ bytes ++ List.replicate n 0) := by
  rw [memcpyAt, if_pos (by simp), List.take_left]
  congr 2
  rw [← List.drop_drop, List.drop_left, List.drop_replicate]
  congr 1
  omega

theorem copy_records_filled {L : RecLayout} {recs : List (List UInt8)}
    (hlen : ∀ r ∈ recs, L.recLen (r.take L.sizeofRec) = r.length) (filled : List UInt8) :
    copyRecords L (filled ++ List.replicate recs.flatten.length 0) filled.length recs =
      some (filled ++ recs.flatten, filled.length + recs.flatten.length) := by
  induction recs generalizing filled with
  | nil => simp [copyRecords]
  | cons r recs ih =>
    have hr := hlen r List.mem_cons_self
    have hstep := memcpy_at_end filled r recs.flatten.length
    rw [copyRecords, List.flatten_cons, List.length_append]
    simp only [hr, List.take_length, hstep]
    rw [← List.length_append, ih fun r' hr' => hlen r' (List.mem_cons_of_mem r hr')]
    simp only [List.append_assoc, List.length_append, Nat.add_assoc]

/-- The buffer allocated for a bucket's message is filled to its last byte, and no
write goes beyond it. -/
theorem enqueue_message_filled {L : RecLayout} {b : LcapRecBucket}
    (hrecs : List.Forall₂ L.Describes recs b.lrbRecords)
    (hsize : b.lrbSize = recordsSize b.lrbRecords) :
    enqueueMessage L b recs = some (packRecords recs, (packRecords recs).length) := by
  obtain ⟨hbytes, hcount⟩ := described_size hrecs
  have hlen := fun r hr => (described_all hrecs r hr).1
  have hhdr : (packHdr .enqueue ++ leBytes 4 recs.length).length = sizeofEnqueue := by
    rw [List.length_append, pack_hdr_length, le_bytes_length]
    rfl
  have hfirst := memcpy_at_end [] (packHdr .enqueue ++ leBytes 4 recs.length) recs.flatten.length
  have hcopy := copy_records_filled hlen (packHdr .enqueue ++ leBytes 4 recs.length)
  rw [hhdr] at hfirst hcopy
  simp only [enqueueMessage, ← hcount, hsize, ← hbytes]
  simp only [List.nil_append, List.length_nil] at hfirst
  rw [hfirst, Option.bind_some, hcopy, pack_records_length]
  rfl

end Lcap.Proofs
