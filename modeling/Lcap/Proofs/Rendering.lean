import Lcap.Proofs.ClearsSeen
import Lcap.Proofs.RobustDecoding

namespace Lcap.Proofs
open Reader Systems Wire
open Client (PxIo PxZmqData RecvResult cacheReply le_bytes_length le_field_append nextRecord
  packHdr pack_hdr_length pack_hdr_op recvBufferLength repRetcode repSize)

/-- The bytes of a reply, whose code is a signed number of four bytes. -/
inductive Renders (L : RecLayout) : Reply → List UInt8 → Prop
  | ack (hrc : Int.bmod rc (2 ^ 32) = rc) : Renders L (.ack rc) (Net.packAck rc)
  | enqueue (hrecs : List.Forall₂ L.Describes raws recs) :
    Renders L (.enqueue (packRecords raws).length recs.length recs) (packRecords raws)

/-- The bytes that describe a record, where a pointer leads to some. -/
def Shows (L : RecLayout) (raw : Option (List UInt8)) (rec : ChangelogRec) : Prop :=
  ∃ bytes, raw = some bytes ∧ L.Describes bytes rec

/-- What a cache of pointers has still to give are the bytes of what a cache of records
has still to give. -/
structure Mirrors (L : RecLayout) (z : PxCache) (pzd : PxZmqData) : Prop where
  nxt : z.recNxt = pzd.recNxt
  cnt : z.recCnt = pzd.recCnt
  le : z.recNxt ≤ z.recCnt
  room : z.recNxt < z.recCnt → Room z
  left : List.Forall₂ (Shows L) (remaining L z) ((pzd.records.take pzd.recCnt).drop pzd.recNxt)

/-- The outcomes of a call, with how it ends to receive a reply. -/
def pxIo (bufflen : Nat) (io : DequeueIo) (reply : Parts UInt8) : PxIo where
  alloc := io.alloc
  grow := io.grow
  send := io.send
  recv :=
    let rcvd := (clRepRecv bufflen io.frame 0 [] reply).2.1
    if h : rcvd < 0 then some ⟨(-rcvd).toNat, by omega⟩ else none

/-- Both return the same code, or a record and its bytes. -/
inductive SameResult (L : RecLayout) (z : PxCache) : Wire.Received → RecvResult → Prop
  | record (h : Shows L (recordBytes L z p) rec) : SameResult L z (.record p) (.record rec)
  | code (rc : Int) : SameResult L z (.code rc) (.code rc)

/-- Nothing is said about a process that has not survived. -/
def Agrees (L : RecLayout) :
    Except Crash (PxCache × Wire.Received) → PxZmqData × RecvResult → Prop
  | .error _, _ => True
  | .ok (z, res), (pzd, res') => Mirrors L z pzd ∧ SameResult L z res res'

section
variable {L : RecLayout} {z : PxCache} {pzd : PxZmqData} {io : DequeueIo} {reply : Parts UInt8}

/-- The message that a bucket is packed into renders what the reader's model sends. -/
theorem bucket_renders {b : LcapRecBucket} (hrecs : List.Forall₂ L.Describes raws b.lrbRecords)
    (hsize : b.lrbSize = recordsSize b.lrbRecords) :
    ∃ message, enqueueMessage L b raws = some (message, message.length) ∧
      Renders L (packEnqueue b) message := by
  refine ⟨packRecords raws, enqueue_message_filled hrecs hsize, ?_⟩
  have hlen : sizeofEnqueue + b.lrbSize = (packRecords raws).length := by
    rw [pack_records_length, (described_size hrecs).1, hsize]
  rw [packEnqueue, hlen]
  exact .enqueue hrecs

theorem Renders.size (h : Renders L rep bytes) : repSize rep = bytes.length := by
  cases h with
  | ack _ =>
    rw [Net.packAck, List.length_append, pack_hdr_length, le_bytes_length]
    rfl
  | enqueue _ => rfl

/-- An empty cache, and one whose array is lost. -/
theorem Mirrors.empty (h : Mirrors L z pzd) (hempty : z.recNxt = z.recCnt) {z' : PxCache}
    {pzd' : PxZmqData}
    (hnxt : z'.recNxt = z.recNxt) (hcnt : z'.recCnt = z.recCnt) (hnxt' : pzd'.recNxt = pzd.recNxt)
    (hcnt' : pzd'.recCnt = pzd.recCnt) : Mirrors L z' pzd' := by
  have hend : z'.recNxt = z'.recCnt := by rw [hnxt, hcnt, hempty]
  have hnxt'' := hnxt.trans (h.nxt.trans hnxt'.symm)
  have hcnt'' := hcnt.trans (h.cnt.trans hcnt'.symm)
  refine ⟨hnxt'', hcnt'', Nat.le_of_eq hend, fun hlt => absurd hend (Nat.ne_of_lt hlt), ?_⟩
  rw [remaining_nil (Nat.le_of_eq hend.symm), List.drop_eq_nil_of_le]
  · exact .nil
  · rw [← hnxt'', hend, hcnt'']
    exact List.length_take_le _ _

/-- The next record of the one cache is described by the bytes that the other gives. -/
theorem Mirrors.next (h : Mirrors L z pzd) (hlt : z.recNxt < z.recCnt) :
    Agrees L (takeNext z) (nextRecord pzd) := by
  obtain ⟨arr, ha, hle⟩ := h.room hlt
  obtain ⟨p, hp⟩ : ∃ p, arr[z.recNxt]? = some p := ⟨_, List.getElem?_eq_getElem (by omega)⟩
  have hleft := h.left
  rw [remaining_next ha hp hlt] at hleft
  generalize hxs : (pzd.records.take pzd.recCnt).drop pzd.recNxt = xs at hleft
  cases hleft with
  | @cons _ rec _ tail hshow htail =>
    have hget : pzd.records[pzd.recNxt]? = some rec := by
      have h0 := congrArg (·[0]?) hxs
      simp only [List.getElem?_drop, Nat.add_zero, List.getElem?_cons_zero] at h0
      rwa [List.getElem?_take_of_lt (by rw [← h.nxt, ← h.cnt]; exact hlt)] at h0
    have hdrop : (pzd.records.take pzd.recCnt).drop (pzd.recNxt + 1) = tail := by
      rw [← List.drop_drop, hxs, List.drop_one, List.tail_cons]
    have hz : takeNext z = .ok ({ z with recNxt := z.recNxt + 1 }, .record p) := by
      simp only [takeNext, ha, hp]
    have hpzd : nextRecord pzd = ({ pzd with recNxt := pzd.recNxt + 1 }, .record rec) := by
      simp only [nextRecord, hget]
    rw [hz, hpzd]
    refine ⟨⟨congrArg (· + 1) h.nxt, h.cnt, hlt, fun _ => ⟨arr, ha, hle⟩, ?_⟩, .record hshow⟩
    rw [hdrop]
    exact htail

/-! ## The reply to a DEQUEUE -/

/-- The reply is received as a whole, or its receiving fails with a code. -/
theorem received_whole (bufflen : Nat) (io : DequeueIo) (reply : Parts UInt8) :
    (∃ e bytes rest, (pxIo bufflen io reply).recv = some e ∧
      clRepRecv bufflen io.frame 0 [] reply = (bytes, -(e.val : Int), rest)) ∨
    (pxIo bufflen io reply).recv = none ∧ reply.flatten.length ≤ bufflen ∧
      clRepRecv bufflen io.frame 0 [] reply =
        (reply.flatten, (reply.flatten.length : Int), []) := by
  rcases hr : clRepRecv bufflen io.frame 0 [] reply with ⟨bytes, rcvd, rest⟩
  by_cases hneg : rcvd < 0
  · refine .inl ⟨⟨(-rcvd).toNat, by omega⟩, bytes, rest, ?_, ?_⟩
    · simp only [pxIo, hr, dif_pos hneg]
    · have hval : -((-rcvd).toNat : Int) = rcvd := by omega
      rw [hval]
  · obtain ⟨hbytes, hrcvd, hrest⟩ := rep_recv_read hr hneg
    rw [List.nil_append] at hbytes
    have hpos : ¬ (clRepRecv bufflen io.frame 0 [] reply).2.1 < 0 := by rwa [hr]
    obtain ⟨_, hfits⟩ := rep_recv_whole (Nat.zero_le _) hpos
    rw [List.length_nil, Nat.zero_add] at hfits
    subst hbytes hrcvd hrest
    refine .inr ⟨?_, hfits, rfl⟩
    simp only [pxIo, hr, dif_neg hneg]

/-- What the reply to a DEQUEUE makes of either cache, as far as `px_changelog_recv` goes
on with it: success leaves a record to give. -/
def KeptSame (L : RecLayout) : Except Crash (PxCache × Int) → PxZmqData × Int → Prop
  | .error _, _ => True
  | .ok (z, rc), (pzd, rc') => rc = rc' ∧ Mirrors L z pzd ∧ (rc = 0 → z.recNxt < z.recCnt)

theorem pack_ack_fields (rc : Int) : leField (Net.packAck rc) 0 4 = RpcOpType.ack.code ∧
    (Net.packAck rc).length = sizeofAck ∧ prRetcode (Net.packAck rc) = Int.bmod rc (2 ^ 32) := by
  refine ⟨pack_hdr_op .ack _, ?_, ?_⟩
  · rw [Net.packAck, List.length_append, pack_hdr_length, le_bytes_length]
    rfl
  · have hfield : leField (Net.packAck rc) 8 4 = (rc % 2 ^ 32).toNat % 256 ^ 4 := by
      have h := le_field_append (packHdr .ack) [] 4 (rc % 2 ^ 32).toNat
      rwa [pack_hdr_length, List.append_nil] at h
    have hval : ((((rc % 2 ^ 32).toNat % 256 ^ 4 : Nat)) : Int) = rc % 2 ^ 32 := by omega
    calc prRetcode (Net.packAck rc)
        = Int.bmod ((rc % 2 ^ 32).toNat % 256 ^ 4 : Nat) (2 ^ 32) :=
          congrArg (fun n : Nat => Int.bmod n (2 ^ 32)) hfield
      _ = Int.bmod (rc % 2 ^ 32) (2 ^ 32) := congrArg (Int.bmod · (2 ^ 32)) hval
      _ = Int.bmod rc (2 ^ 32) := by exact_mod_cast Int.emod_bmod rc (2 ^ 32)

/-- The number behind the header is the same in both renderings. -/
theorem Renders.retcode (h : Renders L rep bytes) : prRetcode bytes = repRetcode rep := by
  cases h with
  | ack hrc => exact (pack_ack_fields _).2.2.trans hrc
  | @enqueue raws recs hrecs =>
    have hval : ((raws.length % 2 ^ 32 : Nat) : Int) = (recs.length : Int) % 2 ^ 32 := by
      rw [hrecs.length_eq]
      omega
    calc prRetcode (packRecords raws)
        = Int.bmod (raws.length % 2 ^ 32 : Nat) (2 ^ 32) :=
          congrArg (fun n : Nat => Int.bmod n (2 ^ 32)) (pack_records_fields raws).2
      _ = Int.bmod (recs.length % 2 ^ 32) (2 ^ 32) := congrArg (Int.bmod · (2 ^ 32)) hval
      _ = Int.bmod recs.length (2 ^ 32) := by exact_mod_cast Int.emod_bmod recs.length (2 ^ 32)

/-- The buffer of an ACK with a code is released. -/
theorem handle_ack (hne : Int.bmod rc (2 ^ 32) ≠ 0)
    (hrecv : clRepRecv recvBufferLength io.frame 0 [] reply =
      (Net.packAck rc, ((Net.packAck rc).length : Int), [])) :
    handleReply L io z reply =
      .ok ((z.malloc (laid (Net.packAck rc) io.garbage)).free z.nextBuf, Int.bmod rc (2 ^ 32)) := by
  obtain ⟨hop, hlen, hret⟩ := pack_ack_fields rc
  simp only [handleReply, hrecv, hlen, hop, rpc_op_type_code, hret, if_pos hne]
  rw [if_neg (by decide), if_neg (by decide), if_neg (by decide)]

/-- So is that of a batch without records. -/
theorem handle_empty (hrecv : clRepRecv recvBufferLength io.frame 0 [] reply =
      (packRecords [], ((packRecords []).length : Int), [])) :
    handleReply L io z reply =
      .ok ((z.malloc (laid (packRecords []) io.garbage)).free z.nextBuf, -EINVAL) := by
  have hshort : (packRecords []).length < sizeofEnqueue + L.sizeofRec := by
    have := L.sizeofRec_pos
    rw [pack_records_length, List.flatten_nil, List.length_nil]
    omega
  have hhdr : sizeofHdr ≤ (packRecords []).length := by
    rw [pack_records_length]
    decide
  simp only [handleReply, hrecv]
  rw [if_neg (by omega), if_neg (by omega)]
  simp only [(pack_records_fields []).1, rpc_op_type_code]
  rw [if_pos (by omega)]

/-- An ACK is not cached, and no call with a request ends with its code as a success. -/
theorem ack_kept (h : Mirrors L z pzd) (hempty : z.recNxt = z.recCnt)
    (hrc : Int.bmod rc (2 ^ 32) = rc) (hne : rc ≠ 0) (hio : pio.recv = none)
    (hrecv : clRepRecv recvBufferLength io.frame 0 [] reply =
      (Net.packAck rc, ((Net.packAck rc).length : Int), [])) :
    KeptSame L (handleReply L io z reply) (cacheReply L.sizeofRec pzd pio (.ack rc)) := by
  have hz := handle_ack (L := L) (z := z) (hrc.symm ▸ hne) hrecv
  rw [hrc] at hz
  have hpzd : cacheReply L.sizeofRec pzd pio (.ack rc) = (pzd, rc) := by
    have hfits : ¬ repSize (.ack rc) > recvBufferLength := by
      simp only [repSize]
      decide
    simp only [cacheReply, hio, if_neg hfits]
  rw [hz, hpzd]
  exact ⟨rfl, h.empty hempty rfl rfl rfl rfl, fun h0 => absurd h0 hne⟩

/-- A batch that has been cached on both sides is the same on both. -/
theorem filled_mirrors {m : Nat → UInt8} (hfilled : Filled L z m raws.length z')
    (hrecs : List.Forall₂ L.Describes raws recs)
    (hwalk : (walk (L.stepAt m) raws.length sizeofEnqueue).map
      (fun o => slice m o (L.stepAt m o)) = raws)
    (rest : List ChangelogRec) (rep : Reply) :
    Mirrors L z'
      { recBuff := some rep, records := recs ++ rest, recNxt := 0, recCnt := recs.length } := by
  have hlen := hrecs.length_eq
  refine ⟨hfilled.nxt, hfilled.cnt.trans hlen, ?_, fun _ => ?_, ?_⟩
  · rw [hfilled.nxt]
    exact Nat.zero_le _
  · obtain ⟨behind, hbehind⟩ := hfilled.records
    refine ⟨_, hbehind, ?_⟩
    rw [hfilled.cnt, List.length_append, List.length_map, walk_length]
    exact Nat.le_add_right _ _
  · rw [filled_remaining hfilled hwalk, List.take_left, List.drop_zero]
    exact (List.forall₂_map_left_iff.mpr (hrecs.imp fun _ _ h => ⟨_, rfl, h⟩))

/-- A batch is cached on both sides, or given up on both. -/
theorem batch_kept (h : Mirrors L z pzd) (hempty : z.recNxt = z.recCnt)
    (hrecs : List.Forall₂ L.Describes raws recs) (hio : pio.recv = none)
    (hgrow : pio.grow = io.grow)
    (hfits : (packRecords raws).length ≤ recvBufferLength)
    (hrecv : clRepRecv recvBufferLength io.frame 0 [] reply =
      (packRecords raws, ((packRecords raws).length : Int), [])) :
    KeptSame L (handleReply L io z reply)
      (cacheReply L.sizeofRec pzd pio (.enqueue (packRecords raws).length recs.length recs)) := by
  have hlen := hrecs.length_eq
  have hcnt := h.cnt
  have hsize : ¬ repSize (.enqueue (packRecords raws).length recs.length recs) > recvBufferLength :=
    Nat.not_lt.mpr hfits
  simp only [cacheReply, hio, if_neg hsize, hgrow]
  by_cases hne : raws = []
  · subst hne
    cases hrecs
    have hshort : (packRecords []).length < sizeofEnqueue + L.sizeofRec := by
      have := L.sizeofRec_pos
      rw [pack_records_length, List.flatten_nil, List.length_nil]
      omega
    rw [handle_empty hrecv, if_pos hshort]
    exact ⟨rfl, h.empty hempty rfl rfl rfl rfl, fun h0 => absurd h0 (Int.ne_of_lt einval_neg)⟩
  have hall := described_all hrecs
  obtain ⟨hop, hcount, hlong⟩ := batch_fields hall hne hfits
  have hpos : 0 < raws.length := List.length_pos_iff.mpr hne
  rw [if_neg (Nat.not_lt.mpr hlong), ← hlen, ← hcnt]
  by_cases hroom : HasRoom io z (prCount (packRecords raws))
  · obtain ⟨z', hr, hfilled⟩ := handle_enqueue (L := L) hrecv hop hlong hroom
    rw [hcount] at hfilled hroom
    have hsame := filled_mirrors hfilled hrecs (walk_records io.garbage hall)
    have hleft : z'.recNxt < z'.recCnt := by
      rw [hfilled.nxt, hfilled.cnt]
      exact hpos
    rw [hr]
    rcases hroom with ⟨hgt, hok⟩ | ⟨hle, _⟩
    · rw [if_pos hgt, if_pos hok, hlen]
      have hall := hsame [] (.enqueue (packRecords raws).length recs.length recs)
      rw [List.append_nil] at hall
      exact ⟨rfl, hall, fun _ => hleft⟩
    · rw [if_neg (Nat.not_lt.mpr hle), hlen]
      exact ⟨rfl, hsame _ _, fun _ => hleft⟩
  · rcases handle_no_room hrecv (hop ▸ rpc_op_type_code _) hlong hroom with
      ⟨hgt, hfail, hr⟩ | ⟨_, c, hr⟩ | ⟨_, hzero, _⟩
    · rw [hcount] at hgt
      rw [hr, if_pos hgt, if_neg (by simp [hfail])]
      exact ⟨rfl, h.empty hempty rfl rfl rfl hcnt, fun h0 => absurd h0 (Int.ne_of_lt enomem_neg)⟩
    · rw [hr]
      trivial
    · rw [hcount] at hzero
      exact absurd hzero (Nat.ne_of_gt hpos)

theorem reply_kept (h : Mirrors L z pzd) (hempty : z.recNxt = z.recCnt)
    (hrep : Renders L rep reply.flatten) (hne : rep ≠ .ack 0) :
    KeptSame L (handleReply L io z reply)
      (cacheReply L.sizeofRec pzd (pxIo recvBufferLength io reply) rep) := by
  rcases received_whole recvBufferLength io reply with
    ⟨e, bytes, rest, hio, hrecv⟩ | ⟨hio, hfits, hrecv⟩
  · have hz : handleReply L io z reply =
        .ok ((z.malloc (laid bytes io.garbage)).free z.nextBuf, -(e.val : Int)) := by
      simp only [handleReply, hrecv, if_pos (errno_neg e)]
    simp only [hz, cacheReply, hio]
    exact ⟨rfl, h.empty hempty rfl rfl rfl rfl, fun h0 => absurd h0 (Int.ne_of_lt (errno_neg e))⟩
  · generalize reply.flatten = bytes at hrep hfits hrecv
    cases hrep with
    | ack hrc => exact ack_kept h hempty hrc (fun h0 => hne (congrArg Reply.ack h0)) hio hrecv
    | enqueue hrecs => exact batch_kept h hempty hrecs hio rfl hfits hrecv

/-! ## The calls -/

/-- `px_changelog_recv` goes on with two caches that are the same. -/
theorem KeptSame.agrees {res : Except Crash (PxCache × Int)} (h : KeptSame L res kept) :
    Agrees L (afterReply res)
      (if kept.2 ≠ 0 then (kept.1, .code kept.2) else nextRecord kept.1) := by
  cases res with
  | error c => trivial
  | ok got =>
    obtain ⟨z', rc⟩ := got
    obtain ⟨hrc, hmirrors, hleft⟩ := h
    rw [afterReply, ← hrc]
    by_cases hzero : rc = 0
    · rw [if_neg (not_not.mpr hzero), if_neg (not_not.mpr hzero)]
      exact hmirrors.next (hleft hzero)
    · rw [if_pos hzero, if_pos hzero]
      exact ⟨hmirrors, .code rc⟩

theorem free_mirrors (h : Mirrors L z pzd) :
    Mirrors L (pxChangelogFree z) (Client.pxChangelogFree pzd) := by
  obtain ⟨hrec, hnxt, hcnt, hrem⟩ := free_remaining L z
  have hfree : (Client.pxChangelogFree pzd).records = pzd.records ∧
      (Client.pxChangelogFree pzd).recNxt = pzd.recNxt ∧ (Client.pxChangelogFree pzd).recCnt =
        pzd.recCnt := by
    unfold Client.pxChangelogFree
    split <;> exact ⟨rfl, rfl, rfl⟩
  obtain ⟨hrec', hnxt', hcnt'⟩ := hfree
  refine ⟨by rw [hnxt, hnxt', h.nxt], by rw [hcnt, hcnt', h.cnt], ?_, fun hlt => ?_, ?_⟩
  · rw [hnxt, hcnt]
    exact h.le
  · rw [hnxt, hcnt] at hlt
    exact (h.room hlt).congr hrec hcnt
  · rw [hrem, hrec', hnxt', hcnt']
    exact h.left

theorem init_mirrors : Mirrors L pzdInit {} :=
  ⟨rfl, rfl, Nat.le_refl 0, fun hlt => absurd hlt (Nat.lt_irrefl 0), .nil⟩

/-- Nothing is left of a cache after `pzd_destroy`. -/
theorem destroyed_mirrors : Mirrors L {} {} :=
  ⟨rfl, rfl, Nat.le_refl 0, fun hlt => absurd hlt (Nat.lt_irrefl 0), .nil⟩

end

end Lcap.Proofs
