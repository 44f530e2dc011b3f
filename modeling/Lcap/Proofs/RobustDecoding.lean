import Lcap.Proofs.RecordRoundTrip

namespace Lcap.Proofs
open Systems Wire
open Client (leBytes packHdr recvBufferLength)

/-- What a call that has asked for records returns once the reply is there. -/
def recvReply (L : RecLayout) (io : DequeueIo) (z : PxCache) (reply : Parts UInt8) :
    Option (Except Crash (PxCache × Wire.Received)) :=
  match pxChangelogRecv L io z with
  | .ask resume => some (resume reply)
  | _ => none

/-- A cached record lies within the first `len` bytes of a buffer. -/
def Within (L : RecLayout) (z : PxCache) (buf len : Nat) (rec : Ptr) : Prop :=
  rec.buf = buf ∧ ∃ m, z.heap buf = some m ∧ rec.off + L.stepAt m rec.off ≤ len

/-- A record is handed out only from an ENQUEUE message all of whose records lie
within the bytes received; any other call fails and caches nothing. -/
def Robust (L : RecLayout) (z : PxCache) (bytes : List UInt8) :
    Except Crash (PxCache × Wire.Received) → Prop
  | .error _ => False
  | .ok (z', .record rec) =>
    leField bytes 0 4 = RpcOpType.enqueue.code ∧ rec = ⟨z.nextBuf, sizeofEnqueue⟩ ∧
      z'.recNxt ≤ z'.recCnt ∧
      ∃ arr, z'.records = some arr ∧ z'.recCnt ≤ arr.length ∧
        ∀ p ∈ arr.take z'.recCnt, Within L z' z.nextBuf bytes.length p
  | .ok (z', .code rc) =>
    rc ≠ 0 ∧ z'.recNxt = z.recNxt ∧ z'.recCnt = z.recCnt ∧ z'.recBuff = z.recBuff ∧
      (z'.records = z.records ∨ z'.records = none)

/-- The bytes begin with as many whole records. -/
def Carries (L : RecLayout) : Nat → List UInt8 → Prop
  | 0, _ => True
  | n + 1, bytes =>
    L.sizeofRec ≤ bytes.length ∧ L.recLen (bytes.take L.sizeofRec) ≤ bytes.length ∧
      Carries L n (bytes.drop (L.recLen (bytes.take L.sizeofRec)))

instance Carries.decidable (L : RecLayout) : (n : Nat) → (bytes : List UInt8) →
    Decidable (Carries L n bytes)
  | 0, _ => .isTrue trivial
  | n + 1, bytes =>
    have := Carries.decidable L n (bytes.drop (L.recLen (bytes.take L.sizeofRec)))
    inferInstanceAs (Decidable (_ ∧ _ ∧ _))

/-- The replies that the client is safe with: an ACK carries an error, and an ENQUEUE
carries as many records as it says, at least one, for which the array has room. -/
def SafeReply (L : RecLayout) (io : DequeueIo) (z : PxCache) (bytes : List UInt8) : Prop :=
  match rpcOpType (leField bytes 0 4) with
  | some .ack => bytes.length < sizeofAck ∨ prRetcode bytes ≠ 0
  | some .enqueue =>
    bytes.length < sizeofEnqueue + L.sizeofRec ∨ (z.recCnt < prCount bytes ∧ io.grow = false) ∨
      (0 < prCount bytes ∧ HasRoom io z (prCount bytes) ∧
        Carries L (prCount bytes) (bytes.drop sizeofEnqueue))
  | _ => True

theorem step_at_laid {L : RecLayout} {bytes : List UInt8} (garbage : Nat → UInt8)
    (h : off + L.sizeofRec ≤ bytes.length) :
    L.stepAt (laid bytes garbage) off = L.recLen ((bytes.drop off).take L.sizeofRec) := by
  rw [RecLayout.stepAt, slice_laid h]

theorem sizeof_le_step {L : RecLayout} (m : Nat → UInt8) (off : Nat) :
    L.sizeofRec ≤ L.stepAt m off :=
  Nat.le_trans (L.size_ge _) (Nat.le_add_right _ _)

/-- The bytes from a place on carry records exactly where the walk over them stays
within the bytes received, whatever lies behind these. -/
theorem carries_iff_walk {L : RecLayout} {bytes : List UInt8} (garbage : Nat → UInt8) (n : Nat)
    (hoff : off ≤ bytes.length) :
    Carries L n (bytes.drop off) ↔
      ∀ o ∈ walk (L.stepAt (laid bytes garbage)) n off, o + L.stepAt (laid bytes garbage) o ≤
        bytes.length := by
  induction n generalizing off with
  | zero => simp [Carries, walk]
  | succ n ih =>
    simp only [Carries, walk, List.forall_mem_cons, List.length_drop]
    by_cases hfix : off + L.sizeofRec ≤ bytes.length
    · rw [← step_at_laid garbage hfix]
      by_cases hlen : off + L.stepAt (laid bytes garbage) off ≤ bytes.length
      · rw [List.drop_drop, ih hlen]
        constructor
        · exact fun h => ⟨hlen, h.2.2⟩
        · exact fun h => ⟨by omega, by omega, h.2⟩
      · constructor
        · exact fun h => absurd h.2.1 (by omega)
        · exact fun h => absurd h.1 hlen
    · have hstep := sizeof_le_step (L := L) (laid bytes garbage) off
      constructor
      · exact fun h => absurd h.1 (by omega)
      · exact fun h => absurd h.1 (by omega)

/-- A call with nothing cached receives the whole of a reply that fits its buffer. -/
structure Answered (io : DequeueIo) (z : PxCache) (reply : Parts UInt8) : Prop where
  empty : z.recNxt = z.recCnt
  send : io.send = none
  alloc : io.alloc = true
  frame : ∀ k, io.frame k = {}
  fits : reply.flatten.length ≤ recvBufferLength

section
variable {L : RecLayout} {io : DequeueIo} {z z' : PxCache} {reply : Parts UInt8}

theorem Answered.received (h : Answered io z reply) :
    clRepRecv recvBufferLength io.frame 0 [] reply =
      (reply.flatten, (reply.flatten.length : Int), []) := by
  have hrecv := @rep_recv_all recvBufferLength io.frame 0 [] reply
    (fun i _ => by rw [h.frame]; exact ⟨rfl, rfl⟩) (by simpa using h.fits)
  rwa [List.nil_append] at hrecv

theorem recv_failed (h : Answered io z reply) (hr : handleReply L io z reply = .ok (z', rc))
    (hrc : rc ≠ 0) : recvReply L io z reply = some (.ok (z', .code rc)) := by
  simp only [recvReply, pxChangelogRecv, pxDequeueRecords, if_pos h.empty, h.send, h.alloc, if_true,
    Dequeue.map, hr, if_pos hrc]

theorem recv_accepted (h : Answered io z reply) (hr : handleReply L io z reply = .ok (z', 0)) :
    recvReply L io z reply = some (takeNext z') := by
  simp only [recvReply, pxChangelogRecv, pxDequeueRecords, if_pos h.empty, h.send, h.alloc, if_true,
    Dequeue.map, hr, ne_eq, not_true_eq_false, if_false]

theorem recv_crashed (h : Answered io z reply) (hr : handleReply L io z reply = .error c) :
    recvReply L io z reply = some (.error c) := by
  simp only [recvReply, pxChangelogRecv, pxDequeueRecords, if_pos h.empty, h.send, h.alloc, if_true,
    Dequeue.map, hr]

/-- A call that fails and touches none of the counters has cached nothing. -/
theorem robust_of_failed (h : Answered io z reply) (hr : handleReply L io z reply = .ok (z', rc))
    (hrc : rc ≠ 0) (hnxt : z'.recNxt = z.recNxt) (hcnt : z'.recCnt = z.recCnt)
    (hbuff : z'.recBuff = z.recBuff) (hrecords : z'.records = z.records ∨ z'.records = none) :
    ∃ r, recvReply L io z reply = some r ∧ Robust L z reply.flatten r :=
  ⟨_, recv_failed h hr hrc, hrc, hnxt, hcnt, hbuff, hrecords⟩

/-- Whatever is taken from the cache after an ACK is not from an ENQUEUE message. -/
theorem not_robust_of_op (hop : leField bytes 0 4 ≠ RpcOpType.enqueue.code) :
    ¬ Robust L z bytes (takeNext z') := by
  unfold takeNext
  split
  · exact id
  · split
    · exact id
    · exact fun hrob => hop hrob.1

/-- A message that is neither an ACK nor an ENQUEUE, or is shorter than its fixed part,
is dropped. -/
theorem dropped_robust (h : Answered io z reply)
    (hop : reply.flatten.length < sizeofHdr ∨
      rpcOpType (leField reply.flatten 0 4) ≠ some .ack ∧
        rpcOpType (leField reply.flatten 0 4) ≠ some .enqueue) :
    ∃ r, recvReply L io z reply = some r ∧ Robust L z reply.flatten r := by
  by_cases hhdr : reply.flatten.length < sizeofHdr
  · have hr : handleReply L io z reply =
        .ok ((z.malloc (laid reply.flatten io.garbage)).free z.nextBuf, -EINVAL) := by
      simp only [handleReply, h.received]
      rw [if_neg (by omega), if_pos (by omega)]
    exact robust_of_failed h hr (Int.ne_of_lt einval_neg) rfl rfl rfl (.inl rfl)
  · obtain ⟨hack, henq⟩ := hop.resolve_left hhdr
    have hr : handleReply L io z reply =
        .ok ((z.malloc (laid reply.flatten io.garbage)).free z.nextBuf, -EPROTO) := by
      simp only [handleReply, h.received]
      rw [if_neg (by omega), if_neg (by omega)]
    exact robust_of_failed h hr (Int.ne_of_lt eproto_neg) rfl rfl rfl (.inl rfl)

theorem ack_robust (h : Answered io z reply) (hhdr : ¬ reply.flatten.length < sizeofHdr)
    (hop : rpcOpType (leField reply.flatten 0 4) = some .ack) :
    ∃ r, recvReply L io z reply = some r ∧
      (Robust L z reply.flatten r ↔
        reply.flatten.length < sizeofAck ∨ prRetcode reply.flatten ≠ 0) := by
  have hhandle : handleReply L io z reply = if (reply.flatten.length : Int) < sizeofAck then
        .ok ((z.malloc (laid reply.flatten io.garbage)).free z.nextBuf, -EINVAL)
      else if prRetcode reply.flatten ≠ 0 then
        .ok ((z.malloc (laid reply.flatten io.garbage)).free z.nextBuf, prRetcode reply.flatten)
      else .ok (z.malloc (laid reply.flatten io.garbage), 0) := by
    simp only [handleReply, h.received]
    rw [if_neg (by omega), if_neg (by omega)]
    simp only [hop]
  by_cases hfix : reply.flatten.length < sizeofAck
  · rw [if_pos (by omega)] at hhandle
    obtain ⟨r, hrecv, hrob⟩ :=
      robust_of_failed h hhandle (Int.ne_of_lt einval_neg) rfl rfl rfl (.inl rfl)
    exact ⟨r, hrecv, iff_of_true hrob (.inl hfix)⟩
  rw [if_neg (by omega)] at hhandle
  by_cases hrc : prRetcode reply.flatten = 0
  · rw [if_neg (not_not.mpr hrc)] at hhandle
    refine ⟨_, recv_accepted h hhandle, iff_of_false (not_robust_of_op ?_) ?_⟩
    · intro henq
      rw [henq, rpc_op_type_code] at hop
      cases hop
    · rintro (hlt | hne)
      · exact hfix hlt
      · exact hne hrc
  · rw [if_pos hrc] at hhandle
    obtain ⟨r, hrecv, hrob⟩ := robust_of_failed h hhandle hrc rfl rfl rfl (.inl rfl)
    exact ⟨r, hrecv, iff_of_true hrob (.inr hrc)⟩

/-- Without room for the records, the array is lost or the process does not survive the
first write, if there is one. -/
theorem handle_no_room {bytes : List UInt8}
    (hrecv : clRepRecv recvBufferLength io.frame 0 [] reply = (bytes, (bytes.length : Int), []))
    (hop : rpcOpType (leField bytes 0 4) = some .enqueue)
    (hlong : sizeofEnqueue + L.sizeofRec ≤ bytes.length) (hroom : ¬ HasRoom io z (prCount bytes)) :
    (z.recCnt < prCount bytes ∧ io.grow = false ∧ handleReply L io z reply =
      .ok ({ (z.malloc (laid bytes io.garbage)).free z.nextBuf with records := none }, -ENOMEM)) ∨
    (prCount bytes ≤ z.recCnt ∧ ∃ c, handleReply L io z reply = .error c) ∨
    (prCount bytes ≤ z.recCnt ∧ prCount bytes = 0 ∧
      ∃ z', handleReply L io z reply = .ok (z', 0) ∧ z'.records = none) := by
  rw [handle_long_enqueue hrecv hop hlong]
  by_cases hgt : z.recCnt < prCount bytes
  · have hgrow : io.grow = false := by
      by_contra hne
      exact hroom (.inl ⟨hgt, by simpa using hne⟩)
    refine .inl ⟨hgt, hgrow, ?_⟩
    rw [if_pos hgt, hgrow, if_neg Bool.false_ne_true]
  · have hle := Nat.le_of_not_lt hgt
    rw [if_neg hgt]
    cases ha : z.records with
    | none =>
      by_cases hzero : prCount bytes = 0
      · exact .inr (.inr ⟨hle, hzero, _, by rw [cacheRecords, if_pos hzero], rfl⟩)
      · exact .inr (.inl ⟨hle, _, by rw [cacheRecords, if_neg hzero]⟩)
    | some arr =>
      have hshort : prCount bytes > arr.length := by
        by_contra hfew
        exact hroom (.inr ⟨hle, arr, ha, Nat.le_of_not_lt hfew⟩)
      exact .inr (.inl ⟨hle, _, by rw [cacheRecords, if_pos hshort]⟩)

theorem no_room (h : Answered io z reply)
    (hop : rpcOpType (leField reply.flatten 0 4) = some .enqueue)
    (hlong : sizeofEnqueue + L.sizeofRec ≤ reply.flatten.length)
    (hroom : ¬ HasRoom io z (prCount reply.flatten)) :
    ∃ r, recvReply L io z reply = some r ∧
      (Robust L z reply.flatten r ↔ z.recCnt < prCount reply.flatten ∧ io.grow = false) := by
  rcases handle_no_room h.received hop hlong hroom with
    ⟨hgt, hgrow, hr⟩ | ⟨hle, c, hr⟩ | ⟨hle, _, z', hr, hnone⟩
  · obtain ⟨r, hrecv, hrob⟩ := robust_of_failed h hr (Int.ne_of_lt enomem_neg) rfl rfl
      rfl (.inr rfl)
    exact ⟨r, hrecv, iff_of_true hrob ⟨hgt, hgrow⟩⟩
  · exact ⟨_, recv_crashed h hr, iff_of_false id fun hn => Nat.not_lt.mpr hle hn.1⟩
  · have hcrash : takeNext z' = .error .nullDeref := by simp only [takeNext, hnone]
    refine ⟨_, recv_accepted h hr, iff_of_false ?_ fun hn => Nat.not_lt.mpr hle hn.1⟩
    rw [hcrash]
    exact id

/-- With room for them, the records are cached as the bytes chain them, be they
within the message or not. -/
theorem with_room (h : Answered io z reply)
    (hop : rpcOpType (leField reply.flatten 0 4) = some .enqueue)
    (hlong : sizeofEnqueue + L.sizeofRec ≤ reply.flatten.length)
    (hroom : HasRoom io z (prCount reply.flatten)) :
    ∃ r, recvReply L io z reply = some r ∧
      (Robust L z reply.flatten r ↔ 0 < prCount reply.flatten ∧
        Carries L (prCount reply.flatten) (reply.flatten.drop sizeofEnqueue)) := by
  have hcode := code_of_rpc_op_type hop
  obtain ⟨z₁, hr, hfilled⟩ := handle_enqueue (L := L) h.received hcode hlong hroom
  obtain ⟨rest, hrest⟩ := hfilled.records
  have hcnt := hfilled.cnt
  have hlen := walk_length (L.stepAt (laid reply.flatten io.garbage))
    (prCount reply.flatten) sizeofEnqueue
  refine ⟨_, recv_accepted h hr, ?_⟩
  rw [carries_iff_walk io.garbage _ (by omega)]
  cases hn : prCount reply.flatten with
  | zero =>
    -- The loop finds nothing to cache, and recv reads an entry that is not counted.
    refine iff_of_false ?_ fun hc => Nat.lt_irrefl 0 hc.1
    intro hrob
    unfold takeNext at hrob
    split at hrob
    · exact hrob
    · split at hrob
      · exact hrob
      · have hle : z₁.recNxt + 1 ≤ z₁.recCnt := hrob.2.2.1
        omega
  | succ n =>
    rw [hn] at hrest hcnt hlen
    have hnext : takeNext z₁ =
        .ok ({ z₁ with recNxt := 1 }, .record ⟨z.nextBuf, sizeofEnqueue⟩) := by
      simp only [takeNext, hrest, hfilled.nxt, walk, List.map_cons, List.cons_append,
        List.getElem?_cons_zero]
    have htake : ((walk (L.stepAt (laid reply.flatten io.garbage)) (n + 1) sizeofEnqueue).map
        (Ptr.mk z.nextBuf) ++ rest).take (n + 1) =
          (walk (L.stepAt (laid reply.flatten io.garbage)) (n + 1) sizeofEnqueue).map
            (Ptr.mk z.nextBuf) :=
      List.take_left' (by rw [List.length_map, hlen])
    rw [hnext]
    constructor
    · rintro ⟨_, _, _, arr, harr, _, hwithin⟩
      refine ⟨Nat.succ_pos n, fun o ho => ?_⟩
      cases Option.some.inj (harr.symm.trans hrest)
      rw [show ({ z₁ with recNxt := 1 } : PxCache).recCnt = n + 1 from hcnt, htake] at hwithin
      obtain ⟨_, m, hm, hle⟩ := hwithin _ (List.mem_map_of_mem ho)
      cases Option.some.inj (hm.symm.trans hfilled.heap)
      exact hle
    · rintro ⟨_, hwithin⟩
      refine ⟨hcode, rfl, ?_, _, hrest, ?_, ?_⟩
      · show 1 ≤ z₁.recCnt
        omega
      · show z₁.recCnt ≤ _
        rw [hcnt, List.length_append, List.length_map, hlen]
        exact Nat.le_add_right _ _
      · rw [show ({ z₁ with recNxt := 1 } : PxCache).recCnt = n + 1 from hcnt, htake]
        intro p hp
        obtain ⟨o, ho, rfl⟩ := List.mem_map.mp hp
        exact ⟨rfl, _, hfilled.heap, hwithin o ho⟩

theorem enqueue_robust (h : Answered io z reply) (hhdr : ¬ reply.flatten.length < sizeofHdr)
    (hop : rpcOpType (leField reply.flatten 0 4) = some .enqueue) :
    ∃ r, recvReply L io z reply = some r ∧
      (Robust L z reply.flatten r ↔ reply.flatten.length < sizeofEnqueue + L.sizeofRec ∨
        (z.recCnt < prCount reply.flatten ∧ io.grow = false) ∨
          (0 < prCount reply.flatten ∧ HasRoom io z (prCount reply.flatten) ∧
            Carries L (prCount reply.flatten) (reply.flatten.drop sizeofEnqueue))) := by
  by_cases hshort : reply.flatten.length < sizeofEnqueue + L.sizeofRec
  · have hr : handleReply L io z reply =
        .ok ((z.malloc (laid reply.flatten io.garbage)).free z.nextBuf, -EINVAL) := by
      simp only [handleReply, h.received]
      rw [if_neg (by omega), if_neg (by omega)]
      simp only [hop]
      rw [if_pos (by omega)]
    obtain ⟨r, hrecv, hrob⟩ := robust_of_failed h hr (Int.ne_of_lt einval_neg) rfl rfl
      rfl (.inl rfl)
    exact ⟨r, hrecv, iff_of_true hrob (.inl hshort)⟩
  have hlong := Nat.le_of_not_lt hshort
  by_cases hroom : HasRoom io z (prCount reply.flatten)
  · obtain ⟨r, hrecv, hrob⟩ := with_room (L := L) h hop hlong hroom
    refine ⟨r, hrecv, hrob.trans ⟨fun h => .inr (.inr ⟨h.1, hroom, h.2⟩), ?_⟩⟩
    rintro (hlt | ⟨hgt, hgrow⟩ | ⟨hpos, _, hcarries⟩)
    · exact absurd hlt hshort
    · rcases hroom with ⟨_, htrue⟩ | ⟨hle, _⟩
      · exact absurd (hgrow.symm.trans htrue) Bool.false_ne_true
      · exact absurd hgt (Nat.not_lt.mpr hle)
    · exact ⟨hpos, hcarries⟩
  · obtain ⟨r, hrecv, hrob⟩ := no_room (L := L) h hop hlong hroom
    refine ⟨r, hrecv, hrob.trans ⟨fun hfull => .inr (.inl hfull), ?_⟩⟩
    rintro (hlt | hfull | ⟨_, hhas, _⟩)
    · exact absurd hlt hshort
    · exact hfull
    · exact absurd hhas hroom

theorem short_safe (hhdr : bytes.length < sizeofHdr) : SafeReply L io z bytes := by
  have hack : bytes.length < sizeofAck := Nat.lt_trans hhdr (by decide)
  unfold SafeReply
  split
  · exact .inl hack
  · exact .inl (Nat.lt_of_lt_of_le hack (Nat.le_add_right _ _))
  · trivial

/-- The client is safe with a reply exactly when the reply is not one of these: an ACK
that tells success, or an ENQUEUE that does not carry what it says or whose records the
array has no room for. -/
theorem decoding_robust_iff (h : Answered io z reply) :
    ∃ r, recvReply L io z reply = some r ∧
      (Robust L z reply.flatten r ↔ SafeReply L io z reply.flatten) := by
  by_cases hhdr : reply.flatten.length < sizeofHdr
  · obtain ⟨r, hrecv, hrob⟩ := dropped_robust (L := L) h (.inl hhdr)
    exact ⟨r, hrecv, iff_of_true hrob (short_safe hhdr)⟩
  unfold SafeReply
  split
  · exact ack_robust h hhdr ‹_›
  · exact enqueue_robust h hhdr ‹_›
  · obtain ⟨r, hrecv, hrob⟩ := dropped_robust (L := L) h (.inr ⟨‹_›, ‹_›⟩)
    exact ⟨r, hrecv, iff_of_true hrob trivial⟩

end

namespace Sample

def oneRecord : Parts UInt8 :=
  [(packRecords [rawRecord 1]).take 20, (packRecords [rawRecord 1]).drop 20]

/-- A message that says to carry two records, and carries one. -/
def overcounted : Parts UInt8 := [packHdr .enqueue ++ leBytes 4 2 ++ rawRecord 1]

def success : Parts UInt8 := [packHdr .ack ++ leBytes 4 0]

end Sample

set_option maxRecDepth 2000 in
theorem decoding_robust_iff_one :
    ∃ r, recvReply Sample.layout {} pzdInit Sample.oneRecord = some r ∧
      Robust Sample.layout pzdInit Sample.oneRecord.flatten r := by
  have h : Answered {} pzdInit Sample.oneRecord := ⟨rfl, rfl, rfl, fun _ => rfl, by decide +kernel⟩
  obtain ⟨r, hrecv, hrob⟩ := decoding_robust_iff (L := Sample.layout) h
  have hop : rpcOpType (leField Sample.oneRecord.flatten 0 4) = some .enqueue := by decide +kernel
  have hcnt : prCount Sample.oneRecord.flatten = 1 := by decide +kernel
  refine ⟨r, hrecv, hrob.mpr ?_⟩
  simp only [SafeReply, hop, hcnt]
  exact .inr (.inr ⟨Nat.one_pos, .inl ⟨Nat.one_pos, rfl⟩, by decide +kernel⟩)

set_option maxRecDepth 2000 in
/-- Two records are counted where the bytes of one have been received, and an ACK that
tells success makes the client hand out a record of no message at all. -/
theorem decoding_trusts_count_and_ack :
    (∃ r, recvReply Sample.layout {} pzdInit Sample.overcounted = some r ∧
      ¬ Robust Sample.layout pzdInit Sample.overcounted.flatten r) ∧
    ∃ r, recvReply Sample.layout {} pzdInit Sample.success = some r ∧
      ¬ Robust Sample.layout pzdInit Sample.success.flatten r := by
  constructor
  · have h : Answered {} pzdInit Sample.overcounted :=
      ⟨rfl, rfl, rfl, fun _ => rfl, by decide +kernel⟩
    obtain ⟨r, hrecv, hrob⟩ := with_room (L := Sample.layout) h (by decide +kernel)
      (by decide +kernel) (.inl ⟨by decide +kernel, rfl⟩)
    refine ⟨r, hrecv, fun h => ?_⟩
    have hcarries : ¬ Carries Sample.layout (prCount Sample.overcounted.flatten)
        (Sample.overcounted.flatten.drop sizeofEnqueue) := by decide +kernel
    exact hcarries (hrob.mp h).2
  · have h : Answered {} pzdInit Sample.success := ⟨rfl, rfl, rfl, fun _ => rfl, by decide +kernel⟩
    obtain ⟨r, hrecv, hrob⟩ := ack_robust (L := Sample.layout) h (by decide +kernel)
      (by decide +kernel)
    refine ⟨r, hrecv, fun h => ?_⟩
    rcases hrob.mp h with hlt | hne
    · exact absurd hlt (by decide +kernel)
    · exact hne (by decide +kernel)

end Lcap.Proofs
