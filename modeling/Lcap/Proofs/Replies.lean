import Lcap.Proofs.Filing
import Lcap.Proofs.Acknowledged

namespace Lcap.Proofs
open Reader Systems

theorem messages_append (a b : List Event) : messages (a ++ b) = messages a ++ messages b :=
  List.filterMap_append

/-- The handler comes back, having sent one message, to the requester. -/
def RepliesOnce (s : ReaderEnv) (req : LcapnetRequest) (io : RpcIo) : Prop :=
  ∃ t rc msg, changelogReaderRpcHdl s req io = .ok (t, rc) ∧
    messages t.trace = messages s.trace ++ [(req.lrForward, msg)]

/-- A CLEAR from a registered client that holds no bucket. -/
def VacuousClear (s : ReaderEnv) (req : LcapnetRequest) : Prop :=
  req.WellFormed .clear ∧ Idle s req.lrForward

/-- A DEQUEUE that packs the freed records of a released bucket. It does not where that
one is still open for insert and `calloc` clears its block for the next bucket. -/
def PacksReleased (s : ReaderEnv) (req : LcapnetRequest) (io : RpcIo) : Prop :=
  req.WellFormed .dequeue ∧ Idle s req.lrForward ∧ io.rpcAlloc = true ∧
    ∃ bkt, offered s io = some bkt ∧ 0 < (s.mem bkt).freed ∧
      (some bkt = s.reCurrentOpen → io.bktAlloc = true ∧ callocBlock s io.bktBlock ≠ bkt)

/-- A CLEAR that reads the released head ready, and its last record, or releases it again. -/
def ClearsReleased (s : ReaderEnv) (req : LcapnetRequest) (io : RpcIo) : Prop :=
  req.WellFormed .clear ∧ ∃ head bkt, s.reCleanupNext = some head ∧ head ∉ s.reBuckets ∧
    Holds s req.lrForward bkt ∧ (io.garbage.afterAck s bkt).lrbReady = true ∧
    (((s.mem head).lrbRecords ≠ [] ∧ (s.mem head).lrbRecords.length ≤ (s.mem head).freed) ∨
      0 ≤ io.clearRc 0)

/-- The request goes through a pointer to a bucket that has been released. -/
def ReadsReleased (s : ReaderEnv) (req : LcapnetRequest) (io : RpcIo) : Prop :=
  PacksReleased s req io ∨ ClearsReleased s req io

/-! ## When the reader does not come back -/

theorem bind_error {x : Except Halt β} {f : β → Except Halt γ} (h : x >>= f = .error e) :
    x = .error e ∨ ∃ b, x = .ok b ∧ f b = .error e := by
  cases x with
  | error e' => exact .inl (by cases h; rfl)
  | ok b => exact .inr ⟨b, rfl, h⟩

theorem get_total (hc : s.reCleanupNext = some head) (io : RpcIo) :
    ∃ t b, recBucketGet s io = .ok (t, b) := by
  simp only [recBucketGet, hc, pure, Except.pure]
  split
  · exact ⟨_, _, rfl⟩
  · split <;> exact ⟨_, _, rfl⟩

theorem enqueue_error (h : enqueueRec s cid bkt io = .error e) :
    io.rpcAlloc = true ∧ 0 < (s.mem bkt).freed := by
  unfold enqueueRec at h
  simp only [pure, Except.pure] at h
  split at h
  · cases h
  · rename_i ha
    split at h
    · rename_i hl
      exact ⟨by simpa using ha, hl⟩
    · cases h

/-- The pointers to the records of a bucket that is handed out: those of the new bucket,
if this one is replaced and its block is cleared for that. -/
theorem sealed_freed (hf : Fetch s io t (some p)) :
    ((sealOpen t p io).mem p).freed =
      if some p = s.reCurrentOpen ∧ callocBlock s io.bktBlock = p then 0 else (s.mem p).freed := by
  obtain ⟨hidx, hbkts, _, ho, _, hm⟩ := fetch_frame hf
  have hblock : callocBlock t io.bktBlock = callocBlock s io.bktBlock := by
    unfold callocBlock
    rw [hidx, hbkts]
  rw [seal_open_self, ho, hblock, ← hm.freed]
  split <;> rfl

theorem dequeue_error (hshape : Shape s) (hop : req.WellFormed .dequeue)
    (h : readerHandleDequeue s req io = .error e) : PacksReleased s req io := by
  unfold readerHandleDequeue at h
  simp only [pure, Except.pure] at h
  split at h
  · cases h
  split at h
  case h_2 => cases h
  rename_i cs hcs
  split at h
  · cases h
  rename_i hb
  obtain ⟨u, b, hg⟩ := get_total hshape.cleanup io
  have hf := fetch_of_get hg
  rw [hg] at h
  simp only [bind, Except.bind] at h
  split at h
  case h_2 => cases h
  rename_i bkt
  have hsealed : enqueueRec (assignBucket (sealOpen u bkt io) req.lrForward bkt) req.lrForward
      bkt io = .error e ∧ (some bkt = u.reCurrentOpen → io.bktAlloc = true) := by
    unfold sealOpen
    by_cases ho : some bkt = u.reCurrentOpen
    · simp only [if_pos ho, recBucketAdd] at h ⊢
      cases ha : io.bktAlloc with
      | false => simp [ha, ENOMEM] at h
      | true => exact ⟨by simpa [ha] using h, fun _ => rfl⟩
    · exact ⟨by simpa [if_neg ho] using h, fun h => absurd h ho⟩
  obtain ⟨he, halloc⟩ := hsealed
  obtain ⟨ha, hfreed⟩ := enqueue_error he
  have hfreed : 0 < ((sealOpen u bkt io).mem bkt).freed := hfreed
  rw [sealed_freed hf] at hfreed
  split at hfreed
  · exact absurd hfreed (Nat.lt_irrefl 0)
  · rename_i hkept
    rw [(fetch_frame hf).2.2.2.1] at halloc
    exact ⟨hop, ⟨cs, hcs, by simpa using hb⟩, ha, bkt, offered_of_fetch hf, hfreed,
      fun ho => ⟨halloc ho, fun hc => hkept ⟨ho, hc⟩⟩⟩

theorem max_index_error (h : recBucketMaxIndex s bkt = .error e) :
    (s.mem bkt).lrbRecords ≠ [] ∧ (s.mem bkt).lrbRecords.length ≤ (s.mem bkt).freed := by
  unfold recBucketMaxIndex at h
  split at h
  · cases h
  · rename_i r hr
    split at h
    · cases h
    · rename_i hl
      refine ⟨?_, Nat.le_of_not_lt hl⟩
      intro hnil
      simp [hnil] at hr

theorem clear_error (hshape : Shape s) (hop : req.WellFormed .clear)
    (h : readerHandleClear s req io = .error e) : ClearsReleased s req io := by
  unfold readerHandleClear at h
  simp only [pure, Except.pure] at h
  split at h
  · cases h
  split at h
  case h_2 => cases h
  rename_i cs hcs
  split at h
  case h_2 => cases h
  rename_i bkt hb
  have hcl : (acknowledgeBucket s req.lrForward bkt).reCleanupNext = some 0 := hshape.cleanup
  simp only [hcl] at h
  rcases bind_error h with h | ⟨⟨u, r⟩, _, h⟩
  · unfold clearLoop at h
    simp only [pure, Except.pure] at h
    split at h
    · cases h
    rename_i hr
    simp only [Bool.not_eq_eq_eq_not, Bool.not_true, Bool.not_eq_false] at hr
    have hready : 0 ∉ s.reBuckets → (io.garbage.afterAck s bkt).lrbReady = true := by
      intro hdead
      rw [lrbReady, if_neg (show 0 ∉ (acknowledgeBucket s req.lrForward bkt).reBuckets from hdead)]
        at hr
      exact hr
    suffices hrel : 0 ∉ s.reBuckets ∧ (((s.mem 0).lrbRecords ≠ [] ∧
        (s.mem 0).lrbRecords.length ≤ (s.mem 0).freed) ∨ 0 ≤ io.clearRc 0) from
      ⟨hop, 0, bkt, hshape.cleanup, hrel.1, ⟨cs, hcs, hb⟩, hready hrel.1, hrel.2⟩
    rcases bind_error h with h | ⟨endrec, _, h⟩
    · have hself : { acknowledgeBucket s req.lrForward bkt with reCleanupNext := some 0 } =
          acknowledgeBucket s req.lrForward bkt := by rw [← hcl]
      rw [hself, max_index_acknowledge] at h
      obtain ⟨hne, hle⟩ := max_index_error h
      refine ⟨fun hlive => ?_, .inl ⟨hne, hle⟩⟩
      rw [(hshape.listed 0 hlive).2] at hle
      exact hne (List.length_eq_zero_iff.mp (Nat.eq_zero_of_le_zero hle))
    · split at h
      · cases h
      rename_i hrc
      split at h
      · rename_i hdead
        exact ⟨by simpa [acknowledgeBucket, ReaderEnv.log] using hdead, .inr (by omega)⟩
      · rw [clear_loop_stops (by exact hshape.nodup)] at h
        cases h
  · split at h <;> cases h

theorem dispatch_error (hshape : Shape s) (h : rpcDispatch s req io = .error e) :
    ReadsReleased s req io := by
  unfold rpcDispatch at h
  split at h
  · cases h
  rename_i hlen
  split at h
  · cases h
  rename_i op hcode
  have hop : ∀ n, ¬ req.lrBody.length < n → n ≤ req.lrBody.length := fun n => Nat.le_of_not_lt
  cases op with
  | dequeue =>
    refine .inl (dequeue_error hshape ⟨hop _ hlen, hcode, hop _ ?_⟩ h)
    intro hshort
    have hshort : req.lrBody.length < sizeofDequeue := hshort
    simp [rpcHandleOne, readerHandleDequeue, hshort, pure, Except.pure] at h
  | clear =>
    refine .inr (clear_error hshape ⟨hop _ hlen, hcode, hop _ ?_⟩ h)
    intro hshort
    have hshort : req.lrBody.length < sizeofClear := hshort
    simp [rpcHandleOne, readerHandleClear, hshort, pure, Except.pure] at h
  | start | fini | enqueue | ack | signal => cases h

/-- A request that goes through a pointer to a released bucket does not come back. -/
theorem reads_released_halts (hshape : Shape s) (h : ReadsReleased s req io) :
    rpcDispatch s req io ≠ .ok (t, rc) := by
  intro hr
  rcases h with ⟨hop, hi, ha, p, hoff, hfreed, hopen⟩ |
    ⟨hop, head, bkt, hc, hdead, hh, hready, hwhy⟩
  · cases dispatch_served hshape.nodup hr with
    | refused _ hno => exact hno (.inl ⟨hop, hi⟩)
    | registered hop' _ | deregistered hop' _ | vacuous hop' _ | pending hop' _ _ _
    | failed hop' _ _ _ _ _ | purged hop' _ _ _ _ _ _ => cases hop.unique hop'
    | eof _ _ hf => cases hoff.symm.trans (offered_of_fetch hf)
    | unopened _ _ hf ho ha' =>
      cases hoff.symm.trans (offered_of_fetch hf)
      rw [(fetch_frame hf).2.2.2.1] at ho
      cases ha'.symm.trans (hopen ho).1
    | unpacked _ _ _ _ ha' =>
      rw [ha] at ha'
      cases ha'
    | @delivered u q _ _ hf _ _ hl =>
      cases hoff.symm.trans (offered_of_fetch hf)
      rw [sealed_freed hf, if_neg fun hc => (hopen hc.1).2 hc.2] at hl
      omega
  · have hr' : lrbReady (acknowledgeBucket s req.lrForward bkt) (io.garbage.afterAck s bkt) head =
        true := by
      rw [lrbReady,
        if_neg (show head ∉ (acknowledgeBucket s req.lrForward bkt).reBuckets from hdead)]
      exact hready
    cases dispatch_served hshape.nodup hr with
    | refused _ hno => exact hno (.inr ⟨hop, hh.known⟩)
    | registered hop' _ | deregistered hop' _ | eof hop' _ _ | unopened hop' _ _ _ _
    | unpacked hop' _ _ _ _ | delivered hop' _ _ _ _ _ => cases hop.unique hop'
    | vacuous _ hi => exact hh.not_idle hi
    | pending _ hh' hc' hnr =>
      cases hh.unique hh'
      cases hc.symm.trans hc'
      rw [hr'] at hnr
      cases hnr
    | failed _ hh' hc' _ he hrc =>
      cases hc.symm.trans hc'
      rcases hwhy with ⟨hne, hle⟩ | hpos
      · rcases max_index_cases he with ⟨hnil, _⟩ | ⟨_, _, hlive, _⟩
        · exact hne hnil
        · omega
      · omega
    | purged _ _ hc' _ _ _ hl =>
      cases hc.symm.trans hc'
      exact hdead hl

/-! ## The messages of a request -/

theorem sent_messages (tr : List Event) (dst : ConnId) (bkt : Option Nat) (msg : Reply)
    (hout : out = none) :
    messages (tr ++ [.sent dst bkt msg (sendRc out)]) = messages tr ++ [(dst, msg)] := by
  rw [messages_append, hout]
  rfl

theorem fetch_messages (hf : Fetch s io t b) : messages t.trace = messages s.trace := by
  rw [(fetch_frame hf).2.2.2.2.1]

theorem give_messages (hf : Fetch s io t (some p)) (cid : ConnId) :
    messages (assignBucket (sealOpen t p io) cid p).trace = messages s.trace := by
  have hseal : messages (sealOpen t p io).trace = messages t.trace := by
    unfold sealOpen
    split
    · simp [openBucket, messages, messageOf]
    · rfl
  simp only [assignBucket, messages_append, hseal, fetch_messages hf]
  simp [messages, messageOf]

/-- With the sends succeeding, a handler that returns zero has replied, but for a
CLEAR that finds nothing to clear, and one that returns something else has not. -/
theorem served_messages (hs : Served s req io t rc) (hsend : io.send = none) :
    (∃ msg, rc = 0 ∧ messages t.trace = messages s.trace ++ [(req.lrForward, msg)]) ∨
      ((rc < 0 ∨ rc = 1) ∧ messages t.trace = messages s.trace) ∨
      (VacuousClear s req ∧ rc = 0 ∧ t = s) := by
  have hrc : sendRc io.send = 0 := by rw [hsend]; rfl
  cases hs with
  | refused hneg _ => exact .inr (.inl ⟨.inl hneg, rfl⟩)
  | registered _ _ => exact .inl ⟨.ack 0, hrc, sent_messages _ _ _ _ hsend⟩
  | deregistered _ _ => exact .inl ⟨.ack 0, hrc, sent_messages _ _ _ _ hsend⟩
  | eof _ _ _ => exact .inr (.inl ⟨.inr rfl, rfl⟩)
  | unopened _ _ hf _ _ => exact .inr (.inl ⟨.inl enomem_neg, fetch_messages hf⟩)
  | unpacked _ _ hf _ _ => exact .inr (.inl ⟨.inl enomem_neg, give_messages hf _⟩)
  | @delivered u p _ _ hf _ _ _ =>
    refine .inl ⟨packEnqueue ((sealOpen u p io).mem p), hrc, ?_⟩
    rw [← give_messages hf req.lrForward]
    exact sent_messages _ _ _ _ hsend
  | vacuous hop hi => exact .inr (.inr ⟨⟨hop, hi⟩, rfl, rfl⟩)
  | pending _ _ _ _ =>
    refine .inl ⟨.ack 0, hrc, (sent_messages _ _ _ _ hsend).trans ?_⟩
    simp [acknowledgeBucket, messages, messageOf]
  | failed _ _ _ _ _ hneg =>
    refine .inr (.inl ⟨.inl hneg, ?_⟩)
    simp [acknowledgeBucket, logClear, ReaderEnv.log, messages, messageOf]
  | purged _ _ _ _ _ _ _ =>
    refine .inl ⟨.ack 0, hrc, (sent_messages _ _ _ _ hsend).trans ?_⟩
    simp [acknowledgeBucket, logClear, recBucketDestroy, ReaderEnv.log, messages, messageOf]

theorem hdl_eq (hd : rpcDispatch s req io = .ok (t, rc)) :
    ∃ rc', changelogReaderRpcHdl s req io = .ok (answered t req io rc, rc') := by
  unfold changelogReaderRpcHdl answered
  simp only [hd, pure, Except.pure, bind, Except.bind]
  split
  · exact ⟨_, rfl⟩
  · exact ⟨_, rfl⟩

namespace Sample

/-- A client that has registered, and has received nothing yet. -/
def registered : List Label := [read [record 1], .request (start [1]) (calm 5)]

end Sample

end Lcap.Proofs
