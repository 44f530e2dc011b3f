import Lcap.Proofs.Accounting
import Lcap.Proofs.PrefixClear
import Lcap.Proofs.Seats

namespace Lcap.Proofs
open Reader Client Systems

/-- `llapi_changelog_clear` has failed between two histories. -/
def UpstreamFails (s t : ReaderEnv) : Prop :=
  ∃ post dev cli endrec rc, t.trace = s.trace ++ post ∧ .cleared dev cli endrec rc ∈ post ∧ rc < 0

/-- It has succeeded for a bucket, up to the bucket's last record. -/
def ClearedBetween (s t : ReaderEnv) (p : Nat) : Prop :=
  ∃ post dev cli rc, t.trace = s.trace ++ post ∧ .cleared dev cli (lastIndex s p) rc ∈ post ∧ 0 ≤ rc

/-- What was not cleared is still there, and still counted. -/
structure UnclearedKept (s t : ReaderEnv) : Prop where
  kept : ∀ p ∈ s.reBuckets, ¬ ClearedBetween s t p →
    p ∈ t.reBuckets ∧ (t.mem p).lrbRecords = (s.mem p).lrbRecords
  counted : t.reRecCnt = listedRecords t

/-- The repeated CLEAR goes upstream again and is acknowledged. -/
def RetrySucceeds (s : ReaderEnv) (req : LcapnetRequest) (io : RpcIo) : Prop :=
  ∃ t rc post, changelogReaderRpcHdl s req io = .ok (t, rc) ∧ t.trace = s.trace ++ post ∧
    (∃ dev cli endrec rc, .cleared dev cli endrec rc ∈ post) ∧
    .sent req.lrForward none (.ack 0) 0 ∈ post

/-- A CLEAR that took `s` to `t` can be retried: nothing is lost by it, and the same
client's next CLEAR, in a state `t'` the others have made of `t`, does the work. -/
structure Retriable (s t t' : ReaderEnv) (req : LcapnetRequest) (io : RpcIo) : Prop where
  kept : UnclearedKept s t
  retry : RetrySucceeds t' req io

/-! ## The failed CLEAR -/

/-- Only the head is ever passed upstream, so the call that failed was the only one. -/
theorem failed_of_upstream (hn : s.reBuckets.Nodup) (hop : req.WellFormed .clear)
    (hh : Holds s req.lrForward bkt) (hd : changelogReaderRpcHdl s req io = .ok (t, rc))
    (hfail : UpstreamFails s t) :
    ∃ endrec, t = answered (logClear (acknowledgeBucket s req.lrForward bkt) endrec (io.clearRc 0))
      req io (io.clearRc 0) ∧ io.clearRc 0 < 0 := by
  obtain ⟨u, r, hserved, rfl⟩ := request_served hn hd
  obtain ⟨post, dev, cli, endrec, rc', ht, hmem, hneg⟩ := hfail
  -- the events of the step that are no answer
  have hpart : ∀ part, u.trace = s.trace ++ part → .cleared dev cli endrec rc' ∈ part := by
    intro part hu
    unfold answered at ht
    split at ht
    · simp only [logAck, ReaderEnv.log, hu, List.append_assoc, List.append_cancel_left_eq] at ht
      subst ht
      simpa using hmem
    · rw [hu, List.append_cancel_left_eq] at ht
      exact ht ▸ hmem
  cases hserved with
  | refused _ hno => exact absurd (.inr ⟨hop, hh.known⟩) hno
  | registered hop' _ | deregistered hop' _ | eof hop' _ _ | unopened hop' _ _ _ _
  | unpacked hop' _ _ _ _ | delivered hop' _ _ _ _ _ => cases hop.unique hop'
  | vacuous _ hi => exact absurd hi hh.not_idle
  | @pending bkt' head _ _ _ _ =>
    have hm := hpart [.acknowledged req.lrForward (s.mem bkt').lrbIndex,
      .sent req.lrForward none (.ack 0) (sendRc io.send)]
      (by simp [logAck, acknowledgeBucket, ReaderEnv.log])
    simp at hm
  | failed _ hh' _ _ _ hrc =>
    cases hh.unique hh'
    exact ⟨_, rfl, hrc⟩
  | @purged bkt' head endrec' _ _ _ _ _ hrc _ =>
    have hm := hpart [.acknowledged req.lrForward (s.mem bkt').lrbIndex,
      .cleared (readerDevice s) s.reCfg.ccfClreader endrec' (io.clearRc 0),
      .destroyed ((acknowledgeBucket s req.lrForward bkt').mem head).lrbIndex,
      .sent req.lrForward none (.ack 0) (sendRc io.send)]
      (by simp [logAck, logClear, recBucketDestroy, acknowledgeBucket, ReaderEnv.log, readerDevice])
    simp only [List.mem_cons, List.not_mem_nil, reduceCtorEq, Event.cleared.injEq, or_false,
      false_or] at hm
    omega

/-- It leaves every bucket where it is, and the count of the records. -/
theorem failed_clear_keeps_uncleared (hn : s.reBuckets.Nodup) (hcnt : s.reRecCnt = listedRecords s)
    (hop : req.WellFormed .clear) (hh : Holds s req.lrForward bkt)
    (hd : changelogReaderRpcHdl s req io = .ok (t, rc)) (hfail : UpstreamFails s t) :
    UnclearedKept s t := by
  obtain ⟨endrec, rfl, hneg⟩ := failed_of_upstream hn hop hh hd hfail
  have hstep : ∀ u, u.reBuckets = s.reBuckets ∧
      u.mem = (acknowledgeBucket s req.lrForward bkt).mem ∧
      u.reRecCnt = s.reRecCnt → UnclearedKept s u := by
    rintro u ⟨hb, hm, hc⟩
    refine ⟨?_, ?_⟩
    · intro p hp _
      refine ⟨hb ▸ hp, ?_⟩
      rw [hm]
      exact ((SameRecords.acknowledge s req.lrForward bkt).quiet.contents p).1
    · rw [hc, hcnt]
      refine (listed_congr hb fun p _ => ?_).symm
      rw [hm]
      exact ((SameRecords.acknowledge s req.lrForward bkt).quiet.contents p).1
  apply hstep
  apply answered_preserve (P := fun u => u.reBuckets = s.reBuckets ∧
    u.mem = (acknowledgeBucket s req.lrForward bkt).mem ∧ u.reRecCnt = s.reRecCnt)
  · exact fun _ _ _ hu => hu
  · exact ⟨rfl, rfl, rfl⟩

/-! ## The repeated one -/

/-- The client has given its bucket up, whatever came of the clearing. -/
theorem idle_after_failed (hh : Holds s cid bkt) (endrec rc : Int) :
    Idle (logClear (acknowledgeBucket s cid bkt) endrec rc) cid :=
  acknowledge_idle hh

theorem idle_answered (hi : Idle s cid) : Idle (answered s req io rc) cid :=
  answered_preserve (P := (Idle · cid)) (fun _ _ _ h => h) hi rc

/-- What other clients do in the meantime does not give it back. -/
theorem idle_of_others (hshape : Shape s) (hi : Idle s cid)
    (hs : Steps (reader cfg idx) (fun _ l => IsOther cid l) s t) : Shape t ∧ Idle t cid := by
  apply hs.preserve (P := fun t => Shape t ∧ Idle t cid) ⟨hshape, hi⟩
  intro u l v ⟨hu, hiu⟩ ho hstep
  exact ⟨step_shape hu hstep, hiu.congr (Unseen.step hu ho hstep).seat⟩

/-- A CLEAR without a bucket does nothing at all. -/
theorem idle_clear_nothing (hn : s.reBuckets.Nodup) (hop : req.WellFormed .clear)
    (hi : Idle s req.lrForward) (hd : changelogReaderRpcHdl s req io = .ok (t, rc)) : t = s := by
  obtain ⟨u, r, hserved, rfl⟩ := request_served hn hd
  cases hserved with
  | refused _ hno => exact absurd (.inr ⟨hop, hi.known⟩) hno
  | registered hop' _ | deregistered hop' _ | eof hop' _ _ | unopened hop' _ _ _ _
  | unpacked hop' _ _ _ _ | delivered hop' _ _ _ _ _ => cases hop.unique hop'
  | vacuous _ _ => simp [answered]
  | pending _ hh _ _ | failed _ hh _ _ _ _ | purged _ hh _ _ _ _ _ => exact absurd hi hh.not_idle

/-- No failed CLEAR can be retried by its client: the bucket is no longer its own, and
the second request ends before the upstream call, without an answer. -/
theorem failed_clear_not_retriable (h : Reach (reader cfg idx) Always s)
    (hop : req.WellFormed .clear) (hh : Holds s req.lrForward bkt)
    (hd : changelogReaderRpcHdl s req io = .ok (t, rc)) (hfail : UpstreamFails s t)
    (hs : Steps (reader cfg idx) (fun _ l => IsOther req.lrForward l) t t')
    (hop' : req'.WellFormed .clear) (hid : req'.lrForward = req.lrForward) :
    ¬ Retriable s t t' req' io' := by
  have hshape := reach_shape h
  obtain ⟨endrec, rfl, _⟩ := failed_of_upstream hshape.nodup hop hh hd hfail
  have ht : Shape (answered (logClear (acknowledgeBucket s req.lrForward bkt) endrec (io.clearRc 0))
      req io (io.clearRc 0)) := ((hshape.acknowledge _ _).log _).answered
  obtain ⟨ht', hidle⟩ := idle_of_others ht (idle_answered (idle_after_failed hh endrec _)) hs
  intro hretried
  obtain ⟨_, u, rc', post, hu, htr, ⟨dev, cli, e, r, hm⟩, _⟩ := hretried
  have hsame := idle_clear_nothing ht'.nodup hop' (hid ▸ hidle) hu
  rw [hsame, List.self_eq_append_right] at htr
  simp [htr] at hm

namespace Sample

/-- One record, delivered to its client. -/
def delivered : List Label :=
  [read [record 1], .request (start [1]) (calm 5), .request (dequeue [1]) (calm 5)]

/-- A world in which `llapi_changelog_clear` fails. -/
def clearFails (t : Nat) : RpcIo := { calm t with clearRc := fun _ => -5 }

def failedClear : ReaderEnv := after (delivered ++ [.request (clear [1]) (clearFails 6)])

set_option maxRecDepth 2000 in
theorem failed_clear_upstream : UpstreamFails (after delivered) failedClear :=
  ⟨[.acknowledged [1] 0, .cleared "lustre-MDT0000" "cl1" 1 (-5), .sent [1] none (.ack (-5)) 0],
    "lustre-MDT0000", "cl1", 1, -5, rfl, by simp, by decide⟩

end Sample

set_option maxRecDepth 2000 in
theorem failed_clear_not_retriable_delivered :
    ¬ Retriable (Sample.after Sample.delivered) Sample.failedClear Sample.failedClear
      (Sample.clear [1]) (Sample.calm 7) :=
  failed_clear_not_retriable (Sample.reach_after (by decide +kernel)) (by decide) ⟨_, rfl, rfl⟩
    (show changelogReaderRpcHdl _ _ (Sample.clearFails 6) = .ok (Sample.failedClear, 0) from rfl)
    Sample.failed_clear_upstream .refl (by decide) rfl

set_option maxRecDepth 2000 in
/-- The second CLEAR finds no bucket: nothing is cleared and nothing is answered,
although the bucket is still there and ready. -/
theorem retried_clear_does_nothing :
    Reach (reader Sample.cfg 0) Always Sample.failedClear ∧
      UpstreamFails (Sample.after Sample.delivered) Sample.failedClear ∧
      Sample.failedClear.reBuckets = [0, 1] ∧ (Sample.failedClear.mem 0).lrbReady = true ∧
      changelogReaderRpcHdl Sample.failedClear (Sample.clear [1]) (Sample.calm 7) =
        .ok (Sample.failedClear, 0) ∧
      ¬ RetrySucceeds Sample.failedClear (Sample.clear [1]) (Sample.calm 7) := by
  have hr : changelogReaderRpcHdl Sample.failedClear (Sample.clear [1]) (Sample.calm 7) =
      .ok (Sample.failedClear, 0) := rfl
  refine ⟨Sample.reach_after (by decide +kernel), Sample.failed_clear_upstream, rfl, rfl, hr, ?_⟩
  intro hretried
  obtain ⟨t, rc, post, he, htr, _, hm⟩ := hretried
  cases hr.symm.trans he
  rw [List.self_eq_append_right] at htr
  simp [htr] at hm

end Lcap.Proofs
