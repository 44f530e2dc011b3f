import Lcap.Proofs.Cursors
import Lcap.Proofs.Replies

namespace Lcap.Proofs
open Reader Systems

/-- A call of `llapi_changelog_clear`, without its result. -/
def upstreamCall : Event → Option (String × String × Int)
  | .cleared dev cli endrec _ => some (dev, cli, endrec)
  | _ => none

def destroyedBucket : Event → Option Nat
  | .destroyed bkt => some bkt
  | _ => none

/-- The index of a bucket's last record, as `rec_bucket_max_index` gives it. -/
def lastIndex (s : ReaderEnv) (bkt : Nat) : Int :=
  match (s.mem bkt).lrbRecords.getLast? with
  | none => -1
  | some rec => rec.crIndex

/-- The ready buckets at the head of the list. -/
def readyRun (s : ReaderEnv) : List Nat := s.reBuckets.takeWhile (fun p => (s.mem p).lrbReady)

/-- The buckets from the first one that is not ready. -/
def unreadyRest (s : ReaderEnv) : List Nat := s.reBuckets.dropWhile (fun p => (s.mem p).lrbReady)

/-- `t` is what a CLEAR of `bkt` should make of `s`: the bucket becomes ready, and
the ready run at the head goes upstream and off the list. -/
structure PurgesPrefix (s : ReaderEnv) (cid : ConnId) (bkt : Nat) (t : ReaderEnv) : Prop where
  ready : (t.mem bkt).lrbReady = true
  calls : t.trace.filterMap upstreamCall = s.trace.filterMap upstreamCall ++
    (readyRun (acknowledgeBucket s cid bkt)).map
      (fun p => (readerDevice s, s.reCfg.ccfClreader, lastIndex s p))
  destroyed : t.trace.filterMap destroyedBucket =
    s.trace.filterMap destroyedBucket ++
      (readyRun (acknowledgeBucket s cid bkt)).map (fun p => (s.mem p).lrbIndex)
  slots : t.reRecCnt =
    s.reRecCnt - ((readyRun (acknowledgeBucket s cid bkt)).map (lrbRecCount s)).sum
  rest : t.reBuckets = unreadyRest (acknowledgeBucket s cid bkt)
  contents : ∀ p ∈ t.reBuckets, t.mem p = (acknowledgeBucket s cid bkt).mem p
  cleanup : t.reCleanupNext = t.reBuckets.head?

/-! ## A CLEAR by the holder of a bucket -/

/-- The loop does not begin where the head of the list is not ready. -/
theorem unready_clear (io : RpcIo) (hop : req.WellFormed .clear) (hh : Holds s req.lrForward bkt)
    (hc : s.reCleanupNext = some head) (hl : head ∈ s.reBuckets)
    (hr : ((acknowledgeBucket s req.lrForward bkt).mem head).lrbReady = false) :
    rpcDispatch s req io =
      .ok (logAck (acknowledgeBucket s req.lrForward bkt) req.lrForward 0 io.send,
        sendRc io.send) := by
  obtain ⟨cs, hg, hb⟩ := hh
  obtain ⟨hhdr, hcode, hlen⟩ := hop
  have hd : rpcDispatch s req io = readerHandleClear s req io := by
    simp only [rpcDispatch, if_neg (Nat.not_lt.mpr hhdr), hcode, rpcHandleOne]
  have hlen' : ¬ req.lrBody.length < sizeofClear := Nat.not_lt.mpr hlen
  have hca : (acknowledgeBucket s req.lrForward bkt).reCleanupNext = some head := hc
  have hla : head ∈ (acknowledgeBucket s req.lrForward bkt).reBuckets := hl
  rw [hd]
  unfold readerHandleClear clearLoop
  simp only [if_neg hlen', hg, hb, hca, lrbReady, if_pos hla, hr, Bool.not_false, ↓reduceIte, pure,
    Except.pure, bind, Except.bind]
  rfl

/-- Where it is ready and the upstream call succeeds, the head leaves the list, and
`re_cleanup_next` stays on it. -/
theorem ready_clear (hop : req.WellFormed .clear) (hh : Holds s req.lrForward bkt)
    (hc : s.reCleanupNext = some head) (hl : head ∈ s.reBuckets)
    (hr : ¬ ((acknowledgeBucket s req.lrForward bkt).mem head).lrbReady = false)
    (hrc : 0 ≤ io.clearRc 0) (hs : Served s req io t rc) :
    t.reCleanupNext = some head ∧ t.reBuckets = s.reBuckets.erase head := by
  cases hs with
  | refused _ hno => exact absurd (.inr ⟨hop, hh.known⟩) hno
  | registered hop' _ | deregistered hop' _ | eof hop' _ _ | unopened hop' _ _ _ _
  | unpacked hop' _ _ _ _ | delivered hop' _ _ _ _ _ => cases hop.unique hop'
  | vacuous _ hi => exact absurd hi hh.not_idle
  | pending _ hh' hc' hnr =>
    cases hh.unique hh'
    cases hc.symm.trans hc'
    rw [lrbReady,
      if_pos (show head ∈ (acknowledgeBucket s req.lrForward bkt).reBuckets from hl)] at hnr
    exact absurd hnr hr
  | failed _ _ _ _ _ hneg => omega
  | purged _ _ hc' _ _ _ _ =>
    cases hc.symm.trans hc'
    exact ⟨hc, rfl⟩

/-! ## When it purges the whole run -/

theorem acknowledge_ready_self (s : ReaderEnv) (cid : ConnId) (p : Nat) :
    ((acknowledgeBucket s cid p).mem p).lrbReady = true := by
  simp [acknowledgeBucket]

theorem acknowledge_ready_head :
    ((acknowledgeBucket s cid bkt).mem head).lrbReady = false ↔
      head ≠ bkt ∧ (s.mem head).lrbReady = false := by
  by_cases h : head = bkt
  · subst h
    simp [acknowledgeBucket]
  · simp [acknowledgeBucket, h]

/-- With nothing to purge, marking the bucket is all there is to do. -/
theorem purges_of_unready (hc : s.reCleanupNext = s.reBuckets.head?)
    (hhead : s.reBuckets.head? = some head)
    (hr : ((acknowledgeBucket s cid bkt).mem head).lrbReady = false) :
    PurgesPrefix s cid bkt (acknowledgeBucket s cid bkt) := by
  obtain ⟨l, hl⟩ : ∃ l, s.reBuckets = head :: l := List.head?_eq_some_iff.mp hhead
  have hl' : (acknowledgeBucket s cid bkt).reBuckets = head :: l := hl
  have hrun : readyRun (acknowledgeBucket s cid bkt) = [] := by
    rw [readyRun, hl', List.takeWhile_cons_of_neg (by simp [hr])]
  have hrest : unreadyRest (acknowledgeBucket s cid bkt) =
      (acknowledgeBucket s cid bkt).reBuckets := by
    rw [unreadyRest, hl', List.dropWhile_cons_of_neg (by simp [hr])]
  refine ⟨acknowledge_ready_self s cid bkt, ?_, ?_, ?_, hrest.symm, fun _ _ => rfl, hc⟩
  · rw [hrun]
    simp [acknowledgeBucket, upstreamCall]
  · rw [hrun]
    simp [acknowledgeBucket, destroyedBucket]
  · rw [hrun]
    simp [acknowledgeBucket]

/-- The messages that follow are no part of it. -/
theorem PurgesPrefix.logAck (h : PurgesPrefix s cid bkt t) (dst : ConnId) (ret : Int)
    (out : Option Errno) : PurgesPrefix s cid bkt (logAck t dst ret out) := by
  refine { h with calls := ?_, destroyed := ?_ }
  · rw [← h.calls]
    simp [Proofs.logAck, ReaderEnv.log, upstreamCall]
  · rw [← h.destroyed]
    simp [Proofs.logAck, ReaderEnv.log, destroyedBucket]

/-- A removed bucket is not the first of those that remain. -/
theorem not_purges_of_removed (head : Nat) (hn : s.reBuckets.Nodup)
    (hc : t.reCleanupNext = some head)
    (hb : t.reBuckets = s.reBuckets.erase head) : ¬ PurgesPrefix s cid bkt t := by
  intro h
  have hhead : t.reBuckets.head? = some head := h.cleanup.symm.trans hc
  have hmem : head ∈ s.reBuckets.erase head := hb ▸ List.mem_of_head? hhead
  exact (hn.mem_erase_iff.mp hmem).1 rfl

/-- A CLEAR does all its work exactly when the head is not ready after it, and so
there is nothing to purge: the loop never goes past the bucket it removes, and
leaves `re_cleanup_next` on it. -/
theorem clear_purges_prefix_iff (hn : s.reBuckets.Nodup) (hc : s.reCleanupNext = s.reBuckets.head?)
    (hop : req.WellFormed .clear) (hh : Holds s req.lrForward bkt) (hl : bkt ∈ s.reBuckets)
    (hrc : ∀ k, 0 ≤ io.clearRc k) :
    (∃ t rc, changelogReaderRpcHdl s req io = .ok (t, rc) ∧ PurgesPrefix s req.lrForward bkt t) ↔
      ∀ head, s.reBuckets.head? = some head → head ≠ bkt ∧ (s.mem head).lrbReady = false := by
  obtain ⟨head, hhead⟩ : ∃ head, s.reBuckets.head? = some head := by
    cases hs : s.reBuckets with
    | nil => simp [hs] at hl
    | cons head l => exact ⟨head, rfl⟩
  have hlive : head ∈ s.reBuckets := List.mem_of_head? hhead
  by_cases hr : ((acknowledgeBucket s req.lrForward bkt).mem head).lrbReady = false
  · obtain ⟨rc, he⟩ := hdl_eq (unready_clear io hop hh (hc.trans hhead) hlive hr)
    have hp := (purges_of_unready hc hhead hr).logAck req.lrForward 0 io.send
    constructor
    · rintro _ head' hhead'
      cases hhead.symm.trans hhead'
      exact acknowledge_ready_head.mp hr
    · intro _
      exact ⟨_, rc, he, answered_preserve (fun _ ret out h => h.logAck req.lrForward ret out) hp _⟩
  · constructor
    · intro hpurges
      obtain ⟨t, rc, ht, hp⟩ := hpurges
      obtain ⟨u, r, hserved, rfl⟩ := request_served hn ht
      obtain ⟨hcu, hbu⟩ := ready_clear hop hh (hc.trans hhead) hlive hr (hrc 0) hserved
      refine absurd hp (not_purges_of_removed head hn ?_ (answered_buckets.trans hbu))
      exact answered_preserve (P := (·.reCleanupNext = some head)) (fun _ _ _ h => h) hcu r
    · intro hcond
      exact absurd (acknowledge_ready_head.mpr (hcond head hhead)) hr

namespace Sample

/-- Two clients, the second of which acknowledges first. -/
def outOfOrder : List Label :=
  [batch [record 1, record 2], read [record 3], .request (start [1]) (calm 5),
    .request (start [2]) (calm 5), .request (dequeue [1]) (calm 5),
    .request (dequeue [2]) (calm 6)]

set_option maxRecDepth 2000 in
theorem out_of_order_holds : Holds (after outOfOrder) [2] 1 := ⟨_, rfl, rfl⟩

end Sample

set_option maxRecDepth 2000 in
theorem clear_purges_prefix_outOfOrder :
    (∃ t rc, changelogReaderRpcHdl (Sample.after Sample.outOfOrder) (Sample.clear [2])
        (Sample.calm 7) = .ok (t, rc) ∧ PurgesPrefix (Sample.after Sample.outOfOrder) [2] 1 t) ↔
      ∀ head, (Sample.after Sample.outOfOrder).reBuckets.head? = some head →
        head ≠ 1 ∧ ((Sample.after Sample.outOfOrder).mem head).lrbReady = false :=
  clear_purges_prefix_iff (reach_shape (Sample.reach_after (C := Always) (by decide +kernel))).nodup
    rfl (by decide) Sample.out_of_order_holds (by decide +kernel) (fun _ => Int.le_refl 0)

set_option maxRecDepth 2000 in
/-- Once both buckets are ready they should both go. The second one stays. -/
theorem ready_prefix_left_behind :
    ∃ s, Reach (reader Sample.cfg 0) Always s ∧ s.reCleanupNext = s.reBuckets.head? ∧
      (Sample.clear [1]).WellFormed .clear ∧ Holds s [1] 0 ∧ 0 ∈ s.reBuckets ∧
      readyRun (acknowledgeBucket s [1] 0) = [0, 1] ∧
      ¬ ∃ t rc, changelogReaderRpcHdl s (Sample.clear [1]) (Sample.calm 8) = .ok (t, rc) ∧
        PurgesPrefix s [1] 0 t := by
  refine ⟨Sample.after (Sample.outOfOrder ++ [.request (Sample.clear [2]) (Sample.calm 7)]),
    Sample.reach_after (by decide +kernel), rfl, by decide, ⟨_, rfl, rfl⟩, by
      decide +kernel, rfl, ?_⟩
  intro hpurges
  obtain ⟨t, rc, he, hp⟩ := hpurges
  have hrest := hp.rest
  cases he
  exact absurd hrest (by decide +kernel)

end Lcap.Proofs
