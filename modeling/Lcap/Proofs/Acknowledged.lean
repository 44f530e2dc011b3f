import Lcap.Proofs.Filing
import Lcap.Proofs.Ownership
import Lcap.Systems.History

namespace Lcap.Proofs
open Reader Systems

/-- The bucket was sent to a client without error, and that client later sent a
CLEAR while it held the bucket. -/
def AckedAfter (tr : List Event) (p : Nat) : Prop :=
  ∃ cid pre post, tr = pre ++ .acknowledged cid p :: post ∧ ∃ msg, .sent cid (some p) msg 0 ∈ pre

/-- A call of `llapi_changelog_clear` covers records of consumed buckets only. -/
def CoversAcked (pre : List Event) : Event → Prop
  | .cleared _ _ endrec _ =>
    ∀ p r, .stored p r ∈ pre → (r.crIndex : Int) ≤ endrec → AckedAfter pre p
  | _ => True

/-- A bucket that a DEQUEUE takes over for its client also leaves: once it is
replaced where it was the open one, its message is allocated and sent. -/
def Delivers (s : ReaderEnv) : Label → Prop
  | .request req io => req.WellFormed .dequeue → Idle s req.lrForward →
    ∀ p ∈ offered s io, (some p = s.reCurrentOpen → io.bktAlloc = true) →
      io.rpcAlloc = true ∧ io.send = none
  | _ => True

instance : ∀ (s : ReaderEnv) (l : Label), Decidable (Delivers s l)
  | s, .request req io => inferInstanceAs (Decidable (req.WellFormed .dequeue →
      Idle s req.lrForward → ∀ p ∈ offered s io,
        (some p = s.reCurrentOpen → io.bktAlloc = true) → io.rpcAlloc = true ∧ io.send = none))
  | _, .enqueue _ _ | _, .sigterm => isTrue trivial

theorem AckedAfter.append (h : AckedAfter tr p) (post : List Event) :
    AckedAfter (tr ++ post) p := by
  obtain ⟨cid, pre, mid, rfl, hs⟩ := h
  exact ⟨cid, pre, mid ++ post, by simp, hs⟩

/-- A held bucket has reached its holder, a ready one its former holder, and
nothing else has been cleared. -/
structure Consumed (s : ReaderEnv) : Prop where
  held : ∀ cs ∈ s.rePeers, ∀ p, cs.csBucket = some p →
    ∃ msg, .sent cs.csIdent (some p) msg 0 ∈ s.trace
  ready : ∀ p, (s.mem p).lrbReady = true → AckedAfter s.trace p
  cleared : Justified CoversAcked s.trace

theorem Consumed.extend (h : Consumed s) (post : List Event) (ht : t.trace = s.trace ++ post)
    (hheld : ∀ cs ∈ t.rePeers, ∀ p, cs.csBucket = some p → cs ∈ s.rePeers ∨
      ∃ msg, .sent cs.csIdent (some p) msg 0 ∈ t.trace)
    (hready : ∀ p, (t.mem p).lrbReady = true → (s.mem p).lrbReady = true)
    (hpost : ∀ e ∈ post, ∀ pre, CoversAcked pre e) : Consumed t := by
  refine ⟨?_, ?_, ht ▸ h.cleared.append hpost⟩
  · intro cs hcs p hp
    rcases hheld cs hcs p hp with hcs | hsent
    · obtain ⟨msg, hm⟩ := h.held cs hcs p hp
      exact ⟨msg, ht ▸ List.mem_append_left _ hm⟩
    · exact hsent
  · intro p hp
    exact ht ▸ (h.ready p (hready p hp)).append post

theorem Consumed.openBucket (h : Consumed s) (b : Nat) : Consumed (openBucket s b) :=
  h.extend [.opened s.reBktIdx] rfl (fun _ hcs _ _ => .inl hcs)
    (fun _ hp => open_bucket_ready hp) (by simp [CoversAcked])

theorem Consumed.insert (h : Consumed s) (p : Nat) (r : ChangelogRec) :
    Consumed (recCounted (recInsert s p r) r) :=
  h.extend [.stored (s.mem p).lrbIndex r] rfl (fun _ hcs _ _ => .inl hcs)
    (fun q hq => (insert_ready s p q r).symm.trans hq) (by simp [CoversAcked])

theorem Consumed.logAck (h : Consumed s) (cid : ConnId) (ret : Int) (out : Option Errno) :
    Consumed (logAck s cid ret out) :=
  h.extend [_] rfl (fun _ hcs _ _ => .inl hcs) (fun _ hp => hp) (by simp [CoversAcked])

theorem Consumed.destroy (h : Consumed s) (p : Nat) : Consumed (recBucketDestroy s p) :=
  h.extend [.destroyed (s.mem p).lrbIndex] rfl (fun _ hcs _ _ => .inl hcs)
    (fun q hq => (destroy_ready s p q).symm.trans hq) (by simp [CoversAcked])

theorem Consumed.register (h : Consumed s) (req : LcapnetRequest) :
    Consumed (registerClient s req) :=
  h.extend [] (List.append_nil _).symm (fun _ hcs _ hp => .inl (mem_register hcs hp))
    (fun _ hp => hp) (by simp)

theorem Consumed.deregister (h : Consumed s) (cid : ConnId) : Consumed (deregisterClient s cid) :=
  h.extend [] (List.append_nil _).symm
    (fun _ hcs _ _ => .inl (List.mem_of_mem_eraseP hcs)) (fun _ hp => hp) (by simp)

theorem Consumed.fetch (h : Consumed s) (hf : Fetch s io t b) : Consumed t := by
  obtain ⟨_, _, hp, _, ht, hm⟩ := fetch_frame hf
  refine h.extend [] (ht.trans (List.append_nil _).symm) ?_ hm.ready (by simp)
  exact fun cs hcs _ _ => .inl (hp ▸ hcs)

theorem Consumed.sealOpen (h : Consumed s) (p : Nat) (io : RpcIo) : Consumed (sealOpen s p io) :=
  seal_open_preserve (fun hs => hs.openBucket _) h p

/-- The assignment and the successful send that follows it. -/
theorem Consumed.deliver (h : Consumed s) (cid : ConnId) (hp : (s.mem p).lrbIndex = p)
    (hsend : io.send = none) : Consumed (sendBucket (assignBucket s cid p) cid p io) := by
  refine h.extend [.assigned cid (s.mem p).lrbIndex,
    .sent cid (some (s.mem p).lrbIndex) (packEnqueue (s.mem p)) (sendRc io.send)]
    (List.append_assoc _ _ _) ?_ ?_ (by simp [CoversAcked])
  · intro cs hcs q hq
    rcases mem_set_cs_bucket hcs with hcs | ⟨old, _, hid, rfl⟩
    · exact .inl hcs
    · cases hq
      refine .inr ⟨packEnqueue (s.mem p), List.mem_append_right _ ?_⟩
      rw [hsend, hid]
      exact List.mem_singleton.mpr
        (congrArg (fun n => Event.sent cid (some n) (packEnqueue (s.mem p)) 0) hp.symm)
  · exact fun q hq => (send_ready (assignBucket s cid p) cid p q io).symm.trans hq

theorem Consumed.acknowledge (h : Consumed s) (hp : (s.mem p).lrbIndex = p) (hh : Holds s cid p) :
    Consumed (acknowledgeBucket s cid p) := by
  obtain ⟨cs₀, hg, hb⟩ := hh
  obtain ⟨hcs₀, hid⟩ := mem_of_get hg
  obtain ⟨msg, hsent⟩ := h.held cs₀ hcs₀ p hb
  refine ⟨?_, ?_, ?_⟩
  · intro cs hcs q hq
    obtain ⟨m, hm⟩ := h.held cs (mem_release hcs hq) q hq
    exact ⟨m, List.mem_append_left _ hm⟩
  · intro q hq
    rcases acknowledge_ready hq with rfl | hq
    · refine ⟨cid, s.trace, [], ?_, msg, hid ▸ hsent⟩
      simp only [acknowledgeBucket, hp]
    · exact (h.ready q hq).append _
  · exact h.cleared.append (by simp [CoversAcked])

/-- Records of an earlier bucket have smaller indices. -/
theorem Filed.ordered (h : Filed s) (hpq : p < q) (hr : .stored p r ∈ s.trace)
    (hr' : .stored q r' ∈ s.trace) : r.crIndex < r'.crIndex := by
  have hq : q < s.reBktIdx := by
    by_contra hle
    rw [← mem_stored_in, h.ahead q (Nat.le_of_not_lt hle)] at hr'
    cases hr'
  have hs := h.sorted
  rw [h.listed] at hs
  have hlt := joined_ordered hs hpq hq (mem_stored_in.mpr hr) (mem_stored_in.mpr hr')
  exact hlt

/-- The head's highest index covers the head's own records only. -/
theorem Filed.covered_head (hs : Settled s) (h : Filed s) (he : recBucketMaxIndex s 0 = .ok endrec)
    (hr : .stored p r ∈ s.trace) (hle : (r.crIndex : Int) ≤ endrec) : p = 0 ∧ 0 ∈ s.reBuckets := by
  rcases max_index_cases he with ⟨_, rfl⟩ | ⟨last, hlast, hlive, rfl⟩
  · omega
  · refine ⟨?_, hs.max_index_live hlive⟩
    have hl : .stored 0 last ∈ s.trace := by
      rw [← mem_stored_in, h.kept_at hs hs.pos]
      exact List.mem_of_getLast? hlast
    by_contra hp
    have := h.ordered (Nat.pos_of_ne_zero hp) hl hr
    omega

theorem Consumed.logClear (hsettled : Settled s) (h : Consumed s) (hfiled : Filed s)
    (hr : lrbReady s g 0 = true) (he : recBucketMaxIndex s 0 = .ok endrec) (rc : Int) :
    Consumed (logClear s endrec rc) := by
  refine ⟨?_, ?_, ?_⟩
  · intro cs hcs p hp
    obtain ⟨msg, hm⟩ := h.held cs hcs p hp
    exact ⟨msg, List.mem_append_left _ hm⟩
  · exact fun p hp => (h.ready p hp).append _
  · refine h.cleared.snoc ?_
    intro p r hst hle
    obtain ⟨rfl, hlive⟩ := hfiled.covered_head hsettled he hst hle
    rw [lrbReady, if_pos hlive] at hr
    exact h.ready 0 hr

theorem Consumed.served (hshape : Settled s) (hfiled : Filed s) (h : Consumed s)
    (hn : CallocNew s io) (hc : Delivers s (.request req io)) (hs : Served s req io t rc) :
    Consumed t := by
  have hout : ∀ {u p}, req.WellFormed .dequeue → Idle s req.lrForward → Fetch s io u (some p) →
      (some p = u.reCurrentOpen → io.bktAlloc = true) → io.rpcAlloc = true ∧ io.send = none := by
    intro u p hop hi hf hb
    rw [(fetch_frame hf).2.2.2.1] at hb
    exact hc hop hi p (offered_of_fetch hf) hb
  have hclear : ∀ {bkt head endrec}, Holds s req.lrForward bkt → s.reCleanupNext = some head →
      lrbReady (acknowledgeBucket s req.lrForward bkt) (io.garbage.afterAck s bkt) head = true →
      recBucketMaxIndex s head = .ok endrec →
      Consumed (Proofs.logClear (acknowledgeBucket s req.lrForward bkt) endrec (io.clearRc 0)) := by
    intro bkt head endrec hh hcn hr he
    rw [hshape.cleanup] at hcn
    cases hcn
    rw [← max_index_acknowledge s req.lrForward bkt] at he
    exact (h.acknowledge (hshape.index bkt) hh).logClear (hshape.acknowledge hh)
      (hfiled.quiet (.acknowledge s _ _)) hr he _
  cases hs with
  | refused _ _ | eof _ _ _ | vacuous _ _ => exact h
  | registered _ _ => exact (h.register req).logAck _ _ _
  | deregistered _ _ => exact (h.deregister _).logAck _ _ _
  | unopened _ _ hf _ _ => exact h.fetch hf
  | unpacked hop hi hf hb ha =>
    have := (hout hop hi hf hb).1
    rw [ha] at this
    cases this
  | @delivered u p hop hi hf hb _ _ =>
    have hu := (hshape.fetch hf).1.sealOpen (hn.fetch hf) p
    exact ((h.fetch hf).sealOpen p io).deliver _ (hu.index p) (hout hop hi hf hb).2
  | pending _ hh _ _ => exact (h.acknowledge (hshape.index _) hh).logAck _ _ _
  | failed _ hh hcn hr he _ => exact hclear hh hcn hr he
  | purged _ hh hcn hr he _ _ => exact ((hclear hh hcn hr he).destroy _).logAck _ _ _

namespace Sample

/-- A send fails, and the client clears what it never got. -/
def lost : List Label :=
  [read [record 1], .request (start [1]) (calm 5),
    .request (dequeue [1]) { calm 5 with send := some ⟨11, by decide⟩ },
    .request (clear [1]) (calm 6)]

end Sample

end Lcap.Proofs
