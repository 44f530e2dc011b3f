import Lcap.Proofs.Settled

namespace Lcap.Proofs
open Reader Systems

/-- Each cursor designates the bucket its comment promises, and so a live one. -/
structure CursorsLive (s : ReaderEnv) : Prop where
  cleanup : ∃ p, s.reBuckets.head? = some p ∧ s.reCleanupNext = some p
  opened : ∃ p, s.reBuckets.getLast? = some p ∧ s.reCurrentOpen = some p
  deliver : ∀ p, s.reDeliverNext = some p → p ∈ s.reBuckets

/-- Will this CLEAR pass the bucket at `re_cleanup_next` upstream? The client
holds it, or an earlier CLEAR has left it ready. -/
def clearsHead (s : ReaderEnv) (cid : ConnId) : Bool :=
  match clientStateGet s cid, s.reCleanupNext with
  | some cs, some head => match cs.csBucket with
    | some bkt => bkt == head || (s.mem head).lrbReady
    | none => false
  | _, _ => false

/-- The step does not remove a bucket: no CLEAR of the head succeeds upstream. -/
def NoPurge (s : ReaderEnv) : Label → Prop
  | .request req io =>
    req.WellFormed .clear → clearsHead s req.lrForward = true → io.clearRc 0 < 0
  | _ => True

instance : ∀ (s : ReaderEnv) (l : Label), Decidable (NoPurge s l)
  | s, .request req io => inferInstanceAs (Decidable (req.WellFormed .clear →
      clearsHead s req.lrForward = true → io.clearRc 0 < 0))
  | _, .enqueue _ _ | _, .sigterm => isTrue trivial

/-- As long as the first bucket has not been removed every cursor is right. -/
theorem cursors_live_iff (h : Settled s) : CursorsLive s ↔ 0 ∈ s.reBuckets := by
  obtain ⟨k, hk, hlt, he⟩ := h.chain
  obtain ⟨n, hn⟩ : ∃ n, s.reBktIdx - k = n + 1 := ⟨s.reBktIdx - k - 1, by omega⟩
  constructor
  · rintro ⟨⟨p, hhead, hp⟩, _, _⟩
    rw [h.cleanup] at hp
    cases hp
    exact List.mem_of_head? hhead
  · intro h0
    rw [he, List.mem_range'_1] at h0
    have hk0 : k = 0 := by omega
    subst hk0
    refine ⟨⟨0, ?_, h.cleanup⟩, ⟨s.reBktIdx - 1, ?_, h.open_last⟩, h.next⟩
    · rw [he, hn, List.range'_succ]
      rfl
    · rw [he, hn, List.range'_concat, List.getLast?_concat]
      congr 1
      omega

theorem clears_head_of_ready (hc : s.reCleanupNext = some head) (hh : Holds s cid bkt)
    (hr : (Function.update s.mem bkt { s.mem bkt with lrbReady := true } head).lrbReady = true) :
    clearsHead s cid = true := by
  obtain ⟨cs, hg, hb⟩ := hh
  simp only [clearsHead, hg, hc, hb, Bool.or_eq_true, beq_iff_eq]
  by_cases he : bkt = head
  · exact .inl he
  · rw [Function.update_of_ne (Ne.symm he)] at hr
    exact .inr hr

/-- Every other way of serving a request leaves the first bucket on the list. -/
theorem served_keeps_head (h0 : 0 ∈ s.reBuckets) (hs : Served s req io t rc)
    (hc : NoPurge s (.request req io)) : 0 ∈ t.reBuckets := by
  have hdeq : ∀ {u p}, Fetch s io u (some p) → 0 ∈ (sealOpen u p io).reBuckets := by
    intro u p hf
    have hu : 0 ∈ u.reBuckets := (fetch_frame hf).2.1 ▸ h0
    exact (seal_open_frame u p io).2.2 hu
  cases hs with
  | refused _ _ | registered _ _ | deregistered _ _ | eof _ _ _ | vacuous _ _ | pending _ _ _ _
  | failed _ _ _ _ _ _ => exact h0
  | unopened _ _ hf _ _ => exact (fetch_frame hf).2.1 ▸ h0
  | unpacked _ _ hf _ _ => exact hdeq hf
  | delivered _ _ hf _ _ _ => exact hdeq hf
  | purged hop hh hcn hr _ hrc hl =>
    simp only [lrbReady, if_pos (show _ ∈ (acknowledgeBucket s _ _).reBuckets from hl)] at hr
    have := hc hop (clears_head_of_ready hcn hh hr)
    omega

theorem answered_buckets : (answered s req io rc).reBuckets = s.reBuckets :=
  answered_preserve (P := (·.reBuckets = s.reBuckets)) (fun _ _ _ hs => hs) rfl rc

/-- The first block is not free as long as the first bucket is on the list. -/
theorem Shape.unaliased (h : Shape s) (h0 : 0 ∈ s.reBuckets) (l : Label) : Unaliased s l := by
  intro block _ hcl
  rw [h.cleanup] at hcl
  cases hcl
  exact h0

/-- In a run in which no bucket is removed the three cursors stay right. -/
theorem cursors_live_of_no_purge (h : Reach (reader cfg idx) NoPurge s) : CursorsLive s := by
  suffices hs : Settled s ∧ 0 ∈ s.reBuckets from (cursors_live_iff hs.1).mpr hs.2
  refine h.preserve (P := fun s => Settled s ∧ 0 ∈ s.reBuckets)
    ⟨init_settled cfg idx, List.mem_singleton_self 0⟩ ?_
  intro s l t hs hl hstep
  refine step_settled (P := fun s => 0 ∈ s.reBuckets) hs.1 (hs.1.unaliased hs.2 l)
    (fun _ _ _ _ h0 => h0) ?_ ?_ hstep hs.2
  · exact fun u r v _ h0 _ _ _ hst => hst.keeps h0
  · intro req io u rc he _ hserved
    subst he
    rw [answered_buckets]
    exact served_keeps_head hs.2 hserved hl

namespace Sample

/-- A client that receives a bucket twice and loses contact in between. -/
def redelivery : List Label :=
  [batch [record 1, record 2], .request (start [1]) (calm 5), .request (dequeue [1]) (calm 5),
    .request (start [2]) (calm 20), .request (dequeue [2]) (calm 20)]

/-- One record, delivered and acknowledged. -/
def oneClear : List Label :=
  [read [record 1], .request (start [1]) (calm 5), .request (dequeue [1]) (calm 5),
    .request (clear [1]) (calm 6)]

end Sample

set_option maxRecDepth 2000 in
theorem cursors_live_redelivery : CursorsLive (Sample.after Sample.redelivery) :=
  cursors_live_of_no_purge (Sample.reach_after (by decide +kernel))

set_option maxRecDepth 2000 in
/-- The first successful CLEAR leaves `re_cleanup_next` on the bucket it has just
released. The next DEQUEUE reads the expiry time there and, if the bytes found
look expired, goes on to read the records freed with the bucket. -/
theorem cleanup_next_dangles :
    ∃ s, Reach (reader Sample.cfg 0) Always s ∧ ¬ CursorsLive s ∧
      changelogReaderRpcHdl s (Sample.dequeue [1]) (Sample.calm 7) = .error .nullDeref := by
  refine ⟨Sample.after Sample.oneClear, Sample.reach_after (by decide +kernel), ?_, rfl⟩
  intro h
  obtain ⟨p, hhead, hp⟩ := h.cleanup
  have h1 : (Sample.after Sample.oneClear).reBuckets = [1] := rfl
  have h0 : (Sample.after Sample.oneClear).reCleanupNext = some 0 := rfl
  rw [h1] at hhead
  rw [h0] at hp
  cases hp
  cases hhead

end Lcap.Proofs
