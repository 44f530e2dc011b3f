import Lcap.Proofs.Acknowledged

namespace Lcap.Proofs
open Reader Systems

def Handed (s : ReaderEnv) (p : Nat) : Prop := ∃ cid, .assigned cid p ∈ s.trace

/-- Every cached record lies in a bucket that some client has been given. -/
def AllHanded (s : ReaderEnv) : Prop :=
  ∀ p ∈ s.reBuckets, ∀ r ∈ (s.mem p).lrbRecords, Handed s p

/-- Will the call store a record? A signal or a failure may come first, and the
bucket that the first record needs may not be allocated. -/
def storesRecord (s : ReaderEnv) : List RecvEvent → Bool
  | .recv rec alloc _ :: rest =>
    if rec.crIndex < s.reSrec then storesRecord s rest else !needsBucket s || alloc
  | .fail _ :: _ | .sigterm :: _ | [] => false

/-- The delivery cursor is not lost: nothing is stored once it has run off the end,
a DEQUEUE does not go back to a released bucket, and one that takes over the open
bucket with records in it gets a new one. -/
def KeepsCursor (s : ReaderEnv) : Label → Prop
  | .enqueue _ script => s.reDeliverNext = none → storesRecord s script = false
  | .request req io => req.WellFormed .dequeue → Idle s req.lrForward →
    (∀ head ∈ s.reCleanupNext, headExpired s io head = true → head ∈ s.reBuckets) ∧
    (∀ p ∈ s.reCurrentOpen, offered s io = some p → (s.mem p).lrbRecords ≠ [] → io.bktAlloc = true)
  | .sigterm => True

instance : ∀ (s : ReaderEnv) (l : Label), Decidable (KeepsCursor s l)
  | s, .enqueue _ script => inferInstanceAs (Decidable (s.reDeliverNext = none →
      storesRecord s script = false))
  | s, .request req io => inferInstanceAs (Decidable (req.WellFormed .dequeue →
      Idle s req.lrForward →
      (∀ head ∈ s.reCleanupNext, headExpired s io head = true → head ∈ s.reBuckets) ∧
      (∀ p ∈ s.reCurrentOpen, offered s io = some p → (s.mem p).lrbRecords ≠ [] →
        io.bktAlloc = true)))
  | _, .sigterm => isTrue trivial

theorem stores_record_opened (s : ReaderEnv) (b : Bool) (script : List RecvEvent) :
    storesRecord { s with reClpriv := b } script = storesRecord s script := by
  induction script with
  | nil => rfl
  | cons e script ih =>
    cases e with
    | recv rec alloc block =>
      rw [storesRecord, storesRecord, ih]
      rfl
    | fail r => rfl
    | sigterm => rfl

/-- After the signal a record only ends the loop. -/
theorem recv_loop_terminated (hu : s.terminateSig = true)
    (h : recvLoop s n script = .ok (t, rc, rest)) : t = s := by
  induction script with
  | nil => simp [recvLoop] at h
  | cons e script ih =>
    cases e with
    | sigterm =>
      have he : { s with terminateSig := true } = s := by rw [← hu]
      rw [recvLoop, he] at h
      exact ih h
    | fail r =>
      cases h
      rfl
    | recv rec alloc block =>
      simp only [recvLoop, hu, ↓reduceIte, pure, Except.pure] at h
      cases h
      rfl

theorem recv_loop_stores_nothing (hno : storesRecord s script = false)
    (h : recvLoop s n script = .ok (t, rc, rest)) : ∃ b, t = { s with terminateSig := b } := by
  induction script with
  | nil => simp [recvLoop] at h
  | cons e script ih =>
    cases e with
    | sigterm => exact ⟨true, recv_loop_terminated rfl h⟩
    | fail r =>
      cases h
      exact ⟨_, rfl⟩
    | recv rec alloc block =>
      simp only [recvLoop, pure, Except.pure] at h
      split at h
      · cases h
        exact ⟨_, rfl⟩
      split at h
      · rename_i hlt
        simp only [storesRecord, hlt, ↓reduceIte] at hno
        exact ih hno h
      · rename_i hlt
        simp only [storesRecord, hlt, ↓reduceIte, Bool.or_eq_false_iff, Bool.not_eq_false'] at hno
        simp only [changelogReaderRecStore, recBucketAdd, hno.1, hno.2, ↓reduceIte, ENOMEM,
          Bool.false_eq_true] at h
        cases h
        exact ⟨_, rfl⟩

theorem enqueue_stores_nothing (hno : storesRecord s script = false)
    (h : changelogReaderEnqueue s startRc script = .ok (t, rc, rest)) :
    ∃ b c, t = { s with reClpriv := b, terminateSig := c } := by
  unfold changelogReaderEnqueue at h
  simp only [pure, Except.pure] at h
  split at h
  · cases h
    exact ⟨_, _, rfl⟩
  split at h
  · cases h
    exact ⟨_, _, rfl⟩
  obtain ⟨⟨u, r, rest'⟩, hl, h⟩ := bind_ok h
  obtain ⟨b, rfl⟩ := recv_loop_stores_nothing ((stores_record_opened s true script).trans hno) hl
  cases h
  exact ⟨_, _, rfl⟩

theorem cursor_of_fetch_none (hf : Fetch s io t none) : s.reDeliverNext = none := by
  cases hf with
  | eof _ _ hd => exact hd

/-- A bucket with records that the cursor has passed, or left behind by running
off the end, has been handed out. -/
def Tracked (s : ReaderEnv) : Prop :=
  ∀ p, p < s.reBktIdx → (s.mem p).lrbRecords ≠ [] →
    (∀ q, s.reDeliverNext = some q → p < q) → Handed s p

theorem Tracked.frame (h : Tracked s) (hq : Quiet s t) (hd : t.reDeliverNext = s.reDeliverNext) :
    Tracked t := by
  obtain ⟨post, he, _⟩ := hq.trace
  intro p hlt hr hp
  rw [hq.idx] at hlt
  rw [(hq.contents p).1] at hr
  rw [hd] at hp
  obtain ⟨cid, hm⟩ := h p hlt hr hp
  exact ⟨cid, he ▸ List.mem_append_left _ hm⟩

theorem Tracked.openBucket (h : Tracked s) : Tracked (openBucket s s.reBktIdx) := by
  intro p hlt hr hp
  by_cases he : p = s.reBktIdx
  · subst he
    simp [Reader.openBucket] at hr
  · have hlt : p < s.reBktIdx := by
      simp only [Reader.openBucket] at hlt
      omega
    rw [open_bucket_mem he] at hr
    obtain ⟨cid, hm⟩ := h p hlt hr hp
    exact ⟨cid, List.mem_append_left _ hm⟩

/-- The open bucket takes a record while the cursor has not passed it. -/
theorem Tracked.insert (h : Tracked s) (hp : p + 1 = s.reBktIdx) (hd : s.reDeliverNext = some d)
    (hdlt : d < s.reBktIdx) (r : ChangelogRec) : Tracked (recCounted (recInsert s p r) r) := by
  intro q hlt hr hq
  have hqd : q < d := hq d hd
  have hne : q ≠ p := by omega
  rw [insert_mem_other hne] at hr
  obtain ⟨cid, hm⟩ := h q hlt hr hq
  exact ⟨cid, List.mem_append_left _ hm⟩

/-- Fetching moves the cursor past the fetched bucket and no other. -/
theorem Tracked.fetch (hshape : Settled s) (h : Tracked s)
    (hlive : ∀ head ∈ s.reCleanupNext, headExpired s io head = true → head ∈ s.reBuckets)
    (hf : Fetch s io t (some p)) (hqt : q < t.reBktIdx) (hr : (t.mem q).lrbRecords ≠ [])
    (hq : ∀ r, t.reDeliverNext = some r → q < r) : q = p ∨ Handed t q := by
  obtain ⟨hidx, _, _, _, htr, hm⟩ := fetch_frame hf
  rw [hidx] at hqt
  rw [(hm.records q).1] at hr
  have hkeep : Handed s q → Handed t q := fun ⟨cid, hc⟩ => ⟨cid, htr ▸ hc⟩
  cases hf with
  | rewind hcn hx _ _ =>
    have hl := hlive _ hcn hx
    rw [hshape.cleanup] at hcn
    cases hcn
    simp only [hshape.next_live hl] at hq
    left
    by_cases hlt : 0 + 1 < s.reBktIdx
    · have := hq 1 (by rw [if_pos hlt])
      omega
    · omega
  | advance _ _ hd =>
    simp only [hshape.next_live (hshape.next p hd)] at hq
    by_cases he : q = p
    · exact .inl he
    · right
      apply hkeep
      apply h q hqt hr
      intro d hd'
      rw [hd] at hd'
      cases hd'
      by_cases hlt : p + 1 < s.reBktIdx
      · have := hq (p + 1) (by rw [if_pos hlt])
        omega
      · omega

theorem Tracked.give (hshape : Settled s) (h : Tracked s) (hn : CallocNew s io)
    (hlive : ∀ head ∈ s.reCleanupNext, headExpired s io head = true → head ∈ s.reBuckets)
    (hf : Fetch s io t (some p)) (cid : ConnId) :
    Tracked (assignBucket (sealOpen t p io) cid p) := by
  intro q hlt hr hq
  have hnew : callocBlock t io.bktBlock = t.reBktIdx := hn.fetch hf
  have hassigned : Handed (assignBucket (sealOpen t p io) cid p) p := by
    have hindex := ((hshape.fetch hf).1.sealOpen (hn.fetch hf) p).index p
    refine ⟨cid, List.mem_append_right _ ?_⟩
    rw [hindex]
    exact List.mem_singleton_self _
  have hlift : q < t.reBktIdx → (t.mem q).lrbRecords ≠ [] →
      (∀ r, t.reDeliverNext = some r → q < r) →
      t.trace ⊆ (assignBucket (sealOpen t p io) cid p).trace →
      Handed (assignBucket (sealOpen t p io) cid p) q := by
    intro hqt hrt hqd hsub
    rcases h.fetch hshape hlive hf hqt hrt hqd with rfl | ⟨c, hc⟩
    · exact hassigned
    · exact ⟨c, hsub hc⟩
  unfold sealOpen at hlt hr hq hlift ⊢
  rw [hnew] at hlt hr hq hlift ⊢
  split
  · rename_i ho
    rw [if_pos ho] at hlt hr hq hlift
    by_cases he : q = t.reBktIdx
    · subst he
      simp [assignBucket, Reader.openBucket] at hr
    · have hqt : q < t.reBktIdx := by
        simp only [assignBucket, Reader.openBucket] at hlt
        omega
      refine hlift hqt ?_ hq ?_
      · simpa only [assignBucket, open_bucket_mem he] using hr
      · exact fun e hm => List.mem_append_left _ (List.mem_append_left _ hm)
  · rename_i ho
    rw [if_neg ho] at hlt hr hq hlift
    exact hlift hlt hr hq (fun e hm => List.mem_append_left _ hm)

theorem Tracked.served (hshape : Settled s) (h : Tracked s) (hn : CallocNew s io)
    (hc : KeepsCursor s (.request req io)) (hs : Served s req io t rc) : Tracked t := by
  cases hs with
  | refused _ _ | eof _ _ _ | vacuous _ _ => exact h
  | registered _ _ => exact h.frame ((Quiet.register s req).trans (.logAck _ _ _ _)) rfl
  | deregistered _ _ => exact h.frame ((Quiet.deregister s _).trans (.logAck _ _ _ _)) rfl
  | @unopened u p hop hi hf ho ha =>
    intro q hqt hr hq
    rcases h.fetch hshape (hc hop hi).1 hf hqt hr hq with rfl | hh
    · -- the bucket that was not replaced is empty
      obtain ⟨_, _, _, hopen, _, hm⟩ := fetch_frame hf
      rw [(hm.records q).1] at hr
      have := (hc hop hi).2 q (hopen ▸ ho.symm) (offered_of_fetch hf) hr
      rw [ha] at this
      cases this
    · exact hh
  | unpacked hop hi hf _ _ => exact h.give hshape hn (hc hop hi).1 hf _
  | delivered hop hi hf _ _ _ =>
    exact (h.give hshape hn (hc hop hi).1 hf _).frame (.send _ _ _ io) rfl
  | pending _ _ _ _ => exact h.frame ((Quiet.acknowledge s _ _).trans (.logAck _ _ _ _)) rfl
  | failed _ _ _ _ _ _ => exact h.frame ((Quiet.acknowledge s _ _).trans (.logClear _ _ _)) rfl
  | purged _ _ _ _ _ _ _ =>
    exact h.frame ((((Quiet.acknowledge s _ _).trans (.logClear _ _ _)).trans (.destroy _ _)).trans
      (.logAck _ _ _ _)) rfl

theorem Tracked.flags (h : Tracked s) (b c d : Bool) :
    Tracked { s with reClpriv := b, terminateSig := c, stopped := d } := h

/-- While the cursor is on the list a record may be stored. -/
theorem Tracked.stored (hs : Settled s) (h : Tracked s) (hd : s.reDeliverNext = some d)
    (hst : Stored s r none t) : Tracked (recCounted t r) := by
  have hlt := hs.mem_lt (hs.next d hd)
  cases hst with
  | insert ho _ =>
    rw [hs.open_last] at ho
    cases ho
    exact h.insert (Nat.sub_add_cancel hs.pos) hd hlt r
  | spill _ _ => exact h.openBucket.insert rfl hd (Nat.lt_succ_of_lt hlt) r

theorem stored_cursor (hst : Stored s r none t) :
    (recCounted t r).reDeliverNext = s.reDeliverNext := by
  cases hst <;> rfl

theorem Tracked.enqueue (hsettled : Settled s) (h : Tracked s) (hd : s.reDeliverNext = some d)
    (hc : Unaliased s (.enqueue startRc script))
    (he : changelogReaderEnqueue s startRc script = .ok (t, rc, rest)) : Tracked t := by
  have hall := enqueue_settled (P := fun u => u.reDeliverNext = some d ∧ Tracked u) hsettled hc
    (fun _ _ _ _ hu => hu) ?_ he ⟨hd, h⟩
  · exact hall.2.2
  · intro u r v hu ⟨hdu, htu⟩ _ _ _ hst
    exact ⟨(stored_cursor hst).trans hdu, htu.stored hu hdu hst⟩

theorem Tracked.step (hsettled : Settled s) (h : Tracked s)
    (hc : KeepsCursor s l ∧ Unaliased s l) (hs : readerStep s l = some t) : Tracked t := by
  cases l with
  | enqueue startRc script =>
    obtain ⟨_, _, u, rc, he, rfl⟩ := enqueue_step hs
    cases hd : s.reDeliverNext with
    | none =>
      obtain ⟨b, c, rfl⟩ := enqueue_stores_nothing (hc.1 hd) he
      exact h
    | some d =>
      have hu : Tracked u := h.enqueue hsettled hd hc.2 he
      exact hu
  | request req io =>
    obtain ⟨_, he⟩ := request_step hs
    obtain ⟨v, r, hserved, rfl⟩ := request_served hsettled.nodup he
    exact answered_preserve (fun _ _ _ hv => hv.frame (.logAck _ _ _ _) rfl)
      (h.served hsettled (hsettled.calloc_request hc.2) hc.1 hserved) r
  | sigterm =>
    cases hs
    exact h

namespace Sample

/-- The open bucket is delivered, and a record arrives behind it. -/
def overtaken : List Label :=
  [read [record 1], .request (start [1]) (calm 5), .request (dequeue [1]) (calm 5),
    read [record 2], .request (start [2]) (calm 6)]

/-- The same without the late record: there is nothing left to deliver. -/
def exhausted : List Label :=
  [read [record 1], .request (start [1]) (calm 5), .request (dequeue [1]) (calm 5),
    .request (start [2]) (calm 6)]

end Sample

end Lcap.Proofs
