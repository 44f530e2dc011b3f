import Lcap.Proofs.Acknowledged

namespace Lcap.Proofs
open Reader Systems

/-- Nothing empty is handed out: an assigned bucket contains a stored record, a
message carries one, and an index passed upstream is a stored record's. -/
def CarriesRecords (pre : List Event) : Event → Prop
  | .assigned _ p => ∃ r, .stored p r ∈ pre
  | .sent _ _ (.enqueue _ prCount _) _ => 1 ≤ prCount
  | .cleared _ _ endrec _ => ∃ p r, .stored p r ∈ pre ∧ endrec = (r.crIndex : Int)
  | _ => True

/-- No DEQUEUE takes over the open bucket while that is still empty. -/
def OpenFilled (s : ReaderEnv) : Label → Prop
  | .request req io => req.WellFormed .dequeue → Idle s req.lrForward →
    ∀ p ∈ s.reCurrentOpen, offered s io = some p → io.bktAlloc = true → (s.mem p).lrbRecords ≠ []
  | _ => True

instance : ∀ (s : ReaderEnv) (l : Label), Decidable (OpenFilled s l)
  | s, .request req io => inferInstanceAs (Decidable (req.WellFormed .dequeue →
      Idle s req.lrForward → ∀ p ∈ s.reCurrentOpen, offered s io = some p →
        io.bktAlloc = true → (s.mem p).lrbRecords ≠ []))
  | _, .enqueue _ _ | _, .sigterm => isTrue trivial

/-- Only the open bucket may be empty. -/
structure Stocked (s : ReaderEnv) : Prop where
  filled : ∀ p, p + 1 < s.reBktIdx → (s.mem p).lrbRecords ≠ []
  carried : Justified CarriesRecords s.trace

theorem Stocked.quiet (h : Stocked s) (hq : Quiet s t) (post : List Event)
    (ht : t.trace = s.trace ++ post) (hp : ∀ e ∈ post, ∀ pre, CarriesRecords pre e) :
    Stocked t := by
  refine ⟨?_, ht ▸ h.carried.append hp⟩
  intro p hlt
  rw [hq.idx] at hlt
  rw [(hq.contents p).1]
  exact h.filled p hlt

theorem Stocked.logAck (h : Stocked s) (cid : ConnId) (ret : Int) (out : Option Errno) :
    Stocked (logAck s cid ret out) :=
  h.quiet (.logAck s cid ret out) [_] rfl (by simp [CarriesRecords])

theorem Stocked.acknowledge (h : Stocked s) (cid : ConnId) (p : Nat) :
    Stocked (acknowledgeBucket s cid p) :=
  h.quiet (.acknowledge s cid p) [_] rfl (by simp [CarriesRecords])

theorem Stocked.destroy (h : Stocked s) (p : Nat) : Stocked (recBucketDestroy s p) :=
  h.quiet (.destroy s p) [_] rfl (by simp [CarriesRecords])

theorem Stocked.fetch (h : Stocked s) (hf : Fetch s io t b) : Stocked t :=
  h.quiet (.fetch hf) [] ((fetch_frame hf).2.2.2.2.1.trans (List.append_nil _).symm) (by simp)

/-- The open bucket is replaced when it is full or when it is taken over. -/
theorem Stocked.openBucket (h : Stocked s)
    (hopen : ∀ p, p + 1 = s.reBktIdx → (s.mem p).lrbRecords ≠ []) :
    Stocked (openBucket s s.reBktIdx) := by
  refine ⟨?_, h.carried.append (by simp [CarriesRecords])⟩
  intro p hlt
  have hlt : p < s.reBktIdx := Nat.lt_of_succ_lt_succ hlt
  rw [open_bucket_mem (Nat.ne_of_lt hlt)]
  rcases Nat.lt_or_eq_of_le hlt with hlt | he
  · exact h.filled p hlt
  · exact hopen p he

theorem Stocked.insert (h : Stocked s) (hp : p + 1 = s.reBktIdx) (r : ChangelogRec) :
    Stocked (recCounted (recInsert s p r) r) := by
  have hcarried : Justified CarriesRecords (s.trace ++ [.stored (s.mem p).lrbIndex r]) :=
    h.carried.snoc trivial
  refine ⟨?_, hcarried⟩
  intro q hlt
  have hlt : q + 1 < s.reBktIdx := hlt
  rw [insert_mem_other (by omega)]
  exact h.filled q hlt

theorem Stocked.assign (h : Stocked s) (hfiled : Filed s) (cid : ConnId) (hk : Known s p)
    (hp : (s.mem p).lrbRecords ≠ []) : Stocked (assignBucket s cid p) := by
  refine ⟨h.filled, h.carried.snoc ?_⟩
  obtain ⟨r, hr⟩ := List.exists_mem_of_ne_nil _ hp
  rw [← hfiled.kept p hk] at hr
  exact ⟨r, mem_stored_in.mp hr⟩

theorem Stocked.send (h : Stocked s) (cid : ConnId) (io : RpcIo) (hp : (s.mem p).lrbRecords ≠ []) :
    Stocked (sendBucket s cid p io) := by
  refine h.quiet (.send s cid p io) [_] rfl ?_
  intro e he pre
  rw [List.mem_singleton.mp he]
  exact List.length_pos_iff.mpr hp

/-- The head that a CLEAR passes upstream is not the open bucket. -/
theorem Stocked.logClear (hshape : Settled s) (hfiled : Filed s) (h : Stocked s)
    (hr : lrbReady s g 0 = true) (he : recBucketMaxIndex s 0 = .ok endrec) (rc : Int) :
    Stocked (logClear s endrec rc) := by
  have hlt : 0 + 1 < s.reBktIdx := by
    obtain ⟨k, hk, hlt, hb⟩ := hshape.chain
    by_cases hl : 0 ∈ s.reBuckets
    · rw [lrbReady, if_pos hl] at hr
      exact hshape.ready 0 hr
    · have : k ≠ 0 := by
        rintro rfl
        rw [hb, List.mem_range'_1] at hl
        omega
      omega
  refine ⟨h.filled, h.carried.snoc ?_⟩
  rcases max_index_cases he with ⟨hnil, _⟩ | ⟨last, hlast, _, rfl⟩
  · exact absurd hnil (h.filled 0 hlt)
  · refine ⟨0, last, ?_, rfl⟩
    rw [← mem_stored_in, hfiled.kept_at hshape hshape.pos]
    exact List.mem_of_getLast? hlast

theorem Stocked.served (hshape : Settled s) (hfiled : Filed s) (h : Stocked s)
    (hn : CallocNew s io) (hc : OpenFilled s (.request req io)) (hs : Served s req io t rc) :
    Stocked t := by
  have hgive : ∀ {u p}, req.WellFormed .dequeue → Idle s req.lrForward → Fetch s io u (some p) →
      (some p = u.reCurrentOpen → io.bktAlloc = true) →
      Stocked (assignBucket (sealOpen u p io) req.lrForward p) ∧
        ((sealOpen u p io).mem p).lrbRecords ≠ [] := by
    intro u p hop hi hf hb
    have hnew : callocBlock u io.bktBlock = u.reBktIdx := hn.fetch hf
    have hopen := (fetch_frame hf).2.2.2.1
    have hq := Quiet.fetch hf
    have hu := (hshape.fetch hf).1
    have hlt : p < u.reBktIdx := hshape.fetched_lt hf
    have hp : (u.mem p).lrbRecords ≠ [] := by
      rcases Nat.lt_or_eq_of_le hlt with hlt | he
      · exact (h.fetch hf).filled p hlt
      · have ho : u.reCurrentOpen = some p := by
          rw [hu.open_last]
          congr 1
          omega
        rw [(hq.contents p).1]
        exact hc hop hi p (hopen ▸ ho) (offered_of_fetch hf) (hb ho.symm)
    have hk : Known (sealOpen u p io) p := ((hshape.fetched hf).fetch hf).seal p io
    have hp' : ((sealOpen u p io).mem p).lrbRecords ≠ [] := by
      rwa [seal_open_mem_new (hn.fetch hf) hlt]
    refine ⟨?_, hp'⟩
    unfold sealOpen at hp' hk ⊢
    rw [hnew] at hp' hk ⊢
    split
    · rename_i ho
      rw [if_pos ho] at hp' hk
      rw [hu.open_last] at ho
      refine ((h.fetch hf).openBucket ?_).assign ((hfiled.quiet hq).openBucket _) _ hk hp'
      intro q hq
      have : q = p := by
        have := Option.some.inj ho
        omega
      exact this ▸ hp
    · rename_i ho
      rw [if_neg ho] at hk
      exact (h.fetch hf).assign (hfiled.quiet hq) _ hk hp
  have hclear : ∀ {bkt head endrec}, Holds s req.lrForward bkt → s.reCleanupNext = some head →
      lrbReady (acknowledgeBucket s req.lrForward bkt) (io.garbage.afterAck s bkt) head = true →
      recBucketMaxIndex s head = .ok endrec →
      Stocked (Proofs.logClear (acknowledgeBucket s req.lrForward bkt) endrec (io.clearRc 0)) := by
    intro bkt head endrec hh hcn hr he
    rw [hshape.cleanup] at hcn
    cases hcn
    rw [← max_index_acknowledge s req.lrForward bkt] at he
    exact (h.acknowledge _ _).logClear (hshape.acknowledge hh) (hfiled.quiet (.acknowledge s _ _))
      hr he _
  cases hs with
  | refused _ _ | eof _ _ _ | vacuous _ _ => exact h
  | registered _ _ => exact Stocked.logAck (s := registerClient s req) ⟨h.filled, h.carried⟩ _ _ _
  | deregistered _ _ =>
    exact Stocked.logAck (s := deregisterClient s req.lrForward) ⟨h.filled, h.carried⟩ _ _ _
  | unopened _ _ hf _ _ => exact h.fetch hf
  | unpacked hop hi hf hb _ => exact (hgive hop hi hf hb).1
  | delivered hop hi hf hb _ _ =>
    obtain ⟨ht, hp⟩ := hgive hop hi hf hb
    exact ht.send _ io hp
  | pending _ _ _ _ => exact (h.acknowledge _ _).logAck _ _ _
  | failed _ hh hcn hr he _ => exact hclear hh hcn hr he
  | purged _ hh hcn hr he _ _ => exact ((hclear hh hcn hr he).destroy _).logAck _ _ _

namespace Sample

/-- The first DEQUEUE comes before the first record. -/
def early : List Label :=
  [.request (start [1]) (calm 5), .request (dequeue [1]) (calm 5), .request (clear [1]) (calm 6)]

end Sample

end Lcap.Proofs
