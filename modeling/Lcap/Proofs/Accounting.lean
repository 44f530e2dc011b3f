import Lcap.Proofs.Caching
import Lcap.Proofs.Cursors
import Mathlib.Algebra.Order.BigOperators.Group.List

namespace Lcap.Proofs
open Reader Systems

/-- The limit of `changelog_reader_full`, as the machine computes it. -/
def slotLimit (s : ReaderEnv) : Int :=
  Int.bmod (s.reCfg.ccfRecBatchCount * s.reCfg.ccfMaxBkt) (2 ^ 32)

theorem not_full_iff : changelogReaderFull s = false ↔ s.reRecCnt < slotLimit s := by
  simp [changelogReaderFull, slotLimit]

/-- The records of the buckets on the list. -/
def listedRecords (s : ReaderEnv) : Int := (s.reBuckets.map (lrbRecCount s)).sum

/-- The records that are counted and in no bucket on the list. -/
def strayRecords (s : ReaderEnv) : Int := s.reRecCnt - listedRecords s

/-- Neither the list nor the records of any bucket have changed. -/
structure SameRecords (s t : ReaderEnv) : Prop where
  cnt : t.reRecCnt = s.reRecCnt
  bkts : t.reBuckets = s.reBuckets
  quiet : Quiet s t

theorem listed_congr (hb : t.reBuckets = s.reBuckets)
    (hr : ∀ p ∈ s.reBuckets, (t.mem p).lrbRecords = (s.mem p).lrbRecords) :
    listedRecords t = listedRecords s := by
  unfold listedRecords
  rw [hb]
  congr 1
  refine List.map_congr_left fun p hp => ?_
  simp only [lrbRecCount, hr p hp]

theorem listed_nonneg (s : ReaderEnv) : 0 ≤ listedRecords s := by
  apply List.sum_nonneg
  intro n hn
  obtain ⟨p, _, rfl⟩ := List.mem_map.mp hn
  exact Int.natCast_nonneg _

/-- Records may have been given back since, each with the bucket that it was in. -/
structure Balanced (s t : ReaderEnv) : Prop where
  stray : strayRecords t = strayRecords s
  cnt : t.reRecCnt ≤ s.reRecCnt
  cfg : t.reCfg = s.reCfg

theorem Balanced.trans (h : Balanced s t) (h' : Balanced t u) : Balanced s u :=
  ⟨h'.stray.trans h.stray, h'.cnt.trans h.cnt, h'.cfg.trans h.cfg⟩

theorem SameRecords.balanced (h : SameRecords s t) : Balanced s t := by
  refine ⟨?_, Int.le_of_eq h.cnt, h.quiet.cfg⟩
  rw [strayRecords, strayRecords, h.cnt, listed_congr h.bkts fun p _ => (h.quiet.contents p).1]

theorem Balanced.openBucket (hb : Vacant s b) : Balanced s (openBucket s b) := by
  have hold : ∀ p ∈ s.reBuckets, lrbRecCount (Reader.openBucket s b) p = lrbRecCount s p := by
    intro p hp
    have hne : p ≠ b := fun he => hb.1 (he ▸ hp)
    simp only [lrbRecCount, open_bucket_mem hne]
  have hnew : lrbRecCount (Reader.openBucket s b) b = 0 := by simp [lrbRecCount, open_bucket_new]
  have hl : (Reader.openBucket s b).reBuckets = s.reBuckets ++ [b] := rfl
  have hc : (Reader.openBucket s b).reRecCnt = s.reRecCnt := rfl
  refine ⟨?_, le_rfl, rfl⟩
  rw [strayRecords, strayRecords, hc, listedRecords, listedRecords, hl, List.map_append,
    List.sum_append, List.map_congr_left hold]
  simp [hnew]

/-- A destroyed bucket gives back as many slots as it has records. -/
theorem Balanced.destroy (hl : p ∈ s.reBuckets) : Balanced s (recBucketDestroy s p) := by
  have hsum : lrbRecCount s p + listedRecords (recBucketDestroy s p) = listedRecords s := by
    have hcounts : ∀ q, lrbRecCount (recBucketDestroy s p) q = lrbRecCount s q := fun q => by
      simp only [lrbRecCount, ((Quiet.destroy s p).contents q).1]
    rw [listedRecords, List.map_congr_left fun q _ => hcounts q]
    exact List.sum_map_erase (lrbRecCount s) hl
  have hcnt : (recBucketDestroy s p).reRecCnt = s.reRecCnt - lrbRecCount s p := rfl
  have hpos : 0 ≤ lrbRecCount s p := Int.natCast_nonneg _
  refine ⟨?_, by omega, rfl⟩
  rw [strayRecords, strayRecords, hcnt]
  omega

theorem insert_count (s : ReaderEnv) (p : Nat) (r : ChangelogRec) :
    lrbRecCount (recCounted (recInsert s p r) r) p = lrbRecCount s p + 1 := by
  simp [lrbRecCount, recCounted, recInsert, ReaderEnv.modify, ReaderEnv.log, recAppend]

/-- A stored record is counted once, and only one in a released bucket goes astray. -/
theorem insert_stray (hn : s.reBuckets.Nodup) (p : Nat) (r : ChangelogRec) :
    strayRecords (recCounted (recInsert s p r) r) =
      strayRecords s + if p ∈ s.reBuckets then 0 else 1 := by
  have hother : ∀ q ∈ s.reBuckets, q ≠ p →
      lrbRecCount (recCounted (recInsert s p r) r) q = lrbRecCount s q := by
    intro q _ hne
    simp only [lrbRecCount, insert_mem_other hne]
  have hcnt : (recCounted (recInsert s p r) r).reRecCnt = s.reRecCnt + 1 := rfl
  have hbkts : (recCounted (recInsert s p r) r).reBuckets = s.reBuckets := rfl
  rw [strayRecords, strayRecords, hcnt, listedRecords, listedRecords, hbkts]
  split
  · rename_i hp
    have herase : ∀ q ∈ s.reBuckets.erase p,
        lrbRecCount (recCounted (recInsert s p r) r) q = lrbRecCount s q := fun q hq =>
      hother q (List.mem_of_mem_erase hq) (hn.mem_erase_iff.mp hq).1
    rw [← List.sum_map_erase _ hp, ← List.sum_map_erase _ hp, List.map_congr_left herase,
      insert_count]
    omega
  · rename_i hp
    rw [List.map_congr_left fun q hq => hother q hq fun he => hp (he ▸ hq)]
    omega

theorem SameRecords.fetch (hf : Fetch s io t b) : SameRecords s t :=
  ⟨by cases hf <;> rfl, (fetch_frame hf).2.1, .fetch hf⟩

theorem SameRecords.trans (h : SameRecords s t) (h' : SameRecords t u) : SameRecords s u :=
  ⟨h'.cnt.trans h.cnt, h'.bkts.trans h.bkts, h.quiet.trans h'.quiet⟩

theorem SameRecords.logAck (s : ReaderEnv) (cid : ConnId) (ret : Int) (out : Option Errno) :
    SameRecords s (logAck s cid ret out) :=
  ⟨rfl, rfl, .logAck s cid ret out⟩

theorem SameRecords.register (s : ReaderEnv) (req : LcapnetRequest) :
    SameRecords s (registerClient s req) :=
  ⟨rfl, rfl, .register s req⟩

theorem SameRecords.deregister (s : ReaderEnv) (cid : ConnId) :
    SameRecords s (deregisterClient s cid) :=
  ⟨rfl, rfl, .deregister s cid⟩

theorem SameRecords.acknowledge (s : ReaderEnv) (cid : ConnId) (p : Nat) :
    SameRecords s (acknowledgeBucket s cid p) :=
  ⟨rfl, rfl, .acknowledge s cid p⟩

theorem served_balanced (hshape : Shape s) (hs : Served s req io t rc) : Balanced s t := by
  have hgive : ∀ {u p}, Fetch s io u (some p) →
      Balanced s (assignBucket (sealOpen u p io) req.lrForward p) := by
    intro u p hf
    have hu : Balanced s (sealOpen u p io) := seal_open_preserve
      (fun hu => hu.trans (.openBucket ((hshape.fetch hf).calloc_free _)))
      (SameRecords.fetch hf).balanced p
    exact hu.trans (SameRecords.balanced ⟨rfl, rfl, .assign _ _ p⟩)
  have hclear : ∀ bkt endrec, SameRecords s
      (logClear (acknowledgeBucket s req.lrForward bkt) endrec (io.clearRc 0)) := fun bkt endrec =>
    (SameRecords.acknowledge s _ bkt).trans ⟨rfl, rfl, .logClear _ _ _⟩
  cases hs with
  | refused _ _ | eof _ _ _ | vacuous _ _ => exact SameRecords.balanced ⟨rfl, rfl, .refl s⟩
  | registered _ _ => exact ((SameRecords.register s req).trans (.logAck _ _ _ _)).balanced
  | deregistered _ _ => exact ((SameRecords.deregister s _).trans (.logAck _ _ _ _)).balanced
  | unopened _ _ hf _ _ => exact (SameRecords.fetch hf).balanced
  | unpacked _ _ hf _ _ => exact hgive hf
  | delivered _ _ hf _ _ _ =>
    exact (hgive hf).trans (SameRecords.balanced ⟨rfl, rfl, .send _ _ _ io⟩)
  | pending _ _ _ _ => exact ((SameRecords.acknowledge s _ _).trans (.logAck _ _ _ _)).balanced
  | failed _ _ _ _ _ _ => exact (hclear _ _).balanced
  | purged _ _ _ _ _ _ hl =>
    exact ((hclear _ _).balanced.trans (.destroy hl)).trans (SameRecords.logAck _ _ _ _).balanced

theorem answered_balanced (h : Balanced s t) (rc : Int) : Balanced s (answered t req io rc) :=
  answered_preserve (fun _ _ _ ht => ht.trans (SameRecords.logAck _ _ _ _).balanced) h rc

/-- Every record on the list is counted, and there is room for what is counted. -/
structure Accounted (s : ReaderEnv) : Prop where
  counted : 0 ≤ strayRecords s
  room : s.reRecCnt ≤ max 0 (slotLimit s)

theorem Accounted.balanced (h : Accounted s) (hb : Balanced s t) : Accounted t := by
  refine ⟨hb.stray ▸ h.counted, ?_⟩
  rw [slotLimit, hb.cfg]
  exact Int.le_trans hb.cnt h.room

theorem Accounted.insert (hn : s.reBuckets.Nodup) (h : Accounted s)
    (hroom : s.reRecCnt < slotLimit s) : Accounted (recCounted (recInsert s p r) r) := by
  have hcnt : (recCounted (recInsert s p r) r).reRecCnt = s.reRecCnt + 1 := rfl
  have hlim : slotLimit (recCounted (recInsert s p r) r) = slotLimit s := rfl
  have hcounted := h.counted
  refine ⟨?_, ?_⟩
  · rw [insert_stray hn]
    split <;> omega
  · rw [hcnt, hlim]
    omega

theorem reach_accounted (h : Reach (reader cfg idx) C s) : Accounted s := by
  apply reach_induct h
  · exact ⟨le_rfl, Int.le_max_left _ _⟩
  · exact fun s b c d hs => ⟨hs.counted, hs.room⟩
  · intro s r block t hshape hs _ hroom hst
    have hroom := not_full_iff.mp hroom
    cases hst with
    | insert _ _ => exact hs.insert hshape.nodup hroom
    | spill _ _ =>
      have hb := hshape.calloc_free block
      exact (hs.balanced (.openBucket hb)).insert (hshape.openBucket hb).nodup hroom
  · exact fun s req io t rc hshape hs _ hst =>
      hs.balanced (answered_balanced (served_balanced hshape hst) rc)

/-- No CLEAR releases the bucket that is open for insert. -/
def OpenKept (s : ReaderEnv) : Label → Prop
  | .request req io => req.WellFormed .clear → clearsHead s req.lrForward = true →
    s.reCleanupNext = s.reCurrentOpen → io.clearRc 0 < 0
  | _ => True

instance : ∀ (s : ReaderEnv) (l : Label), Decidable (OpenKept s l)
  | s, .request req io => inferInstanceAs (Decidable (req.WellFormed .clear →
      clearsHead s req.lrForward = true → s.reCleanupNext = s.reCurrentOpen → io.clearRc 0 < 0))
  | _, .enqueue _ _ | _, .sigterm => isTrue trivial

/-- The open bucket has not been released. -/
def OpenListed (s : ReaderEnv) : Prop := ∀ p, s.reCurrentOpen = some p → p ∈ s.reBuckets

theorem OpenListed.openBucket (s : ReaderEnv) (b : Nat) : OpenListed (openBucket s b) := by
  intro p hp
  obtain rfl : b = p := Option.some.inj hp
  exact List.mem_append_right _ (List.mem_singleton_self b)

theorem OpenListed.served (h : OpenListed s) (hc : OpenKept s (.request req io))
    (hs : Served s req io t rc) : OpenListed t := by
  have hfetch : ∀ {u b}, Fetch s io u b → OpenListed u := by
    intro u b hf p hp
    rw [(fetch_frame hf).2.2.2.1] at hp
    exact (fetch_frame hf).2.1 ▸ h p hp
  have hgive : ∀ {u p}, Fetch s io u (some p) → OpenListed (sealOpen u p io) := fun {u p} hf =>
    seal_open_preserve (fun _ => OpenListed.openBucket _ _) (hfetch hf) p
  cases hs with
  | refused _ _ | eof _ _ _ | vacuous _ _ | registered _ _ | deregistered _ _ | pending _ _ _ _
  | failed _ _ _ _ _ _ => exact h
  | unopened _ _ hf _ _ => exact hfetch hf
  | unpacked _ _ hf _ _ => exact hgive hf
  | delivered _ _ hf _ _ _ => exact hgive hf
  | @purged bkt head _ hop hh hcn hr _ hrc hl =>
    simp only [lrbReady, if_pos (show head ∈ (acknowledgeBucket s _ bkt).reBuckets from hl)] at hr
    intro p hp
    have hp : s.reCurrentOpen = some p := hp
    have hne : p ≠ head := by
      rintro rfl
      have := hc hop (clears_head_of_ready hcn hh hr) (hcn.trans hp.symm)
      omega
    exact (List.mem_erase_of_ne hne).mpr (h p hp)

/-- Where the open bucket is never released, nothing goes astray. -/
theorem reach_none_stray (h : Reach (reader cfg idx) OpenKept s) : strayRecords s = 0 := by
  suffices hs : OpenListed s ∧ strayRecords s = 0 from hs.2
  apply reach_induct (P := fun s => OpenListed s ∧ strayRecords s = 0) h
  · exact ⟨fun p hp => Option.some.inj hp ▸ List.mem_singleton_self 0, rfl⟩
  · exact fun s b c d hs => hs
  · intro s r block t hshape ⟨hs, hstray⟩ _ _ hst
    cases hst with
    | insert ho _ =>
      refine ⟨hs, ?_⟩
      rw [insert_stray hshape.nodup, if_pos (hs _ ho), hstray, Int.add_zero]
    | spill _ _ =>
      have hb := hshape.calloc_free block
      have hopen := OpenListed.openBucket s (callocBlock s block)
      refine ⟨hopen, ?_⟩
      rw [insert_stray (hshape.openBucket hb).nodup, if_pos (hopen _ rfl),
        (Balanced.openBucket hb).stray, hstray, Int.add_zero]
  · intro s req io t rc hshape hs hc hst
    refine answered_preserve (P := fun s => OpenListed s ∧ strayRecords s = 0) ?_ ?_ rc
    · exact fun u _ _ hu => ⟨hu.1, (SameRecords.logAck _ _ _ _).balanced.stray.trans hu.2⟩
    · exact ⟨hs.1.served hc hst, (served_balanced hshape hst).stray.trans hs.2⟩

/-! ## What a step stores -/

/-- Every record that a step stores is counted in the same step. -/
theorem step_stores (hshape : Shape s) (h : readerStep s l = some t) :
    ∃ new, storedRecords t.trace = storedRecords s.trace ++ new ∧
      (new = [] ∨ t.reRecCnt = s.reRecCnt + new.length) := by
  cases l with
  | enqueue startRc script =>
    obtain ⟨_, _, u, rc, he, rfl⟩ := enqueue_step h
    have hcounted : ∃ new, storedRecords u.trace = storedRecords s.trace ++ new ∧
        u.reRecCnt = s.reRecCnt + new.length := by
      apply enqueue_preserve (P := fun u => ∃ new,
        storedRecords u.trace = storedRecords s.trace ++ new ∧
          u.reRecCnt = s.reRecCnt + new.length) _ _ _ he ⟨[], by simp, by simp⟩
      · exact fun _ _ hu => hu
      · exact fun _ hu => hu
      · intro u r block v ⟨new, hn, hc⟩ _ _ _ _ hst
        refine ⟨new ++ [r], ?_, ?_⟩
        · rw [stored_appends hst, hn, List.append_assoc]
        · have hv : (recCounted v r).reRecCnt = u.reRecCnt + 1 := by
            cases hst <;> rfl
          rw [hv, hc, List.length_append, List.length_singleton]
          omega
    obtain ⟨new, hn, hc⟩ := hcounted
    exact ⟨new, hn, .inr hc⟩
  | request req io =>
    obtain ⟨_, hr⟩ := request_step h
    obtain ⟨u, r, hserved, rfl⟩ := request_served hshape.nodup hr
    have hrec := ((served_rests hshape hserved).trans (answered_quiet u req io r)).records
    exact ⟨[], by rw [hrec.1, List.append_nil], .inl rfl⟩
  | sigterm =>
    cases h
    exact ⟨[], by simp, .inl rfl⟩

theorem bmod_of_fits (h0 : -2 ^ 31 ≤ n) (hn : n < 2 ^ 31) : Int.bmod n (2 ^ 32) = n :=
  Int.bmod_eq_of_le (by omega) (by omega)

namespace Sample

/-- Four buckets of two records, one of which is given back, and a last batch. -/
def refilled : List Label :=
  [batch [record 1, record 2], batch [record 3, record 4], batch [record 5, record 6],
    batch [record 7, record 8], .request (start [1]) (calm 5), .request (dequeue [1]) (calm 5),
    .request (clear [1]) (calm 6), batch [record 9, record 10]]

/-- The released block that the client still holds has become the open bucket, which its
CLEAR destroys. -/
def strayed : List Label :=
  [.request (start [1]) (calm 7), .request (dequeue [1]) (calm 7), .request (clear [1]) (calm 8),
    .request (dequeue [1]) (calm 20), batch [record 1, record 2],
    .enqueue 0 [.recv (record 3) true (some 0), .fail atEnd], .request (clear [1]) (calm 21),
    read [record 4]]

end Sample

end Lcap.Proofs
