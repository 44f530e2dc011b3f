import Lcap.Proofs.Accounting
import Lcap.Proofs.NonEmpty

namespace Lcap.Proofs
open Reader Systems

/-- The slots that a bucket leaves unused for good; the open one may still fill up. -/
def unusedSlots (s : ReaderEnv) (p : Nat) : Int :=
  if s.reCurrentOpen = some p then 0 else s.reCfg.ccfRecBatchCount - lrbRecCount s p

/-- The unused slots of all buckets on the list. -/
def lostSlots (s : ReaderEnv) : Int := (s.reBuckets.map (unusedSlots s)).sum

/-- A DEQUEUE takes over the open bucket only if that has more records than the other
buckets on the list have unused slots. -/
def OpenServedFilled (s : ReaderEnv) : Label → Prop
  | .request req io => req.WellFormed .dequeue → Idle s req.lrForward →
    ∀ p ∈ s.reCurrentOpen, offered s io = some p → io.bktAlloc = true →
      lostSlots s < lrbRecCount s p
  | _ => True

instance : ∀ (s : ReaderEnv) (l : Label), Decidable (OpenServedFilled s l)
  | s, .request req io => inferInstanceAs (Decidable (req.WellFormed .dequeue →
      Idle s req.lrForward → ∀ p ∈ s.reCurrentOpen, offered s io = some p →
        io.bktAlloc = true → lostSlots s < lrbRecCount s p))
  | _, .enqueue _ _ | _, .sigterm => isTrue trivial

/-- The buckets on the list that are not open for insert. -/
def closedBuckets (s : ReaderEnv) : List Nat :=
  s.reBuckets.filter (fun p => some p ≠ s.reCurrentOpen)

/-- All the buckets on the list together waste less than one bucket. -/
structure Compact (cfg : LcapCfg) (s : ReaderEnv) : Prop extends BatchBound cfg s where
  few : lostSlots s < cfg.ccfRecBatchCount

theorem lost_same (h : SameRecords s t) : lostSlots t = lostSlots s := by
  unfold lostSlots
  rw [h.bkts]
  congr 1
  refine List.map_congr_left fun p _ => ?_
  simp only [unusedSlots, lrbRecCount, h.quiet.current, h.quiet.cfg, (h.quiet.contents p).1]

theorem Compact.same (h : Compact cfg s) (hs : SameRecords s t) : Compact cfg t :=
  ⟨h.toBatchBound.quiet hs.quiet, lost_same hs ▸ h.few⟩

/-- A new bucket has nothing unused, and the one that was open now counts. -/
theorem lost_open (hn : s.reBuckets.Nodup) (hb : Vacant s b) :
    lostSlots (openBucket s b) = lostSlots s ∨ ∃ p ∈ s.reCurrentOpen, p ∈ s.reBuckets ∧
      lostSlots (openBucket s b) = lostSlots s + (s.reCfg.ccfRecBatchCount - lrbRecCount s p) := by
  have hold : ∀ q ∈ s.reBuckets, unusedSlots (openBucket s b) q =
      s.reCfg.ccfRecBatchCount - lrbRecCount s q := by
    intro q hq
    have hne : q ≠ b := fun he => hb.1 (he ▸ hq)
    have hcur : (openBucket s b).reCurrentOpen ≠ some q := fun he => hne (Option.some.inj he).symm
    rw [unusedSlots, if_neg hcur, lrbRecCount, open_bucket_mem hne]
    rfl
  have hnew : unusedSlots (openBucket s b) b = 0 := if_pos rfl
  have hl : (openBucket s b).reBuckets = s.reBuckets ++ [b] := rfl
  have hsum : lostSlots (openBucket s b) =
      (s.reBuckets.map fun q => s.reCfg.ccfRecBatchCount - lrbRecCount s q).sum := by
    rw [lostSlots, hl, List.map_append, List.sum_append, List.map_congr_left hold]
    simp [hnew]
  have hclosed : ∀ {q}, s.reCurrentOpen ≠ some q →
      unusedSlots s q = s.reCfg.ccfRecBatchCount - lrbRecCount s q := fun hne => if_neg hne
  rw [hsum]
  by_cases hopen : ∃ p ∈ s.reCurrentOpen, p ∈ s.reBuckets
  · obtain ⟨p, hp, hlive⟩ := hopen
    refine .inr ⟨p, hp, hlive, ?_⟩
    have hself : unusedSlots s p = 0 := if_pos hp
    have hothers : ∀ q ∈ s.reBuckets.erase p,
        unusedSlots s q = s.reCfg.ccfRecBatchCount - lrbRecCount s q := fun q hq =>
      hclosed fun he => (hn.mem_erase_iff.mp hq).1 (Option.some.inj (he.symm.trans hp))
    rw [lostSlots, ← List.sum_map_erase _ hlive, ← List.sum_map_erase (unusedSlots s) hlive,
      List.map_congr_left hothers, hself]
    omega
  · left
    rw [lostSlots, List.map_congr_left fun q hq => hclosed fun he => hopen ⟨q, he, hq⟩]

theorem Compact.openBucket (h : Compact cfg s) (hn : s.reBuckets.Nodup) (hb : Vacant s b)
    (hfilled : ∀ p ∈ s.reCurrentOpen, p ∈ s.reBuckets → lostSlots s < lrbRecCount s p) :
    Compact cfg (openBucket s b) := by
  refine ⟨h.toBatchBound.openBucket b, ?_⟩
  rcases lost_open hn hb with he | ⟨p, hp, hlive, he⟩
  · rw [he]
    exact h.few
  · have hlt := hfilled p hp hlive
    rw [he, h.config]
    omega

theorem Compact.insert (h : Compact cfg s) (ho : s.reCurrentOpen = some p)
    (hlt : lrbRecCount s p < s.reCfg.ccfRecBatchCount) (r : ChangelogRec) :
    Compact cfg (recCounted (recInsert s p r) r) := by
  refine ⟨h.toBatchBound.insert hlt r, ?_⟩
  have hsame : ∀ q, unusedSlots (recCounted (recInsert s p r) r) q = unusedSlots s q := by
    intro q
    by_cases he : q = p
    · rw [he]
      exact (if_pos ho).trans (if_pos ho).symm
    · simp only [unusedSlots, lrbRecCount, insert_mem_other he]
      rfl
  have hfew := h.few
  rwa [lostSlots, ← List.map_congr_left fun q _ => hsame q] at hfew

/-- The unused slots of a bucket go with it. -/
theorem Compact.destroy (h : Compact cfg s) (hbatch : 0 < cfg.ccfRecBatchCount)
    (hl : p ∈ s.reBuckets) : Compact cfg (recBucketDestroy s p) := by
  have hquiet := Quiet.destroy s p
  refine ⟨h.toBatchBound.quiet hquiet, Int.lt_of_le_of_lt ?_ h.few⟩
  have hsame : ∀ q, unusedSlots (recBucketDestroy s p) q = unusedSlots s q := fun q => by
    simp only [unusedSlots, lrbRecCount, hquiet.current, hquiet.cfg, (hquiet.contents q).1]
  have hsum : unusedSlots s p + lostSlots (recBucketDestroy s p) = lostSlots s := by
    rw [lostSlots, List.map_congr_left fun q _ => hsame q]
    exact List.sum_map_erase (unusedSlots s) hl
  have hpos : 0 ≤ unusedSlots s p := by
    unfold unusedSlots
    split
    · exact le_rfl
    · have := h.count p
      rw [h.config]
      omega
  omega

theorem Compact.served (hshape : Shape s) (h : Compact cfg s) (hbatch : 0 < cfg.ccfRecBatchCount)
    (hc : OpenServedFilled s (.request req io)) (hs : Served s req io t rc) : Compact cfg t := by
  have hgive : ∀ {u p}, req.WellFormed .dequeue → Idle s req.lrForward → Fetch s io u (some p) →
      (some p = u.reCurrentOpen → io.bktAlloc = true) →
      Compact cfg (assignBucket (sealOpen u p io) req.lrForward p) := by
    intro u p hop hi hf hb
    have hsame := SameRecords.fetch hf
    have hu := h.same hsame
    have hshapeu := hshape.fetch hf
    have hsealed : Compact cfg (sealOpen u p io) := by
      unfold sealOpen
      split
      · rename_i ho
        refine hu.openBucket hshapeu.nodup (hshapeu.calloc_free _) fun q hq _ => ?_
        obtain rfl : p = q := Option.some.inj (ho.trans hq)
        rw [lost_same hsame, lrbRecCount, (hsame.quiet.contents p).1]
        exact hc hop hi p (hsame.quiet.current ▸ ho).symm (offered_of_fetch hf) (hb ho)
      · exact hu
    exact hsealed.same ⟨rfl, rfl, .assign _ _ p⟩
  have hclear : ∀ bkt endrec, Compact cfg
      (logClear (acknowledgeBucket s req.lrForward bkt) endrec (io.clearRc 0)) := fun bkt endrec =>
    h.same ((SameRecords.acknowledge s _ bkt).trans ⟨rfl, rfl, .logClear _ _ _⟩)
  cases hs with
  | refused _ _ | eof _ _ _ | vacuous _ _ => exact h
  | unpacked hop hi hf hb _ => exact hgive hop hi hf hb
  | delivered hop hi hf hb _ _ => exact (hgive hop hi hf hb).same ⟨rfl, rfl, .send _ _ _ io⟩
  | registered _ _ => exact h.same ((SameRecords.register s req).trans (.logAck _ _ _ _))
  | deregistered _ _ => exact h.same ((SameRecords.deregister s _).trans (.logAck _ _ _ _))
  | unopened _ _ hf _ _ => exact h.same (.fetch hf)
  | pending _ _ _ _ => exact h.same ((SameRecords.acknowledge s _ _).trans (.logAck _ _ _ _))
  | failed _ _ _ _ _ _ => exact hclear _ _
  | purged _ _ _ _ _ _ hl => exact ((hclear _ _).destroy hbatch hl).same (.logAck _ _ _ _)

theorem reach_compact (hbatch : 0 < cfg.ccfRecBatchCount)
    (h : Reach (reader cfg idx) OpenServedFilled s) : Compact cfg s := by
  apply filed_induct h
  · refine ⟨⟨rfl, fun _ => Int.le_max_left _ _⟩, ?_⟩
    simpa [lostSlots, unusedSlots, initialReader] using hbatch
  · exact fun s b c d hs => ⟨hs.toBatchBound.quiet (.flags s b c d), hs.few⟩
  · exact fun s p r hs hp _ hlt => hs.insert hp.current hlt r
  · intro s b hshape hs hb _ hfull
    refine hs.openBucket hshape.nodup hb fun p hp _ => ?_
    rw [hfull p (hshape.is_open hp), hs.config]
    exact hs.few
  · exact fun s cid ret out hs => hs.same (.logAck s cid ret out)
  · exact fun s req io t rc hshape _ hs hc hst => hs.served hshape hbatch hc hst

/-- Each selected entry of a list of weights weighs `b`. -/
theorem filter_weight {l : List Nat} {w : Nat → Int} {q : Nat → Bool} (hw : ∀ p ∈ l, 0 ≤ w p)
    (hq : ∀ p ∈ l, q p = true → w p = b) : b * (l.filter q).length ≤ (l.map w).sum := by
  induction l with
  | nil => simp
  | cons a l ih =>
    have ih := ih (fun p hp => hw p (List.mem_cons_of_mem a hp))
      (fun p hp => hq p (List.mem_cons_of_mem a hp))
    have ha := hw a List.mem_cons_self
    rw [List.map_cons, List.sum_cons]
    cases hqa : q a with
    | true =>
      have hb := hq a List.mem_cons_self hqa
      rw [List.filter_cons_of_pos hqa, List.length_cons, Int.natCast_succ, Int.mul_add, Int.mul_one]
      omega
    | false =>
      rw [List.filter_cons_of_neg (by simp [hqa])]
      omega

/-- The closed buckets have as many slots as they have records and unused slots. -/
theorem closed_weight (h : 0 ≤ s.reCfg.ccfRecBatchCount) :
    s.reCfg.ccfRecBatchCount * (closedBuckets s).length ≤ listedRecords s + lostSlots s := by
  rw [listedRecords, lostSlots, ← List.sum_map_add]
  have hclosed : ∀ {p}, s.reCurrentOpen ≠ some p →
      lrbRecCount s p + unusedSlots s p = s.reCfg.ccfRecBatchCount := by
    intro p hne
    rw [unusedSlots, if_neg hne]
    omega
  refine filter_weight (fun p _ => ?_) fun p _ hq => hclosed fun ho => by simp [ho] at hq
  by_cases ho : s.reCurrentOpen = some p
  · rw [unusedSlots, if_pos ho, Int.add_zero]
    exact Int.natCast_nonneg _
  · rw [hclosed ho]
    exact h

theorem bmod_le_self (h : 0 ≤ n) : max 0 (Int.bmod n (2 ^ 32)) ≤ n := by
  have := Int.emod_nonneg n (show (2 ^ 32 : Int) ≠ 0 by decide)
  have := Int.mul_nonneg (show (0 : Int) ≤ 2 ^ 32 by decide)
    (Int.ediv_nonneg h (show (0 : Int) ≤ 2 ^ 32 by decide))
  have := Int.mul_ediv_add_emod n (2 ^ 32)
  rw [Int.bmod_def]
  split <;> omega

/-- In a run in which the open bucket is taken over only with more records than the other
buckets leave unused, at most `ccf_max_bkt` buckets are kept besides the open one. -/
theorem buckets_bounded (hbatch : 0 < cfg.ccfRecBatchCount) (hmax : 0 < cfg.ccfMaxBkt)
    (h : Reach (reader cfg idx) OpenServedFilled s) :
    ((closedBuckets s).length : Int) ≤ cfg.ccfMaxBkt := by
  have hacc := reach_accounted h
  have hcompact := reach_compact hbatch h
  have hcounted : listedRecords s ≤ s.reRecCnt := Int.sub_nonneg.mp hacc.counted
  have hroom := hacc.room
  have hfew := hcompact.few
  have hcap := bmod_le_self (Int.le_of_lt (Int.mul_pos hbatch hmax))
  rw [slotLimit, hcompact.config] at hroom
  have hw := closed_weight (hcompact.config ▸ Int.le_of_lt hbatch)
  rw [hcompact.config] at hw
  refine Int.le_of_lt_add_one (Int.lt_of_mul_lt_mul_left ?_ (Int.le_of_lt hbatch))
  calc cfg.ccfRecBatchCount * (closedBuckets s).length
      ≤ listedRecords s + lostSlots s := hw
    _ < max 0 (Int.bmod (cfg.ccfRecBatchCount * cfg.ccfMaxBkt) (2 ^ 32)) +
          cfg.ccfRecBatchCount := by omega
    _ ≤ cfg.ccfRecBatchCount * cfg.ccfMaxBkt + cfg.ccfRecBatchCount := by omega
    _ = cfg.ccfRecBatchCount * (cfg.ccfMaxBkt + 1) := by
        rw [Int.mul_add, Int.mul_one]

namespace Sample

/-- Room for a single bucket of two records. -/
def small : LcapCfg := { cfg with ccfMaxBkt := 1 }

/-- The bucket that is open for insert leaves with its one record, and after the first
one has expired the next one leaves in the same way. -/
def scattered : List Label :=
  [read [record 1], .request (start [1]) (calm 5), .request (dequeue [1]) (calm 5),
    batch [record 2], .request (start [2]) (calm 20), .request (dequeue [2]) (calm 20),
    .request (start [3]) (calm 20), .request (dequeue [3]) (calm 20)]

/-- The state at the end of that run. -/
def overfull : ReaderEnv := replay (reader small 0) (reader small 0).init scattered

end Sample

set_option maxRecDepth 2000 in
/-- The second client is sent a bucket with a single record. -/
theorem buckets_bounded_sharing :
    ((closedBuckets (Sample.after Sample.sharing)).length : Int) ≤ Sample.cfg.ccfMaxBkt :=
  buckets_bounded (by decide) (by decide) (Sample.reach_after (by decide +kernel))

set_option maxRecDepth 2000 in
/-- Two records in a reader with room for one bucket of two: handing out buckets that
are not full has opened more of them than may be kept. -/
theorem partial_deliveries_exceed_max_buckets :
    0 < Sample.small.ccfRecBatchCount ∧ 0 < Sample.small.ccfMaxBkt ∧
      ∃ s, Reach (reader Sample.small 0) Always s ∧ s.reRecCnt = 2 ∧
        Sample.small.ccfMaxBkt < (closedBuckets s).length :=
  ⟨by decide, by decide, Sample.overfull, steps_of_obeys (by decide +kernel), by decide +kernel,
    by decide +kernel⟩

end Lcap.Proofs
