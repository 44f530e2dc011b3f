import Lcap.Config
import Lcap.Proofs.Accounting

namespace Lcap.Proofs
open Reader Systems Config

/-- A reader that has been started, in a state that it can get to. -/
def Running (cfg : LcapCfg) (idx : Nat) (s : ReaderEnv) : Prop :=
  ∃ s₀, changelogReaderInit cfg idx true = .ok s₀ ∧ Steps (reader cfg idx) Always s₀ s

/-- Of any reader that starts: the product of the two limits is an `int`, reading records
never runs into an assertion of `changelog_reader_rec_store`, and as long as there are no
records it may read. -/
structure SafeToRun (cfg : LcapCfg) : Prop where
  fits : ∀ idx s, Running cfg idx s →
    -2 ^ 31 ≤ cfg.ccfRecBatchCount * cfg.ccfMaxBkt ∧ cfg.ccfRecBatchCount * cfg.ccfMaxBkt < 2 ^ 31
  stores : ∀ idx s startRc script, Running cfg idx s →
    changelogReaderEnqueue s startRc script ≠ .error .assertion
  reads : ∀ idx s, Running cfg idx s → s.reRecCnt = 0 → changelogReaderFull s = false

theorem running_iff : Running cfg idx s ↔ bktSz cfg < 2 ^ 63 ∧ Reach (reader cfg idx) Always s := by
  constructor
  · rintro ⟨s₀, hinit, hs⟩
    unfold changelogReaderInit at hinit
    split at hinit
    · rename_i hfit
      cases hinit
      exact ⟨hfit.2, hs⟩
    · cases hinit
  · rintro ⟨hfit, hs⟩
    exact ⟨_, if_pos ⟨rfl, hfit⟩, hs⟩

/-- A batch count of -9 or less makes the size of a bucket wrap around. -/
theorem bkt_sz_lt_iff (hlow : -2 ^ 31 ≤ cfg.ccfRecBatchCount)
    (hhigh : cfg.ccfRecBatchCount < 2 ^ 31) :
    bktSz cfg < 2 ^ 63 ↔ -9 < cfg.ccfRecBatchCount := by
  unfold bktSz sizeofBucket
  omega

/-- There is an open bucket with at most a batch of records. -/
structure HasOpen (s : ReaderEnv) : Prop where
  batch : 0 < s.reCfg.ccfRecBatchCount
  opened : ∃ p, s.reCurrentOpen = some p ∧ lrbRecCount s p ≤ s.reCfg.ccfRecBatchCount

theorem reach_has_open (hbatch : 0 < cfg.ccfRecBatchCount) (h : Reach (reader cfg idx) C s) :
    HasOpen s := by
  obtain ⟨hcfg, hcount⟩ := reach_bounded h
  obtain ⟨p, ho, _⟩ := (reach_shape h).opened
  refine ⟨hcfg ▸ hbatch, p, ho, ?_⟩
  have hp := hcount p
  rw [hcfg]
  omega

theorem HasOpen.flags (h : HasOpen s) (b c : Bool) :
    HasOpen { s with reClpriv := b, terminateSig := c } :=
  { h with }

/-- A record finds room in the open bucket, or in the one that replaces it. -/
theorem HasOpen.stored (h : HasOpen s) (hs : Stored s r block t) : HasOpen (recCounted t r) := by
  cases hs with
  | @insert current ho hc =>
    refine ⟨h.batch, current, ho, ?_⟩
    rw [insert_count]
    exact hc
  | spill _ hpos =>
    refine ⟨h.batch, callocBlock s block, rfl, ?_⟩
    have hempty : lrbRecCount (openBucket s (callocBlock s block)) (callocBlock s block) = 0 := by
      rw [lrbRecCount, open_bucket_new]
      rfl
    rw [insert_count, hempty]
    exact hpos

theorem HasOpen.store_total (h : HasOpen s) (rec : ChangelogRec) (alloc : Bool)
    (block : Option Nat) : ∃ t rc, changelogReaderRecStore s rec alloc block = .ok (t, rc) := by
  obtain ⟨p, ho, hle⟩ := h.opened
  unfold changelogReaderRecStore recBucketAdd
  simp only [pure, Except.pure]
  by_cases hfull : lrbRecCount s p = s.reCfg.ccfRecBatchCount
  · have hneed : needsBucket s = true := by simp [needsBucket, ho, hfull]
    cases alloc with
    | false => exact ⟨s, -ENOMEM, by simp [hneed, ENOMEM]⟩
    | true =>
      generalize callocBlock s block = b
      have hroom : lrbRecCount (openBucket s b) b < (openBucket s b).reCfg.ccfRecBatchCount := by
        rw [lrbRecCount, open_bucket_new]
        exact h.batch
      have hopen : (openBucket s b).reCurrentOpen = some b := rfl
      refine ⟨recInsert (openBucket s b) b rec, 0, ?_⟩
      simp only [hneed, ↓reduceIte, ne_eq, not_true_eq_false, hopen, hroom]
  · have hneed : needsBucket s = false := by simp [needsBucket, ho, hfull]
    have hroom : lrbRecCount s p < s.reCfg.ccfRecBatchCount := by omega
    refine ⟨recInsert s p rec, 0, ?_⟩
    simp only [hneed, Bool.false_eq_true, ↓reduceIte, ne_eq, not_true_eq_false, ho, hroom]

/-- The reading loop can only be left waiting for the next record. -/
theorem HasOpen.recv_loop (h : HasOpen s) (he : recvLoop s n script = .error e) : e = .waiting := by
  induction script generalizing s n with
  | nil =>
    cases he
    rfl
  | cons ev script ih =>
    cases ev with
    | sigterm => exact ih (h.flags s.reClpriv true) he
    | fail rc => simp [recvLoop] at he
    | recv rec alloc block =>
      simp only [recvLoop, pure, Except.pure] at he
      split at he
      · cases he
      split at he
      · exact ih h he
      obtain ⟨t, rc, hst⟩ := h.store_total rec alloc block
      simp only [hst, bind, Except.bind] at he
      split at he
      · cases he
      rename_i hrc
      split at he
      · cases he
      · rcases store_cases hst with ⟨rfl, _, _⟩ | ⟨_, hstored⟩
        · exact absurd hrc (by decide)
        · exact ih (h.stored hstored) he

theorem HasOpen.enqueue (h : HasOpen s) (startRc : Int) (script : List RecvEvent) :
    changelogReaderEnqueue s startRc script ≠ .error .assertion := by
  intro he
  unfold changelogReaderEnqueue at he
  simp only [pure, Except.pure] at he
  split at he
  · cases he
  split at he
  · cases he
  cases hl : recvLoop { s with reClpriv := true } 0 script with
  | error e =>
    rw [hl] at he
    have hw := (h.flags true s.terminateSig).recv_loop hl
    subst hw
    cases he
  | ok res =>
    rw [hl] at he
    cases he

/-- A negative batch count lets a record through to the second assertion. -/
theorem negative_batch_store (hneg : s.reCfg.ccfRecBatchCount < 0) (hp : s.reCurrentOpen = some p)
    (r : ChangelogRec) (alloc : Bool) (block : Option Nat) :
    changelogReaderRecStore s r alloc block = .error .assertion := by
  have hpos : 0 ≤ lrbRecCount s p := Int.natCast_nonneg _
  have hneed : needsBucket s = false := by
    have hne : lrbRecCount s p ≠ s.reCfg.ccfRecBatchCount := by omega
    simp only [needsBucket, hp, hne, decide_false]
  have hno : ¬ lrbRecCount s p < s.reCfg.ccfRecBatchCount := by omega
  unfold changelogReaderRecStore
  simp only [hneed, Bool.false_eq_true, ↓reduceIte, ne_eq, not_true_eq_false, hp, hno]
  rfl

theorem negative_batch_asserts (hneg : s.reCfg.ccfRecBatchCount < 0)
    (hopen : s.reCurrentOpen.isSome = true) (hroom : changelogReaderFull s = false)
    (hterm : s.terminateSig = false) (hidx : s.reSrec ≤ r.crIndex) :
    changelogReaderEnqueue s 0 [.recv r true none] = .error .assertion := by
  obtain ⟨p, hp⟩ := Option.isSome_iff_exists.mp hopen
  have hloop : ∀ u : ReaderEnv, u.terminateSig = false → u.reSrec ≤ r.crIndex →
      changelogReaderRecStore u r true none = .error .assertion →
      recvLoop u 0 [.recv r true none] = .error .assertion := by
    intro u hu hi hstore
    simp only [recvLoop, hu, Bool.false_eq_true, ↓reduceIte, Nat.not_lt.mpr hi, hstore]
    rfl
  have hread := hloop { s with reClpriv := true } hterm hidx
    (negative_batch_store (s := { s with reClpriv := true }) hneg hp r true none)
  unfold changelogReaderEnqueue
  simp only [hroom, hread]
  simp [bind, Except.bind]

namespace Sample

/-- A configuration file in which both limits are negative. -/
def negativeFile : List UInt8 :=
  bytes "mdtdevice lustre-MDT0000\nclreader cl1\nbatch_records -1\nmax_buckets -1\n"

def negative : ParsedCfg :=
  ((lcapCfgInit [] (fun _ => some negativeFile) (fun _ => {}) 0).map Prod.fst).getD {}

/-- Batches so far below zero that no reader starts. -/
def unstarted : ParsedCfg := { ccfRecBatchCount := -9, ccfMaxBkt := -9 }

end Sample

end Lcap.Proofs
