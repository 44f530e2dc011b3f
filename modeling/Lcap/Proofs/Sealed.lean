import Lcap.Proofs.Filing
import Lcap.Proofs.Ownership

namespace Lcap.Proofs
open Reader Systems

/-- What a run does to the buckets before the open one: nothing to their contents.
Only the last bucket, or a later one, takes records, and only later ones. -/
structure Extends (s t : ReaderEnv) : Prop where
  idx : s.reBktIdx ≤ t.reBktIdx
  srec : s.reSrec ≤ t.reSrec
  contents : ∀ p, p + 1 < s.reBktIdx →
    (t.mem p).lrbRecords = (s.mem p).lrbRecords ∧ (t.mem p).lrbSize = (s.mem p).lrbSize
  trace : ∃ post, t.trace = s.trace ++ post ∧
    ∀ p r, .stored p r ∈ post → s.reBktIdx ≤ p + 1 ∧ s.reSrec ≤ r.crIndex

theorem Extends.refl (s : ReaderEnv) : Extends s s :=
  ⟨le_rfl, le_rfl, fun _ _ => ⟨rfl, rfl⟩, [], (List.append_nil _).symm, by simp⟩

theorem Extends.trans (h : Extends s t) (h' : Extends t u) : Extends s u := by
  refine ⟨h.idx.trans h'.idx, h.srec.trans h'.srec, ?_, ?_⟩
  · intro p hp
    obtain ⟨hr, hsz⟩ := h.contents p hp
    obtain ⟨hr', hsz'⟩ := h'.contents p (Nat.lt_of_lt_of_le hp h.idx)
    exact ⟨hr'.trans hr, hsz'.trans hsz⟩
  · obtain ⟨post, he, hp⟩ := h.trace
    obtain ⟨post', he', hp'⟩ := h'.trace
    refine ⟨post ++ post', by rw [he', he, List.append_assoc], ?_⟩
    intro p r hm
    rcases List.mem_append.mp hm with hm | hm
    · exact hp p r hm
    · exact ⟨h.idx.trans (hp' p r hm).1, h.srec.trans (hp' p r hm).2⟩

theorem Quiet.extends (h : Quiet s t) : Extends s t := by
  obtain ⟨post, he, hp⟩ := h.trace
  exact ⟨h.idx.ge, h.srec.ge, fun p _ => h.contents p, post, he,
    fun p r hm => absurd hm (hp p r)⟩

theorem Extends.openBucket (hb : OwnBlock s b) : Extends s (openBucket s b) := by
  unfold OwnBlock at hb
  refine ⟨Nat.le_succ _, le_rfl, ?_, [.opened s.reBktIdx], rfl, by simp⟩
  intro p hp
  rw [open_bucket_mem (by omega)]
  exact ⟨rfl, rfl⟩

/-- A record goes into the open bucket, which is the last one opened. -/
theorem Extends.insert (hs : Settled s) (hp : p + 1 = s.reBktIdx) (hi : s.reSrec ≤ r.crIndex) :
    Extends s (recCounted (recInsert s p r) r) := by
  refine ⟨le_rfl, Nat.le_succ_of_le hi, ?_, [.stored (s.mem p).lrbIndex r], rfl, ?_⟩
  · intro q hq
    rw [insert_mem_other (by omega)]
    exact ⟨rfl, rfl⟩
  · intro q r' hm
    cases List.mem_singleton.mp hm
    rw [hs.index p]
    exact ⟨hp.ge, hi⟩

theorem Extends.stored (hs : Settled s) (hi : s.reSrec ≤ r.crIndex) (hst : Stored s r none t) :
    Extends s (recCounted t r) := by
  cases hst with
  | insert ho _ =>
    rw [hs.open_last] at ho
    cases ho
    exact .insert hs (Nat.sub_add_cancel hs.pos) hi
  | spill _ _ =>
    exact (Extends.openBucket (b := s.reBktIdx) rfl).trans (.insert hs.openBucket rfl hi)

theorem step_extends (h : Settled s) (hc : Unaliased s l) (hs : readerStep s l = some t) :
    Extends s t := by
  refine (step_settled (P := Extends s) h hc ?_ ?_ ?_ hs (.refl s)).2
  · exact fun u b c d hu => hu.trans (Quiet.flags u b c d).extends
  · exact fun _ _ _ hu hext _ hi _ hst => hext.trans (.stored hu hi hst)
  · intro req io u rc _ hn hserved
    refine ((served_rests_new hn hserved).trans (answered_quiet u req io rc)).preserve
      ?_ ?_ (.refl s)
    · exact fun _ _ hu hq => hu.trans hq.extends
    · exact fun _ _ hu hb => hu.trans (.openBucket hb)

theorem run_extends (hs : Reach (reader cfg idx) Unaliased s)
    (ht : Steps (reader cfg idx) Unaliased s t) : Extends s t := by
  induction ht with
  | refl => exact .refl s
  | tail hr hc hstep ih =>
    exact ih.trans (step_extends (reach_settled (hs.trans hr) fun _ _ hl => hl) hc hstep)

/-! ## The history of a bucket that has been given away -/

/-- Every bucket ever assigned lies before the open one, and every message made
of a bucket is the one the bucket still packs to. -/
structure Given (s : ReaderEnv) : Prop where
  assigned : ∀ cid p, .assigned cid p ∈ s.trace → p + 1 < s.reBktIdx
  sent : ∀ dst p msg rc, .sent dst (some p) msg rc ∈ s.trace →
    p + 1 < s.reBktIdx ∧ msg = packEnqueue (s.mem p)

theorem pack_congr (h : b'.lrbRecords = b.lrbRecords ∧ b'.lrbSize = b.lrbSize) :
    packEnqueue b' = packEnqueue b := by
  rw [packEnqueue, packEnqueue, h.1, h.2]

/-- Only the new events need a look when the contents stay as they are. -/
theorem Given.extend (h : Given s) (post : List Event) (he : Extends s t)
    (ht : t.trace = s.trace ++ post) (ha : ∀ cid p, .assigned cid p ∈ post → p + 1 < t.reBktIdx)
    (hs : ∀ dst p msg rc, .sent dst (some p) msg rc ∈ post →
      p + 1 < t.reBktIdx ∧ msg = packEnqueue (t.mem p)) : Given t := by
  refine ⟨?_, ?_⟩
  · intro cid p hm
    rw [ht] at hm
    rcases List.mem_append.mp hm with hm | hm
    · exact Nat.lt_of_lt_of_le (h.assigned cid p hm) he.idx
    · exact ha cid p hm
  · intro dst p msg rc hm
    rw [ht] at hm
    rcases List.mem_append.mp hm with hm | hm
    · obtain ⟨hp, hmsg⟩ := h.sent dst p msg rc hm
      exact ⟨Nat.lt_of_lt_of_le hp he.idx, hmsg.trans (pack_congr (he.contents p hp)).symm⟩
    · exact hs dst p msg rc hm

theorem Given.openBucket (h : Given s) : Given (openBucket s s.reBktIdx) :=
  h.extend [.opened s.reBktIdx] (.openBucket rfl) rfl (by simp) (by simp)

theorem Given.insert (hs : Settled s) (h : Given s) (hp : p + 1 = s.reBktIdx)
    (hi : s.reSrec ≤ r.crIndex) : Given (recCounted (recInsert s p r) r) :=
  h.extend [.stored (s.mem p).lrbIndex r] (.insert hs hp hi) rfl (by simp) (by simp)

theorem Given.acknowledge (h : Given s) (cid : ConnId) (p : Nat) :
    Given (acknowledgeBucket s cid p) :=
  h.extend [.acknowledged cid (s.mem p).lrbIndex] (Quiet.acknowledge s cid p).extends rfl
    (by simp) (by simp)

theorem Given.logAck (h : Given s) (cid : ConnId) (ret : Int) (out : Option Errno) :
    Given (logAck s cid ret out) :=
  h.extend [_] (Quiet.logAck s cid ret out).extends rfl (by simp) (by simp)

theorem Given.logClear (h : Given s) (endrec rc : Int) : Given (logClear s endrec rc) :=
  h.extend [_] (Quiet.logClear s endrec rc).extends rfl (by simp) (by simp)

theorem Given.destroy (h : Given s) (p : Nat) : Given (recBucketDestroy s p) :=
  h.extend [.destroyed (s.mem p).lrbIndex] (Quiet.destroy s p).extends rfl (by simp) (by simp)

theorem Given.fetch (h : Given s) (hf : Fetch s io t b) : Given t :=
  h.extend [] (Quiet.fetch hf).extends
    ((fetch_frame hf).2.2.2.2.1.trans (List.append_nil _).symm) (by simp) (by simp)

theorem Given.assign (h : Given s) (cid : ConnId) (hid : (s.mem p).lrbIndex = p)
    (hp : p + 1 < s.reBktIdx) : Given (assignBucket s cid p) := by
  refine h.extend [.assigned cid (s.mem p).lrbIndex] (Quiet.assign s cid p).extends rfl ?_ (by simp)
  intro c q hm
  cases List.mem_singleton.mp hm
  rw [hid]
  exact hp

theorem Given.send (h : Given s) (cid : ConnId) (io : RpcIo) (hid : (s.mem p).lrbIndex = p)
    (hp : p + 1 < s.reBktIdx) : Given (sendBucket s cid p io) := by
  have hq := Quiet.send s cid p io
  refine h.extend [_] hq.extends rfl (by simp) ?_
  intro dst q msg rc hm
  rw [hid] at hm
  cases List.mem_singleton.mp hm
  exact ⟨hp, (pack_congr (hq.contents p)).symm⟩

theorem Given.served (hs : Settled s) (h : Given s) (hn : CallocNew s io)
    (hserved : Served s req io t rc) : Given t := by
  have hgive : ∀ {u p}, Fetch s io u (some p) →
      (Settled (sealOpen u p io) ∧ p + 1 < (sealOpen u p io).reBktIdx) ∧
        Given (assignBucket (sealOpen u p io) req.lrForward p) := by
    intro u p hf
    have hu := (hs.fetch hf).1
    have hseal := hu.sealOpen (hn.fetch hf) p
    have hlt : p + 1 < (sealOpen u p io).reBktIdx := hu.sealed_lt (hs.fetched_lt hf) io
    exact ⟨⟨hseal, hlt⟩,
      Given.assign (seal_open_preserve_new (hn.fetch hf) (fun hg => hg.openBucket)
      (h.fetch hf) p) _ (hseal.index p) hlt⟩
  cases hserved with
  | refused _ _ | eof _ _ _ | vacuous _ _ => exact h
  | registered _ _ => exact Given.logAck (s := registerClient s req) ⟨h.assigned, h.sent⟩ _ _ _
  | deregistered _ _ =>
    exact Given.logAck (s := deregisterClient s req.lrForward) ⟨h.assigned, h.sent⟩ _ _ _
  | unopened _ _ hf _ _ => exact h.fetch hf
  | unpacked _ _ hf _ _ => exact (hgive hf).2
  | @delivered u p _ _ hf _ _ _ =>
    obtain ⟨⟨hseal, hlt⟩, hg⟩ := hgive hf
    exact hg.send _ io (hseal.index p) hlt
  | pending _ _ _ _ => exact (h.acknowledge _ _).logAck _ _ _
  | failed _ _ _ _ _ _ => exact (h.acknowledge _ _).logClear _ _
  | purged _ _ _ _ _ _ _ => exact (((h.acknowledge _ _).logClear _ _).destroy _).logAck _ _ _

theorem reach_given (h : Reach (reader cfg idx) C s) (hc : ∀ s l, C s l → Unaliased s l) :
    Given s :=
  settled_filed_induct h hc ⟨by simp [initialReader], by simp [initialReader]⟩
    (fun _ _ _ _ hs => { hs with }) (fun _ _ _ hsettled hs hp hi _ => hs.insert hsettled hp hi)
    (fun _ _ hs _ _ => hs.openBucket) (fun _ cid ret out hs => hs.logAck cid ret out)
    (fun _ _ _ _ _ hsettled _ hs _ hn hst => hs.served hsettled hn hst)

/-- As long as no bucket lies in the released block that `re_cleanup_next` is on, the
contents of a bucket are fixed from the moment it is assigned: every message made of it is
the same one, and whatever is stored later lies beyond what its CLEAR covers. -/
theorem assigned_bucket_sealed (hs : Reach (reader cfg idx) Unaliased s)
    (ha : .assigned c p ∈ s.trace) (ht : Steps (reader cfg idx) Unaliased s t) :
    (t.mem p).lrbRecords = (s.mem p).lrbRecords ∧ (t.mem p).lrbSize = (s.mem p).lrbSize ∧
    (∀ dst msg rc, .sent dst (some p) msg rc ∈ t.trace → msg = packEnqueue (s.mem p)) ∧
    ∃ post, t.trace = s.trace ++ post ∧ ∀ q r, .stored q r ∈ post →
      q ≠ p ∧ ∀ endrec, recBucketMaxIndex t p = .ok endrec → endrec < r.crIndex := by
  have hp := (reach_given hs fun _ _ hl => hl).assigned c p ha
  have hext := run_extends hs ht
  have hcontents := hext.contents p hp
  obtain ⟨post, he, hpost⟩ := hext.trace
  refine ⟨hcontents.1, hcontents.2, ?_, post, he, ?_⟩
  · intro dst msg rc hm
    rw [((reach_given (hs.trans ht) fun _ _ hl => hl).sent dst p msg rc hm).2]
    exact pack_congr hcontents
  · intro q r hm
    obtain ⟨hq, hr⟩ := hpost q r hm
    refine ⟨by omega, ?_⟩
    intro endrec hmax
    rcases max_index_cases hmax with ⟨_, rfl⟩ | ⟨last, hlast, _, rfl⟩
    · omega
    · rw [hcontents.1] at hlast
      have hsettled := reach_settled hs fun _ _ hl => hl
      have := (reach_filed hs).mem_below (hsettled.known (by omega)) (List.mem_of_getLast? hlast)
      omega

namespace Sample

def oneDelivery : List Label :=
  [read [record 1], .request (start [1]) (calm 5), .request (dequeue [1]) (calm 5)]

/-- A bucket is sent twice, and records are stored between the two. -/
def resent : ReaderEnv :=
  replay (reader cfg 0) (after oneDelivery)
    [.request (start [2]) (calm 6), batch [record 2, record 3], .request (dequeue [2]) (calm 20)]

/-- A client has acknowledged an empty bucket, holds the released block all the same, and
gets the open bucket that comes to lie there destroyed. -/
def dangling : List Label :=
  [.request (start [1]) (calm 7), .request (dequeue [1]) (calm 7), .request (clear [1]) (calm 8),
    .request (dequeue [1]) (calm 20), reusing [record 1, record 2], reusing [record 3, record 4],
    .request (clear [1]) (calm 21)]

/-- The block of the destroyed open bucket is both handed out and opened again. -/
def reopened : List Label := dangling ++ [.request (dequeue [1]) (recycling 27)]

end Sample

set_option maxRecDepth 2000 in
theorem assigned_bucket_sealed_resent :
    (Sample.resent.mem 0).lrbRecords = ((Sample.after Sample.oneDelivery).mem 0).lrbRecords :=
  (assigned_bucket_sealed (c := [1]) (Sample.reach_after (by decide +kernel)) (by decide +kernel)
    (steps_of_obeys (by decide +kernel))).1

set_option maxRecDepth 2000 in
/-- A bucket that has been assigned and sent empty takes two records: the DEQUEUE has found
the block of a destroyed open bucket through `re_cleanup_next`, and `rec_bucket_add` has
opened the next bucket in the same block. -/
theorem assigned_bucket_filled :
    ∃ s t, Reach (reader Sample.cfg 0) Always s ∧ Steps (reader Sample.cfg 0) Always s t ∧
      .assigned [1] 3 ∈ s.trace ∧ Holds t [1] 0 ∧ 0 ∈ s.reBuckets ∧ 0 ∈ t.reBuckets ∧
      (s.mem 0).lrbIndex = 3 ∧ (t.mem 0).lrbIndex = 3 ∧ (s.mem 0).lrbRecords = [] ∧
      (t.mem 0).lrbRecords = [Sample.record 5, Sample.record 6] := by
  refine ⟨Sample.after Sample.reopened, replay (reader Sample.cfg 0) (Sample.after Sample.reopened)
    [Sample.batch [Sample.record 5, Sample.record 6]], Sample.reach_after (by decide +kernel),
    steps_of_obeys (by decide +kernel), by decide +kernel, ⟨_, rfl, rfl⟩, by decide +kernel,
    by decide +kernel, rfl, rfl, rfl, rfl⟩

end Lcap.Proofs
