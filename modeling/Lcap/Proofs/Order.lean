import Lcap.Proofs.Filing
import Lcap.Proofs.Ownership

namespace Lcap.Proofs
open Reader Systems

def sentBatch : Event → List ChangelogRec
  | .sent _ _ (.enqueue _ _ rs) _ => rs
  | _ => []

/-- The records of all ENQUEUE messages, in the order of their sending. -/
def sentRecords (tr : List Event) : List ChangelogRec := tr.flatMap sentBatch

theorem sent_records_append (a b : List Event) :
    sentRecords (a ++ b) = sentRecords a ++ sentRecords b :=
  List.flatMap_append

theorem sent_records_eq_nil (h : ∀ e ∈ tr, sentBatch e = []) : sentRecords tr = [] :=
  List.flatMap_eq_nil_iff.mpr h

def sentFrom (p : Nat) : Event → Bool
  | .sent _ (some q) _ _ => q == p
  | _ => false

/-- A message has been made of the bucket. -/
def Delivered (tr : List Event) (p : Nat) : Prop := ∃ e ∈ tr, sentFrom p e = true

instance (tr : List Event) (p : Nat) : Decidable (Delivered tr p) :=
  inferInstanceAs (Decidable (∃ e ∈ tr, _))

theorem Delivered.append (h : Delivered tr p) (post : List Event) : Delivered (tr ++ post) p := by
  obtain ⟨e, he, hp⟩ := h
  exact ⟨e, List.mem_append_left _ he, hp⟩

/-- Nothing fails, and the clock has not passed the expiry time of a delivered bucket. -/
def Timely (s : ReaderEnv) : Label → Prop
  | .request _ io =>
    io.bktAlloc = true ∧ io.rpcAlloc = true ∧ io.send = none ∧
    ∀ p ∈ s.reBuckets, Delivered s.trace (s.mem p).lrbIndex →
      io.now ≤ (s.mem p).lrbExpiry
  | _ => True

instance : ∀ (s : ReaderEnv) (l : Label), Decidable (Timely s l)
  | s, .request _ io => inferInstanceAs (Decidable (io.bktAlloc = true ∧ io.rpcAlloc = true ∧
      io.send = none ∧ ∀ p ∈ s.reBuckets, Delivered s.trace (s.mem p).lrbIndex →
        io.now ≤ (s.mem p).lrbExpiry))
  | _, .enqueue _ _ | _, .sigterm => isTrue trivial

/-- The first `k` buckets have been sent, and no other has been given away. -/
structure Emitted (s : ReaderEnv) (k : Nat) : Prop where
  sent : sentRecords s.trace = joined (fun p => (s.mem p).lrbRecords) k
  lt : k < s.reBktIdx
  head : 0 < k → Delivered s.trace 0
  held : ∀ cs ∈ s.rePeers, ∀ p, cs.csBucket = some p → p < k
  ready : ∀ p, (s.mem p).lrbReady = true → p < k

/-- The buckets go out in the order of their numbers; the cursor is on the next. -/
structure InOrder (s : ReaderEnv) (k : Nat) : Prop extends Emitted s k where
  cursor : ∀ q, s.reDeliverNext = some q → q = k
  first : k = 0 → s.reDeliverNext = some 0 ∧ 0 ∈ s.reBuckets

/-- Moves that send no records and take or ready no further bucket. -/
theorem Emitted.frame (h : Emitted s k) (hq : Quiet s t) (post : List Event)
    (ht : t.trace = s.trace ++ post) (hpost : ∀ e ∈ post, sentBatch e = [])
    (hheld : ∀ cs ∈ t.rePeers, ∀ p, cs.csBucket = some p → p < k)
    (hready : ∀ p, (t.mem p).lrbReady = true → p < k) : Emitted t k := by
  refine ⟨?_, hq.idx ▸ h.lt, ?_, hheld, hready⟩
  · rw [ht, sent_records_append, sent_records_eq_nil hpost, List.append_nil, h.sent]
    exact joined_congr fun p _ => (hq.contents p).1.symm
  · exact fun hk => ht ▸ (h.head hk).append post

theorem Emitted.openBucket (h : Emitted s k) : Emitted (openBucket s s.reBktIdx) k := by
  have ht : (Reader.openBucket s s.reBktIdx).trace = s.trace ++ [.opened s.reBktIdx] := rfl
  have hopened : sentRecords [.opened s.reBktIdx] = [] := rfl
  refine ⟨?_, Nat.lt_succ_of_lt h.lt, ?_, h.held, ?_⟩
  · rw [ht, sent_records_append, hopened, List.append_nil, h.sent]
    exact joined_congr fun p hp => by rw [open_bucket_mem (Nat.ne_of_lt (Nat.lt_trans hp h.lt))]
  · exact fun hk => (h.head hk).append _
  · exact fun p hp => h.ready p (open_bucket_ready hp)

theorem Emitted.sealOpen (h : Emitted s k) (hn : CallocNew s io) (p : Nat) :
    Emitted (sealOpen s p io) k :=
  seal_open_preserve_new (P := (Emitted · k)) hn (fun hs => hs.openBucket) h p

theorem Emitted.fetch (h : Emitted s k) (hf : Fetch s io t b) : Emitted t k := by
  obtain ⟨_, _, hp, _, ht, hm⟩ := fetch_frame hf
  exact h.frame (.fetch hf) [] (ht.trans (List.append_nil _).symm) (by simp) (hp ▸ h.held)
    (fun p hr => h.ready p (hm.ready p hr))

/-- A bucket goes out: number `k`, or one without records again. -/
theorem Emitted.deliver (h : Emitted s k) (cid : ConnId) (io : RpcIo) (hk' : k' < s.reBktIdx)
    (hidx : (s.mem p).lrbIndex = p)
    (hsent : joined (fun q => (s.mem q).lrbRecords) k ++ (s.mem p).lrbRecords =
      joined (fun q => (s.mem q).lrbRecords) k')
    (hle : k ≤ k') (hp : p < k') (hzero : k = 0 → p = 0) :
    Emitted (sendBucket (assignBucket s cid p) cid p io) k' := by
  have hq := (Quiet.assign s cid p).trans (.send _ cid p io)
  have htr : (sendBucket (assignBucket s cid p) cid p io).trace = s.trace ++
      [.assigned cid p, .sent cid (some p) (packEnqueue (s.mem p)) (sendRc io.send)] := by
    have hid : ((assignBucket s cid p).mem p).lrbIndex = p := hidx
    simp only [sendBucket, bucketSetExpiryTime, assignBucket, ReaderEnv.log, ReaderEnv.modify,
      hidx, List.append_assoc, List.cons_append, List.nil_append]
  refine ⟨?_, hk', ?_, ?_, ?_⟩
  · have hnew : sentRecords [.assigned cid p, .sent cid (some p) (packEnqueue (s.mem p))
        (sendRc io.send)] = (s.mem p).lrbRecords := by
      simp [sentRecords, sentBatch, packEnqueue]
    rw [htr, sent_records_append, hnew, h.sent, hsent]
    exact joined_congr fun q _ => (hq.contents q).1.symm
  · intro _
    rcases Nat.eq_zero_or_pos k with hk | hk
    · refine ⟨.sent cid (some p) (packEnqueue (s.mem p)) (sendRc io.send), ?_, ?_⟩
      · rw [htr]
        simp
      · simp [sentFrom, hzero hk]
    · exact htr ▸ (h.head hk).append _
  · intro cs hcs q hcq
    rcases mem_set_cs_bucket hcs with hcs | ⟨old, _, _, rfl⟩
    · exact Nat.lt_of_lt_of_le (h.held cs hcs q hcq) hle
    · cases hcq
      exact hp
  · intro q hqr
    rw [send_ready] at hqr
    exact Nat.lt_of_lt_of_le (h.ready q hqr) hle

/-! ## Each part of a step keeps the order -/

theorem InOrder.openBucket (h : InOrder s k) : InOrder (openBucket s s.reBktIdx) k :=
  ⟨h.toEmitted.openBucket, h.cursor, fun hk =>
    ⟨(h.first hk).1, List.mem_append_left _ (h.first hk).2⟩⟩

theorem InOrder.insert (h : InOrder s k) (hp : p + 1 = s.reBktIdx) (r : ChangelogRec) :
    InOrder (recCounted (recInsert s p r) r) k := by
  have hmem : ∀ q, q < k → (recCounted (recInsert s p r) r).mem q = s.mem q := by
    intro q hq
    have := h.lt
    exact insert_mem_other (by omega) s r
  have ht : (recCounted (recInsert s p r) r).trace = s.trace ++ [.stored (s.mem p).lrbIndex r] :=
    rfl
  have hstored : sentRecords [.stored (s.mem p).lrbIndex r] = [] := rfl
  refine ⟨⟨?_, h.lt, ?_, h.held, ?_⟩, h.cursor, h.first⟩
  · rw [ht, sent_records_append, hstored, List.append_nil, h.sent]
    exact joined_congr fun q hq => by rw [hmem q hq]
  · exact fun hk => (h.head hk).append _
  · intro q hq
    rw [insert_ready] at hq
    exact h.ready q hq

theorem InOrder.logAck (h : InOrder s k) (cid : ConnId) (ret : Int) (out : Option Errno) :
    InOrder (logAck s cid ret out) k :=
  ⟨h.toEmitted.frame (.logAck s cid ret out) [_] rfl (by simp [sentBatch]) h.held h.ready,
    h.cursor, h.first⟩

theorem InOrder.register (h : InOrder s k) (req : LcapnetRequest) :
    InOrder (registerClient s req) k := by
  refine ⟨⟨h.sent, h.lt, h.head, ?_, h.ready⟩, h.cursor, h.first⟩
  exact fun cs hcs p hp => h.held cs (mem_register hcs hp) p hp

theorem InOrder.deregister (h : InOrder s k) (cid : ConnId) : InOrder (deregisterClient s cid) k :=
  ⟨⟨h.sent, h.lt, h.head, fun cs hcs => h.held cs (List.mem_of_mem_eraseP hcs), h.ready⟩,
    h.cursor, h.first⟩

theorem InOrder.acknowledge (h : InOrder s k) (hh : Holds s cid p) :
    InOrder (acknowledgeBucket s cid p) k := by
  obtain ⟨cs₀, hg, hb⟩ := hh
  have hp : p < k := h.held cs₀ (mem_of_get hg).1 p hb
  refine ⟨h.toEmitted.frame (.acknowledge s cid p) [_] rfl (by simp [sentBatch]) ?_ ?_,
    h.cursor, h.first⟩
  · exact fun cs hcs q hq => h.held cs (mem_release hcs hq) q hq
  · intro q hq
    rcases acknowledge_ready hq with rfl | hq
    · exact hp
    · exact h.ready q hq

theorem InOrder.logClear (h : InOrder s k) (endrec rc : Int) : InOrder (logClear s endrec rc) k :=
  ⟨h.toEmitted.frame (.logClear s endrec rc) [_] rfl (by simp [sentBatch]) h.held h.ready,
    h.cursor, h.first⟩

/-- Only a bucket that was ready, and so delivered, is released. -/
theorem InOrder.destroy (h : InOrder s k) (hr : (s.mem p).lrbReady = true) :
    InOrder (recBucketDestroy s p) k := by
  have hk := h.ready p hr
  refine ⟨h.toEmitted.frame (.destroy s p) [_] rfl (by simp [sentBatch]) h.held ?_, h.cursor,
    fun h0 => by omega⟩
  intro q hq
  rw [destroy_ready] at hq
  exact h.ready q hq

/-- Before the first delivery the head goes out, expired or not; afterwards only a
released head looks expired, and goes out again only if it has no records. -/
theorem InOrder.send (hsettled : Settled s) (h : InOrder s k) (hn : CallocNew s io)
    (hc : Timely s (.request req io)) (hf : Fetch s io t (some p)) (cid : ConnId)
    (hl : ((sealOpen t p io).mem p).freed = 0) :
    ∃ k', InOrder (sendBucket (assignBucket (sealOpen t p io) cid p) cid p io) k' := by
  have ht := (hsettled.fetch hf).1
  have hnew := hn.fetch hf
  have hsealed := ht.sealed_lt (hsettled.fetched_lt hf) io
  have hidx := (ht.sealOpen hnew p).index p
  have hem := (h.toEmitted.fetch hf).sealOpen hnew p
  have hcur : (sendBucket (assignBucket (sealOpen t p io) cid p) cid p io).reDeliverNext =
      t.reDeliverNext := (seal_open_frame t p io).2.1
  -- the bucket at the cursor is the next in order
  have hnext : p = k → t.reDeliverNext = lnNext s.reBuckets p →
      ∃ k', InOrder (sendBucket (assignBucket (sealOpen t p io) cid p) cid p io) k' := by
    rintro rfl hd
    refine ⟨p + 1, hem.deliver cid io hsealed hidx (joined_succ _ p).symm (Nat.le_succ p)
      (Nat.lt_succ_self p) (fun h0 => h0), ?_, by omega⟩
    intro q hq
    rw [hcur, hd] at hq
    exact (hsettled.next_some hq).1
  have hfree : t.mem p = (sealOpen t p io).mem p :=
    (seal_open_mem_new hnew (hsettled.fetched_lt hf) p).symm
  rw [← hfree] at hl
  cases hf with
  | advance _ _ hd => exact hnext (h.cursor p hd) rfl
  | @rewind head m hcn hx hm _ =>
    have h0 := hsettled.cleanup
    rw [hcn] at h0
    cases h0
    rcases Nat.eq_zero_or_pos k with hk | hk
    · exact hnext hk.symm rfl
    · -- a delivered head that is still on the list has not expired
      have hdead : 0 ∉ s.reBuckets := by
        intro hlive
        have hle := hc.2.2.2 0 hlive ((hsettled.index 0).symm ▸ h.head hk)
        simp only [headExpired, lrbExpiry, if_pos hlive, decide_eq_true_eq] at hx
        omega
      have hnil : ((sealOpen { s with mem := m, reDeliverNext := lnNext s.reBuckets 0 } 0 io).mem
          0).lrbRecords = [] := by
        rw [← hfree, (hm.records 0).1, ← List.length_eq_zero_iff,
          ← hsettled.void hdead, ← hm.freed 0]
        exact hl
      refine ⟨k, hem.deliver cid io hem.lt hidx ?_ le_rfl hk (fun h0 => by omega), ?_, by omega⟩
      · rw [hnil, List.append_nil]
      · intro q hq
        rw [hcur] at hq
        have hq : lnNext s.reBuckets 0 = some q := hq
        rw [ln_next_none hdead] at hq
        cases hq

theorem InOrder.served (hsettled : Settled s) (h : InOrder s k) (hn : CallocNew s io)
    (hc : Timely s (.request req io)) (hs : Served s req io t rc) : ∃ k', InOrder t k' := by
  cases hs with
  | refused _ _ | eof _ _ _ | vacuous _ _ => exact ⟨k, h⟩
  | registered _ _ => exact ⟨k, (h.register req).logAck _ _ _⟩
  | deregistered _ _ => exact ⟨k, (h.deregister _).logAck _ _ _⟩
  | unopened _ _ _ _ ha => cases hc.1.symm.trans ha
  | unpacked _ _ _ _ ha => cases hc.2.1.symm.trans ha
  | delivered _ _ hf _ _ hl => exact h.send hsettled hn hc hf _ hl
  | pending _ hh _ _ => exact ⟨k, (h.acknowledge hh).logAck _ _ _⟩
  | failed _ hh _ _ _ _ => exact ⟨k, (h.acknowledge hh).logClear _ _⟩
  | @purged bkt head endrec _ hh _ hr _ _ hl =>
    have hl' : head ∈ (acknowledgeBucket s req.lrForward bkt).reBuckets := hl
    rw [lrbReady, if_pos hl'] at hr
    exact ⟨k, (((h.acknowledge hh).logClear _ _).destroy hr).logAck _ _ _⟩

/-- Runs without failures and missed deadlines, in which no bucket lies in the released
block that `re_cleanup_next` is on. -/
def Orderly (s : ReaderEnv) (l : Label) : Prop := Timely s l ∧ Unaliased s l

instance (s : ReaderEnv) (l : Label) : Decidable (Orderly s l) :=
  inferInstanceAs (Decidable (_ ∧ _))

theorem reach_in_order (h : Reach (reader cfg idx) Orderly s) : ∃ k, InOrder s k := by
  apply settled_filed_induct (P := fun s => ∃ k, InOrder s k) h fun _ _ hl => hl.2
  · refine ⟨0, ⟨rfl, Nat.one_pos, by omega, ?_, ?_⟩, ?_, fun _ => ⟨rfl, List.mem_singleton_self 0⟩⟩
    · intro cs hcs
      cases hcs
    · intro p hp
      cases hp
    · intro q hq
      exact (Option.some.inj hq).symm
  · exact fun s b c d ⟨k, hk⟩ => ⟨k, ⟨hk.sent, hk.lt, hk.head, hk.held, hk.ready⟩,
      hk.cursor, hk.first⟩
  · exact fun s p r _ ⟨k, hk⟩ hp _ _ => ⟨k, hk.insert hp r⟩
  · exact fun s _ ⟨k, hk⟩ _ _ => ⟨k, hk.openBucket⟩
  · exact fun s cid ret out ⟨k, hk⟩ => ⟨k, hk.logAck cid ret out⟩
  · exact fun s req io t rc hsettled _ ⟨k, hk⟩ hc hn hst => hk.served hsettled hn hc.1 hst

theorem InOrder.initially (hsettled : Settled s) (hfiled : Filed s) (h : InOrder s k) :
    sentRecords s.trace <+: storedRecords s.trace := by
  have hkept : ∀ p < k, (s.mem p).lrbRecords = storedIn p s.trace := fun p hp =>
    (hfiled.kept_at hsettled (Nat.lt_trans hp h.lt)).symm
  rw [h.sent, hfiled.listed, joined_congr hkept]
  exact joined_le _ (Nat.le_of_lt h.lt)

/-- In such a run the messages carry the stored records in their order, each once. -/
theorem sent_records_in_order (h : Reach (reader cfg idx) Orderly s) :
    sentRecords s.trace <+: storedRecords s.trace := by
  obtain ⟨k, hk⟩ := reach_in_order h
  exact hk.initially (reach_settled h fun _ _ hl => hl.2) (reach_filed h)

namespace Sample

/-- The bucket of the records 2 and 3 waits for its turn while the next one comes to lie
in the released block that `re_cleanup_next` is on. -/
def skipping : List Label :=
  [read [record 1], .request (start [1]) (calm 5), .request (dequeue [1]) (calm 5),
    .request (clear [1]) (calm 6), batch [record 2, record 3], reusing [record 4, record 5],
    .request (dequeue [1]) (calm 7)]

end Sample

set_option maxRecDepth 2000 in
theorem sent_records_in_order_sharing :
    sentRecords (Sample.after Sample.sharing).trace <+:
      storedRecords (Sample.after Sample.sharing).trace :=
  sent_records_in_order (Sample.reach_after (by decide +kernel))

set_option maxRecDepth 2000 in
/-- Nothing fails and no deadline is missed, and yet two records are passed over: the
pointer that was left on the released block finds the newest bucket there. -/
theorem records_skipped :
    ∃ s, Reach (reader Sample.cfg 0) Timely s ∧ ¬ sentRecords s.trace <+: storedRecords s.trace ∧
      (sentRecords s.trace).map ChangelogRec.crIndex = [1, 4, 5] ∧
      (storedRecords s.trace).map ChangelogRec.crIndex = [1, 2, 3, 4, 5] := by
  refine ⟨Sample.after Sample.skipping, Sample.reach_after (by decide +kernel), ?_, ?_, ?_⟩
  · decide +kernel
  · decide +kernel
  · decide +kernel

end Lcap.Proofs
