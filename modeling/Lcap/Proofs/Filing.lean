import Lcap.Proofs.Settled
import Lcap.Systems.Joined

namespace Lcap.Proofs
open Reader Systems

/-! ## The stored records in the history -/

def storedRecord : Event → Option ChangelogRec
  | .stored _ r => some r
  | _ => none

def storedAt (p : Nat) : Event → Option ChangelogRec
  | .stored q r => if q = p then some r else none
  | _ => none

/-- The records stored so far, in the order of their storage. -/
def storedRecords (tr : List Event) : List ChangelogRec := tr.filterMap storedRecord

/-- The records stored in one bucket. -/
def storedIn (p : Nat) (tr : List Event) : List ChangelogRec := tr.filterMap (storedAt p)

theorem stored_records_append (a b : List Event) :
    storedRecords (a ++ b) = storedRecords a ++ storedRecords b :=
  List.filterMap_append

theorem stored_in_append (p : Nat) (a b : List Event) :
    storedIn p (a ++ b) = storedIn p a ++ storedIn p b :=
  List.filterMap_append

theorem mem_stored_in : r ∈ storedIn p tr ↔ .stored p r ∈ tr := by
  simp only [storedIn, List.mem_filterMap]
  constructor
  · rintro ⟨e, he, hr⟩
    unfold storedAt at hr
    split at hr
    · split at hr
      · rename_i hq
        cases hr
        exact hq ▸ he
      · cases hr
    · cases hr
  · exact fun h => ⟨_, h, by simp [storedAt]⟩

theorem mem_stored_records : r ∈ storedRecords tr ↔ ∃ p, .stored p r ∈ tr := by
  simp only [storedRecords, List.mem_filterMap]
  constructor
  · rintro ⟨e, he, hr⟩
    unfold storedRecord at hr
    split at hr
    · rename_i p _
      cases hr
      exact ⟨p, he⟩
    · cases hr
  · exact fun ⟨p, h⟩ => ⟨_, h, rfl⟩

theorem stored_records_eq_nil (h : ∀ p r, .stored p r ∉ tr) : storedRecords tr = [] := by
  apply List.eq_nil_iff_forall_not_mem.mpr
  intro r hr
  obtain ⟨p, hp⟩ := mem_stored_records.mp hr
  exact h p r hp

theorem stored_in_eq_nil (h : ∀ r, .stored p r ∉ tr) : storedIn p tr = [] := by
  apply List.eq_nil_iff_forall_not_mem.mpr
  intro r hr
  exact h r (mem_stored_in.mp hr)

/-! ## What a step does to the records -/

/-- No bucket is opened and no record stored. -/
structure Quiet (s t : ReaderEnv) : Prop where
  idx : t.reBktIdx = s.reBktIdx
  srec : t.reSrec = s.reSrec
  cfg : t.reCfg = s.reCfg
  current : t.reCurrentOpen = s.reCurrentOpen
  list : t.reBuckets ⊆ s.reBuckets
  index : ∀ p, (t.mem p).lrbIndex = (s.mem p).lrbIndex
  contents : ∀ p, (t.mem p).lrbRecords = (s.mem p).lrbRecords ∧
    (t.mem p).lrbSize = (s.mem p).lrbSize
  trace : ∃ post, t.trace = s.trace ++ post ∧ ∀ p r, .stored p r ∉ post

theorem Quiet.known (h : Quiet s t) (hp : Known t p) : Known s p := hp.imp_right fun hm => h.list hm

/-- The buckets are the same, and what the history has more is no record. -/
theorem Quiet.same (hi : t.reBktIdx = s.reBktIdx) (hs : t.reSrec = s.reSrec)
    (hc : t.reCfg = s.reCfg)
    (ho : t.reCurrentOpen = s.reCurrentOpen) (hl : t.reBuckets = s.reBuckets) (hm : t.mem = s.mem)
    (ht : t.trace = s.trace ++ post)
    (hp : ∀ p r, .stored p r ∉ post) : Quiet s t :=
  ⟨hi, hs, hc, ho, fun _ h => hl ▸ h, fun p => by rw [hm], fun p => by rw [hm]; exact ⟨rfl, rfl⟩,
    post, ht, hp⟩

theorem Quiet.refl (s : ReaderEnv) : Quiet s s :=
  .same rfl rfl rfl rfl rfl rfl (List.append_nil _).symm (by simp)

theorem Quiet.flags (s : ReaderEnv) (b c d : Bool) :
    Quiet s { s with reClpriv := b, terminateSig := c, stopped := d } :=
  .same rfl rfl rfl rfl rfl rfl (List.append_nil _).symm (by simp)

theorem Quiet.trans (h : Quiet s t) (h' : Quiet t u) : Quiet s u := by
  refine ⟨h'.idx.trans h.idx, h'.srec.trans h.srec, h'.cfg.trans h.cfg, h'.current.trans h.current,
    fun _ hm => h.list (h'.list hm), fun p => (h'.index p).trans (h.index p), ?_, ?_⟩
  · exact fun p => ⟨(h'.contents p).1.trans (h.contents p).1,
      (h'.contents p).2.trans (h.contents p).2⟩
  · obtain ⟨post, he, hp⟩ := h.trace
    obtain ⟨post', he', hp'⟩ := h'.trace
    refine ⟨post ++ post', by rw [he', he, List.append_assoc], ?_⟩
    intro p r hm
    rcases List.mem_append.mp hm with hm | hm
    · exact hp p r hm
    · exact hp' p r hm

theorem Quiet.fetch (hf : Fetch s io t b) : Quiet s t := by
  obtain ⟨hi, hl, _, ho, ht, hm⟩ := fetch_frame hf
  refine ⟨hi, ?_, ?_, ho, fun _ h => hl ▸ h, fun p => (hm.expiry p).2, hm.records, [], by
    simp [ht], by simp⟩
  · cases hf <;> rfl
  · cases hf <;> rfl

theorem Quiet.log (s : ReaderEnv) (e : Event) (he : ∀ p r, e ≠ .stored p r) :
    Quiet s (s.log e) :=
  .same rfl rfl rfl rfl rfl rfl rfl fun p r h => he p r (List.mem_singleton.mp h).symm

theorem Quiet.logAck (s : ReaderEnv) (cid : ConnId) (ret : Int) (out : Option Errno) :
    Quiet s (logAck s cid ret out) :=
  .log s _ (by simp)

theorem Quiet.assign (s : ReaderEnv) (cid : ConnId) (p : Nat) : Quiet s (assignBucket s cid p) := by
  have ht : (assignBucket s cid p).trace = s.trace ++ [.assigned cid (s.mem p).lrbIndex] := rfl
  exact .same rfl rfl rfl rfl rfl rfl ht (by simp)

theorem Quiet.register (s : ReaderEnv) (req : LcapnetRequest) : Quiet s (registerClient s req) :=
  .same rfl rfl rfl rfl rfl rfl (List.append_nil _).symm (by simp)

theorem Quiet.deregister (s : ReaderEnv) (cid : ConnId) : Quiet s (deregisterClient s cid) :=
  .same rfl rfl rfl rfl rfl rfl (List.append_nil _).symm (by simp)

/-- A write to a bucket that touches neither its number nor its records. -/
theorem Quiet.modify (s : ReaderEnv) (p : Nat) (f : LcapRecBucket → LcapRecBucket)
    (hf : ∀ b, ((f b).lrbIndex, (f b).lrbRecords, (f b).lrbSize) =
      (b.lrbIndex, b.lrbRecords, b.lrbSize)) :
    Quiet s (s.modify p f) := by
  have hm := fun q => modify_congr (fun b => (b.lrbIndex, b.lrbRecords, b.lrbSize)) f hf s p q
  exact ⟨rfl, rfl, rfl, rfl, fun _ h => h, fun q => (Prod.mk.inj (hm q)).1,
    fun q => Prod.mk.inj (Prod.mk.inj (hm q)).2, [], (List.append_nil _).symm, by simp⟩

theorem Quiet.send (s : ReaderEnv) (cid : ConnId) (p : Nat) (io : RpcIo) :
    Quiet s (sendBucket s cid p io) :=
  (Quiet.modify s p (fun b => { b with lrbExpiry := io.sendNow + ackTimeoutSec })
    fun _ => rfl).trans (.log _ _ (by simp))

theorem Quiet.acknowledge (s : ReaderEnv) (cid : ConnId) (p : Nat) :
    Quiet s (acknowledgeBucket s cid p) := by
  have ht : (acknowledgeBucket s cid p).trace =
      (s.modify p fun b => { b with lrbReady := true }).trace ++
        [.acknowledged cid (s.mem p).lrbIndex] := rfl
  exact (Quiet.modify s p (fun b => { b with lrbReady := true }) fun _ => rfl).trans
    (.same rfl rfl rfl rfl rfl rfl ht (by simp))

theorem Quiet.logClear (s : ReaderEnv) (endrec rc : Int) : Quiet s (logClear s endrec rc) :=
  .log s _ (by simp)

theorem Quiet.destroy (s : ReaderEnv) (p : Nat) : Quiet s (recBucketDestroy s p) := by
  have hm := Quiet.modify s p freeRecords fun _ => rfl
  exact ⟨rfl, rfl, rfl, rfl, List.erase_subset, hm.index, hm.contents,
    [.destroyed (s.mem p).lrbIndex], rfl, by simp⟩

/-- A block in which the next bucket may lie. -/
def Vacant (s : ReaderEnv) (b : Nat) : Prop := b ∉ s.reBuckets ∧ b ≤ s.reBktIdx

/-- From `s` to `t` nothing is stored, and at most one bucket opened, in such a block. -/
def Rests (B : ReaderEnv → Nat → Prop) (s t : ReaderEnv) : Prop :=
  Quiet s t ∨ ∃ u b, Quiet s u ∧ B u b ∧ Quiet (openBucket u b) t

section
variable {B : ReaderEnv → Nat → Prop}

theorem Rests.trans (h : Rests B s t) (h' : Quiet t u) : Rests B s u := by
  rcases h with h | ⟨v, b, hv, hb, h⟩
  · exact .inl (h.trans h')
  · exact .inr ⟨v, b, hv, hb, h.trans h'⟩

theorem Rests.preserve {P : ReaderEnv → Prop} (h : Rests B s t)
    (hquiet : ∀ s t, P s → Quiet s t → P t)
    (hopen : ∀ s b, P s → B s b → P (openBucket s b)) (hs : P s) : P t := by
  rcases h with hq | ⟨u, b, hu, hb, hq⟩
  · exact hquiet s t hs hq
  · exact hquiet _ t (hopen u b (hquiet s u hs hu) hb) hq

theorem Served.rests (hs : Served s req io t rc)
    (hb : ∀ u p, Fetch s io u (some p) → B u (callocBlock u io.bktBlock)) : Rests B s t := by
  have hgive : ∀ {u p}, Fetch s io u (some p) →
      Rests B s (assignBucket (sealOpen u p io) req.lrForward p) := by
    intro u p hf
    have hu := Quiet.fetch hf
    unfold sealOpen
    split
    · exact .inr ⟨u, _, hu, hb u p hf, .assign _ _ p⟩
    · exact .inl (hu.trans (.assign _ _ p))
  cases hs with
  | refused _ _ | eof _ _ _ | vacuous _ _ => exact .inl (.refl s)
  | registered _ _ => exact .inl ((Quiet.register s req).trans (.logAck _ _ _ _))
  | deregistered _ _ => exact .inl ((Quiet.deregister s _).trans (.logAck _ _ _ _))
  | unopened _ _ hf _ _ => exact .inl (.fetch hf)
  | unpacked _ _ hf _ _ => exact hgive hf
  | delivered _ _ hf _ _ _ => exact (hgive hf).trans (.send _ _ _ io)
  | pending _ _ _ _ => exact .inl ((Quiet.acknowledge s _ _).trans (.logAck _ _ _ _))
  | failed _ _ _ _ _ _ => exact .inl ((Quiet.acknowledge s _ _).trans (.logClear _ _ _))
  | purged _ _ _ _ _ _ _ =>
    exact .inl ((((Quiet.acknowledge s _ _).trans (.logClear _ _ _)).trans (.destroy _ _)).trans
      (.logAck _ _ _ _))

end

theorem served_rests (hshape : Shape s) (hs : Served s req io t rc) : Rests Vacant s t :=
  hs.rests fun _ _ hf => (hshape.fetch hf).calloc_free _

/-- The next bucket gets a block of its own. -/
def OwnBlock (s : ReaderEnv) (b : Nat) : Prop := b = s.reBktIdx

theorem served_rests_new (hn : CallocNew s io) (hs : Served s req io t rc) : Rests OwnBlock s t :=
  hs.rests fun _ _ hf => hn.fetch hf

theorem answered_quiet (s : ReaderEnv) (req : LcapnetRequest) (io : RpcIo) (rc : Int) :
    Quiet s (answered s req io rc) :=
  answered_preserve (P := Quiet s) (fun t _ _ ht => ht.trans (.logAck t _ _ _)) (.refl s) rc

/-- The bucket that the next record goes to. -/
structure IsOpen (s : ReaderEnv) (p : Nat) : Prop where
  current : s.reCurrentOpen = some p
  known : Known s p
  last : (s.mem p).lrbIndex + 1 = s.reBktIdx

theorem Shape.is_open (h : Shape s) (ho : s.reCurrentOpen = some p) : IsOpen s p := by
  obtain ⟨q, hq, hk, hn⟩ := h.opened
  cases ho.symm.trans hq
  exact ⟨ho, hk, hn⟩

theorem open_bucket_open (h : Shape s) (hb : Vacant s b) : IsOpen (openBucket s b) b :=
  (h.openBucket hb).is_open rfl

/-- What a step keeps about the records is checked where a bucket is opened, where a
record goes into the open bucket, and for moves that do neither. -/
theorem step_filing {P : ReaderEnv → Prop} (hshape : Shape s)
    (hquiet : ∀ s t, P s → Quiet s t → P t)
    (hopen : ∀ s b, P s → Vacant s b → P (openBucket s b))
    (hinsert : ∀ s p r, P s → IsOpen s p → s.reSrec ≤ r.crIndex →
      lrbRecCount s p < s.reCfg.ccfRecBatchCount → P (recCounted (recInsert s p r) r))
    (h : readerStep s l = some t) (hs : P s) : P t := by
  have hparts : Shape t ∧ P t := by
    apply step_preserve (P := fun s => Shape s ∧ P s) _ _ _ h ⟨hshape, hs⟩
    · exact fun s b c d hs => ⟨hs.1.flags b c d, hquiet _ _ hs.2 (.flags s b c d)⟩
    · intro s r block t ⟨hshape, hs⟩ _ hi _ _ hst
      refine ⟨hshape.stored hst, ?_⟩
      cases hst with
      | insert ho hc => exact hinsert s _ r hs (hshape.is_open ho) hi hc
      | spill _ hpos =>
        have hb := hshape.calloc_free block
        refine hinsert _ _ r (hopen s _ hs hb) (open_bucket_open hshape hb) hi ?_
        simpa [lrbRecCount, openBucket] using hpos
    · intro req io u rc _ hr
      obtain ⟨v, r, hserved, rfl⟩ := request_served hshape.nodup hr
      exact ⟨(hshape.served hserved).answered, ((served_rests hshape hserved).trans
        (answered_quiet v req io r)).preserve hquiet hopen hs⟩
  exact hparts.2

/-- A step only adds to the history. -/
theorem step_grows (h : Shape s) (hs : readerStep s l = some t) :
    ∃ post, t.trace = s.trace ++ post := by
  have hsnoc : ∀ {u : ReaderEnv} {post}, (∃ pre, u.trace = s.trace ++ pre) →
      ∃ pre, u.trace ++ post = s.trace ++ pre := by
    rintro u post ⟨pre, he⟩
    exact ⟨pre ++ post, by rw [he, List.append_assoc]⟩
  refine step_filing (P := fun t => ∃ post, t.trace = s.trace ++ post) h ?_ ?_ ?_ hs
    ⟨[], (List.append_nil _).symm⟩
  · intro u v hu hq
    obtain ⟨post, he, _⟩ := hq.trace
    rw [he]
    exact hsnoc hu
  · exact fun _ _ hu _ => hsnoc hu
  · exact fun _ _ _ hu _ _ _ => hsnoc hu

abbrev Increasing (l : List ChangelogRec) : Prop := l.Pairwise (fun a b => a.crIndex < b.crIndex)

/-- The buckets keep what the history has stored in them, in the order of their
numbers, and every stored index is below the next one to read. -/
structure Filed (s : ReaderEnv) : Prop where
  kept : ∀ p, Known s p → storedIn (s.mem p).lrbIndex s.trace = (s.mem p).lrbRecords
  ahead : ∀ n, s.reBktIdx ≤ n → storedIn n s.trace = []
  listed : storedRecords s.trace = joined (storedIn · s.trace) s.reBktIdx
  sorted : Increasing (storedRecords s.trace)
  below : ∀ r ∈ storedRecords s.trace, r.crIndex < s.reSrec

theorem Filed.quiet (h : Filed s) (hq : Quiet s t) : Filed t := by
  obtain ⟨post, he, hp⟩ := hq.trace
  have hin : ∀ n, storedIn n t.trace = storedIn n s.trace := by
    intro n
    rw [he, stored_in_append, stored_in_eq_nil (hp n), List.append_nil]
  have hall : storedRecords t.trace = storedRecords s.trace := by
    rw [he, stored_records_append, stored_records_eq_nil hp, List.append_nil]
  refine ⟨?_, ?_, ?_, ?_, ?_⟩
  · intro p hk
    rw [hin, hq.index p, h.kept p (hq.known hk), (hq.contents p).1]
  · intro n hlt
    rw [hin, h.ahead n (hq.idx ▸ hlt)]
  · rw [hall, hq.idx, h.listed]
    exact joined_congr fun n _ => (hin n).symm
  · rw [hall]
    exact h.sorted
  · rw [hall, hq.srec]
    exact h.below

theorem Filed.openBucket (h : Filed s) (b : Nat) : Filed (openBucket s b) := by
  have hin : ∀ n, storedIn n (Reader.openBucket s b).trace = storedIn n s.trace := by
    intro n
    simp only [Reader.openBucket, stored_in_append]
    simp [storedIn, storedAt]
  have hall : storedRecords (Reader.openBucket s b).trace = storedRecords s.trace := by
    simp only [Reader.openBucket, stored_records_append]
    simp [storedRecords, storedRecord]
  refine ⟨?_, ?_, ?_, ?_, ?_⟩
  · intro p hk
    rw [hin]
    by_cases he : p = b
    · rw [he, open_bucket_new]
      exact h.ahead s.reBktIdx le_rfl
    · rw [open_bucket_mem he]
      refine h.kept p (hk.imp_right fun hm => ?_)
      exact (List.mem_append.mp hm).resolve_right fun hb => he (List.mem_singleton.mp hb)
  · intro n hlt
    rw [hin, h.ahead n (Nat.le_of_succ_le hlt)]
  · have hr : (Reader.openBucket s b).reBktIdx = s.reBktIdx + 1 := rfl
    rw [hall, h.listed, hr, joined_succ, hin, h.ahead s.reBktIdx le_rfl, List.append_nil]
    exact joined_congr fun n _ => (hin n).symm
  · rw [hall]
    exact h.sorted
  · rw [hall]
    exact h.below

theorem Filed.insert (hshape : Shape s) (h : Filed s) (hp : IsOpen s p)
    (hi : s.reSrec ≤ r.crIndex) :
    Filed (recCounted (recInsert s p r) r) := by
  have hindex := fun q => insert_index s p q r
  generalize hn : (s.mem p).lrbIndex = n at hindex
  have hlast : n + 1 = s.reBktIdx := hn ▸ hp.last
  have htr : (recCounted (recInsert s p r) r).trace = s.trace ++ [.stored n r] := by
    rw [← hn]
    rfl
  have hall : storedRecords (s.trace ++ [.stored n r]) = storedRecords s.trace ++ [r] := by
    rw [stored_records_append]
    rfl
  have hself : storedIn n (s.trace ++ [.stored n r]) = storedIn n s.trace ++ [r] := by
    rw [stored_in_append]
    simp [storedIn, storedAt]
  have hother : ∀ m, m ≠ n → storedIn m (s.trace ++ [.stored n r]) = storedIn m s.trace := by
    intro m hm
    rw [stored_in_append]
    simp [storedIn, storedAt, Ne.symm hm]
  refine ⟨?_, ?_, ?_, ?_, ?_⟩
  · intro q hq
    have hq : Known s q := hq
    rw [htr, hindex]
    by_cases he : q = p
    · rw [he, hn, hself, ← hn, h.kept p hp.known]
      simp [recCounted, recInsert, ReaderEnv.modify, ReaderEnv.log, recAppend]
    · have hne : (s.mem q).lrbIndex ≠ n :=
        fun hm => he (hshape.apart q p hq hp.known (hm.trans hn.symm))
      rw [hother _ hne, h.kept q hq, insert_mem_other he]
  · intro m hlt
    have hlt : s.reBktIdx ≤ m := hlt
    rw [htr, hother m (by omega), h.ahead m hlt]
  · have hr : (recCounted (recInsert s p r) r).reBktIdx = n + 1 := hlast.symm
    rw [htr, hall, h.listed, hr, ← hlast, joined_succ, joined_succ, hself, List.append_assoc]
    congr 1
    exact joined_congr fun m hm => (hother m (Nat.ne_of_lt hm)).symm
  · rw [htr, hall]
    refine List.pairwise_append.mpr ⟨h.sorted, List.pairwise_singleton _ _, ?_⟩
    intro a ha b hb
    cases List.mem_singleton.mp hb
    exact Nat.lt_of_lt_of_le (h.below a ha) hi
  · intro a ha
    rw [htr, hall] at ha
    have hs : (recCounted (recInsert s p r) r).reSrec = r.crIndex + 1 := rfl
    rw [hs]
    rcases List.mem_append.mp ha with ha | ha
    · have := h.below a ha
      omega
    · cases List.mem_singleton.mp ha
      exact Nat.lt_succ_self _

theorem init_filed (cfg : LcapCfg) (idx : Nat) : Filed (initialReader cfg idx) := by
  refine ⟨fun _ _ => rfl, fun _ _ => rfl, rfl, List.Pairwise.nil, ?_⟩
  intro r hr
  cases hr

theorem Filed.stored (hshape : Shape s) (h : Filed s) (hi : s.reSrec ≤ r.crIndex)
    (hs : Stored s r block t) : Filed (recCounted t r) := by
  cases hs with
  | insert ho _ => exact h.insert hshape (hshape.is_open ho) hi
  | spill _ _ =>
    have hb := hshape.calloc_free block
    exact (h.openBucket _).insert (hshape.openBucket hb) (open_bucket_open hshape hb) hi

theorem Filed.served (hshape : Shape s) (h : Filed s) (hs : Served s req io t rc) :
    Filed (answered t req io rc) :=
  ((served_rests hshape hs).trans (answered_quiet t req io rc)).preserve
    (fun _ _ h hq => h.quiet hq) (fun _ b h _ => h.openBucket b) h

theorem reach_filed (h : Reach (reader cfg idx) C s) : Filed s :=
  reach_induct h (init_filed cfg idx) (fun s b c d hs => hs.quiet (.flags s b c d))
    (fun _ _ _ _ hshape hs hi _ hst => hs.stored hshape hi hst)
    (fun _ _ _ _ _ hshape hs _ hst => hs.served hshape hst)

/-- An invariant of the runs under `C`, checked where a record goes into the open
bucket, where a full one is replaced, where a request is served and answered. -/
theorem filed_induct {P : ReaderEnv → Prop} (h : Reach (reader cfg idx) C s)
    (hinit : P (initialReader cfg idx))
    (hflags : ∀ s b c d, P s → P { s with reClpriv := b, terminateSig := c, stopped := d })
    (hinsert : ∀ s p r, P s → IsOpen s p → s.reSrec ≤ r.crIndex →
      lrbRecCount s p < s.reCfg.ccfRecBatchCount → P (recCounted (recInsert s p r) r))
    (hspill : ∀ s b, Shape s → P s → Vacant s b → 0 < s.reCfg.ccfRecBatchCount →
      (∀ p, IsOpen s p → lrbRecCount s p = s.reCfg.ccfRecBatchCount) → P (openBucket s b))
    (hack : ∀ s cid ret out, P s → P (logAck s cid ret out))
    (hserved : ∀ s req io t rc, Shape s → Filed s → P s → C s (.request req io) →
      Served s req io t rc → P t) : P s := by
  have hparts : Filed s ∧ P s := by
    apply reach_induct (P := fun s => Filed s ∧ P s) h ⟨init_filed cfg idx, hinit⟩
    · exact fun s b c d hs => ⟨hs.1.quiet (.flags s b c d), hflags s b c d hs.2⟩
    · intro s r block t hshape ⟨hf, hs⟩ hi _ hst
      refine ⟨hf.stored hshape hi hst, ?_⟩
      cases hst with
      | insert ho hc => exact hinsert s _ r hs (hshape.is_open ho) hi hc
      | spill hfull hpos =>
        have hb := hshape.calloc_free block
        have hopen := hspill s _ hshape hs hb hpos fun p hp => hfull p hp.current
        refine hinsert _ _ r hopen (open_bucket_open hshape hb) hi ?_
        simpa [lrbRecCount, openBucket] using hpos
    · intro s req io t rc hshape ⟨hf, hs⟩ hc hst
      refine ⟨hf.served hshape hst, ?_⟩
      have ht := hserved s req io t rc hshape hf hs hc hst
      exact answered_preserve (fun t ret out ht => hack t _ ret out ht) ht rc
  exact hparts.2

/-- The same for runs in which every bucket gets a block of its own. -/
theorem settled_filed_induct {P : ReaderEnv → Prop} (h : Reach (reader cfg idx) C s)
    (hc : ∀ s l, C s l → Unaliased s l) (hinit : P (initialReader cfg idx))
    (hflags : ∀ s b c d, P s → P { s with reClpriv := b, terminateSig := c, stopped := d })
    (hinsert : ∀ s p r, Settled s → P s → p + 1 = s.reBktIdx → s.reSrec ≤ r.crIndex →
      lrbRecCount s p < s.reCfg.ccfRecBatchCount → P (recCounted (recInsert s p r) r))
    (hspill : ∀ s, Settled s → P s → 0 < s.reCfg.ccfRecBatchCount →
      (∀ p, p + 1 = s.reBktIdx → lrbRecCount s p = s.reCfg.ccfRecBatchCount) →
      P (openBucket s s.reBktIdx))
    (hack : ∀ s cid ret out, P s → P (logAck s cid ret out))
    (hserved : ∀ s req io t rc, Settled s → Filed s → P s → C s (.request req io) →
      CallocNew s io → Served s req io t rc → P t) : P s := by
  have hopen : ∀ {s p}, Settled s → s.reCurrentOpen = some p → p + 1 = s.reBktIdx := by
    intro s p hs ho
    have hn := (hs.is_open ho).last
    rwa [hs.index] at hn
  have hparts : Filed s ∧ P s := by
    apply settled_induct (P := fun s => Filed s ∧ P s) h hc ⟨init_filed cfg idx, hinit⟩
    · exact fun s b c d hs => ⟨hs.1.quiet (.flags s b c d), hflags s b c d hs.2⟩
    · intro s r t hsettled ⟨hf, hs⟩ hi _ hst
      refine ⟨hf.stored hsettled.toShape hi hst, ?_⟩
      cases hst with
      | insert ho hcnt => exact hinsert s _ r hsettled hs (hopen hsettled ho) hi hcnt
      | spill hfull hpos =>
        have hnew := hspill s hsettled hs hpos fun p hp => hfull p ?_
        · refine hinsert _ _ r hsettled.openBucket hnew rfl hi ?_
          simpa [lrbRecCount, openBucket] using hpos
        · rw [hsettled.open_last, ← hp]
          rfl
    · intro s req io t rc hsettled ⟨hf, hs⟩ hl hn hst
      refine ⟨hf.served hsettled.toShape hst, ?_⟩
      have ht := hserved s req io t rc hsettled hf hs hl hn hst
      exact answered_preserve (fun t ret out ht => hack t _ ret out ht) ht rc
  exact hparts.2

theorem Settled.known (h : Settled s) (hp : p < s.reBktIdx) : Known s p :=
  (Nat.eq_zero_or_pos p).imp_right fun h0 => h.live h0 hp

/-- Where every bucket lies in a block of its own, the history has its records there. -/
theorem Filed.kept_at (hs : Settled s) (h : Filed s) (hp : p < s.reBktIdx) :
    storedIn p s.trace = (s.mem p).lrbRecords := by
  have hk := h.kept p (hs.known hp)
  rwa [hs.index] at hk

theorem Filed.mem_below (h : Filed s) (hk : Known s p) (hr : r ∈ (s.mem p).lrbRecords) :
    r.crIndex < s.reSrec := by
  rw [← h.kept p hk] at hr
  exact h.below r (mem_stored_records.mpr ⟨_, mem_stored_in.mp hr⟩)

end Lcap.Proofs
