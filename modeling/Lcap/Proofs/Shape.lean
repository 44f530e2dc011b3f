import Lcap.Client.Pack
import Lcap.Proofs.Cases
import Mathlib.Data.List.Range

namespace Lcap.Proofs
open Reader Systems

/-- The buckets that the pointers of a reader lead to: those on the list, and the one at
`re_cleanup_next`, where the first bucket ever lay, whether it is released or not. -/
def Known (s : ReaderEnv) (p : Nat) : Prop := p = 0 ∨ p ∈ s.reBuckets

/-- What holds of every reader. `re_cleanup_next` never leaves the first block, which
therefore is the only one that a run can release. -/
structure Shape (s : ReaderEnv) : Prop where
  cleanup : s.reCleanupNext = some 0
  pos : 0 < s.reBktIdx
  sorted : s.reBuckets.Pairwise fun p q => (s.mem p).lrbIndex < (s.mem q).lrbIndex
  listed : ∀ p ∈ s.reBuckets, p < s.reBktIdx ∧ (s.mem p).freed = 0
  numbered : ∀ p, Known s p → (s.mem p).lrbIndex < s.reBktIdx
  apart : ∀ p q, Known s p → Known s q → (s.mem p).lrbIndex = (s.mem q).lrbIndex → p = q
  opened : ∃ p, s.reCurrentOpen = some p ∧ Known s p ∧ (s.mem p).lrbIndex + 1 = s.reBktIdx
  cursor : ∀ p, s.reDeliverNext = some p → Known s p
  held : ∀ cs ∈ s.rePeers, ∀ p, cs.csBucket = some p → Known s p

theorem ln_next_after {R : Nat → Nat → Prop} (hs : bkts.Pairwise R) (hn : lnNext bkts p = some q) :
    q ∈ bkts ∧ R p q := by
  induction bkts with
  | nil => cases hn
  | cons a rest ih =>
    obtain ⟨ha, hrest⟩ := List.pairwise_cons.mp hs
    unfold lnNext at hn
    split at hn
    · rename_i he
      subst he
      have hq : q ∈ rest := List.mem_of_mem_head? hn
      exact ⟨List.mem_cons_of_mem a hq, ha q hq⟩
    · obtain ⟨hq, hr⟩ := ih hrest hn
      exact ⟨List.mem_cons_of_mem a hq, hr⟩

theorem Shape.nodup (h : Shape s) : s.reBuckets.Nodup := by
  refine h.sorted.imp ?_
  rintro p q hlt rfl
  exact Nat.lt_irrefl _ hlt

theorem Shape.mem_lt (h : Shape s) (hp : p ∈ s.reBuckets) : p < s.reBktIdx := (h.listed p hp).1

/-- The node behind one lies on the list, with a greater index. -/
theorem Shape.after (h : Shape s) (hn : lnNext s.reBuckets p = some q) :
    q ∈ s.reBuckets ∧ (s.mem p).lrbIndex < (s.mem q).lrbIndex :=
  ln_next_after h.sorted hn

/-- What `calloc` returns is on no list. -/
theorem Shape.calloc_free (h : Shape s) (block : Option Nat) :
    callocBlock s block ∉ s.reBuckets ∧ callocBlock s block ≤ s.reBktIdx := by
  have hnew : s.reBktIdx ∉ s.reBuckets := fun hm => Nat.lt_irrefl _ (h.mem_lt hm)
  cases block with
  | none => exact ⟨hnew, le_rfl⟩
  | some block =>
    by_cases hb : block < s.reBktIdx ∧ block ∉ s.reBuckets
    · rw [callocBlock, if_pos hb]
      exact ⟨hb.2, Nat.le_of_lt hb.1⟩
    · rw [callocBlock, if_neg hb]
      exact ⟨hnew, le_rfl⟩

/-! ## The peers -/

theorem same_ident_iff : sameIdent cid cs = true ↔ cs.csIdent = cid := by
  simp only [sameIdent, Bool.and_eq_true, beq_iff_eq, and_iff_right_iff_imp]
  exact fun h => congrArg List.length h

theorem mem_of_get (h : clientStateGet s cid = some cs) :
    cs ∈ s.rePeers ∧ cs.csIdent = cid :=
  ⟨List.mem_of_find?_eq_some h, same_ident_iff.mp (List.find?_some h)⟩

theorem mem_set_cs_bucket (h : cs ∈ setCsBucket cid b l) :
    cs ∈ l ∨ ∃ old ∈ l, old.csIdent = cid ∧ cs = { old with csBucket := b } := by
  induction l with
  | nil => cases h
  | cons c l ih =>
    unfold setCsBucket at h
    split at h
    · rename_i hc
      rcases List.mem_cons.mp h with rfl | h
      · exact .inr ⟨c, List.mem_cons_self, same_ident_iff.mp hc, rfl⟩
      · exact .inl (List.mem_cons_of_mem _ h)
    · rcases List.mem_cons.mp h with rfl | h
      · exact .inl List.mem_cons_self
      · rcases ih h with h | ⟨old, hm, he⟩
        · exact .inl (List.mem_cons_of_mem _ h)
        · exact .inr ⟨old, List.mem_cons_of_mem _ hm, he⟩

/-- A client without a bucket holds none of the buckets held by the others. -/
theorem mem_release (h : cs ∈ setCsBucket cid none l) (hb : cs.csBucket = some p) : cs ∈ l := by
  rcases mem_set_cs_bucket h with h | ⟨old, _, _, rfl⟩
  · exact h
  · cases hb

theorem mem_register (h : cs ∈ (registerClient s req).rePeers) (hb : cs.csBucket = some p) :
    cs ∈ s.rePeers := by
  rcases List.mem_append.mp h with h | h
  · exact h
  · rw [List.mem_singleton.mp h] at hb
    cases hb

/-! ## The buckets after a write -/

theorem modify_other (h : q ≠ p) (s : ReaderEnv) (f : LcapRecBucket → LcapRecBucket) :
    (s.modify p f).mem q = s.mem q :=
  Function.update_of_ne h _ _

theorem modify_congr {β : Type} (g : LcapRecBucket → β) (f : LcapRecBucket → LcapRecBucket)
    (hf : ∀ b, g (f b) = g b) (s : ReaderEnv) (p q : Nat) :
    g ((s.modify p f).mem q) = g (s.mem q) := by
  by_cases he : q = p
  · subst he
    simp [ReaderEnv.modify, hf]
  · rw [modify_other he]

theorem open_bucket_mem (hp : p ≠ b) : (openBucket s b).mem p = s.mem p :=
  Function.update_of_ne hp _ _

theorem open_bucket_new (s : ReaderEnv) (b : Nat) :
    (openBucket s b).mem b = { lrbIndex := s.reBktIdx } :=
  Function.update_self _ _ _

theorem open_bucket_ready (h : ((openBucket s b).mem p).lrbReady = true) :
    (s.mem p).lrbReady = true := by
  by_cases he : p = b
  · subst he
    simp [open_bucket_new] at h
  · rwa [open_bucket_mem he] at h

theorem insert_mem_other (h : q ≠ p) (s : ReaderEnv) (r : ChangelogRec) :
    (recCounted (recInsert s p r) r).mem q = s.mem q :=
  modify_other h s (recAppend r)

theorem insert_ready (s : ReaderEnv) (p q : Nat) (r : ChangelogRec) :
    ((recCounted (recInsert s p r) r).mem q).lrbReady = (s.mem q).lrbReady :=
  modify_congr LcapRecBucket.lrbReady (recAppend r) (fun _ => rfl) s p q

theorem insert_index (s : ReaderEnv) (p q : Nat) (r : ChangelogRec) :
    ((recCounted (recInsert s p r) r).mem q).lrbIndex = (s.mem q).lrbIndex :=
  modify_congr LcapRecBucket.lrbIndex (recAppend r) (fun _ => rfl) s p q

theorem send_ready (s : ReaderEnv) (cid : ConnId) (p q : Nat) (io : RpcIo) :
    ((sendBucket s cid p io).mem q).lrbReady = (s.mem q).lrbReady :=
  modify_congr LcapRecBucket.lrbReady
    (fun b => { b with lrbExpiry := io.sendNow + ackTimeoutSec }) (fun _ => rfl) s p q

theorem acknowledge_ready (h : ((acknowledgeBucket s cid p).mem q).lrbReady = true) :
    q = p ∨ (s.mem q).lrbReady = true := by
  by_cases he : q = p
  · exact .inl he
  · simp only [acknowledgeBucket, Function.update_of_ne he] at h
    exact .inr h

theorem acknowledge_mem (s : ReaderEnv) (cid : ConnId) (p : Nat) :
    (acknowledgeBucket s cid p).mem =
      (s.modify p fun b => { b with lrbReady := true }).mem := rfl

/-! ## Each part of a step keeps the shape -/

theorem Shape.flags (h : Shape s) (b c d : Bool) :
    Shape { s with reClpriv := b, terminateSig := c, stopped := d } :=
  { h with }

theorem Shape.log (h : Shape s) (e : Event) : Shape (s.log e) := { h with }

theorem Shape.openBucket (h : Shape s) (hb : b ∉ s.reBuckets ∧ b ≤ s.reBktIdx) :
    Shape (openBucket s b) := by
  have hold : ∀ p ∈ s.reBuckets, (Reader.openBucket s b).mem p = s.mem p :=
    fun p hp => open_bucket_mem fun he => hb.1 (he ▸ hp)
  have hknown : ∀ p, Known (Reader.openBucket s b) p → p ≠ b → Known s p := by
    rintro p (rfl | hp) hne
    · exact .inl rfl
    · exact .inr ((List.mem_append.mp hp).resolve_right fun he => hne (List.mem_singleton.mp he))
  have hindex : ∀ p, Known (Reader.openBucket s b) p → p ≠ b →
      ((Reader.openBucket s b).mem p).lrbIndex < s.reBktIdx := by
    intro p hp hne
    rw [open_bucket_mem hne]
    exact h.numbered p (hknown p hp hne)
  have hmore : ∀ p, Known s p → Known (Reader.openBucket s b) p :=
    fun p hp => hp.imp_right (List.mem_append_left _)
  refine ⟨h.cleanup, Nat.succ_pos _, ?_, ?_, ?_, ?_, ?_, ?_, ?_⟩
  · refine List.pairwise_append.mpr ⟨h.sorted.imp_of_mem ?_, List.pairwise_singleton _ b, ?_⟩
    · intro p q hp hq hlt
      rwa [hold p hp, hold q hq]
    · intro p hp q hq
      rw [List.mem_singleton.mp hq, hold p hp, open_bucket_new]
      exact h.numbered p (.inr hp)
  · intro p hp
    rcases List.mem_append.mp hp with hp | hp
    · rw [hold p hp]
      exact ⟨Nat.lt_succ_of_lt (h.mem_lt hp), (h.listed p hp).2⟩
    · rw [List.mem_singleton.mp hp, open_bucket_new]
      exact ⟨Nat.lt_succ_of_le hb.2, rfl⟩
  · intro p hp
    by_cases he : p = b
    · rw [he, open_bucket_new]
      exact Nat.lt_succ_self _
    · exact Nat.lt_succ_of_lt (hindex p hp he)
  · intro p q hp hq he
    by_cases hpb : p = b
    · by_cases hqb : q = b
      · rw [hpb, hqb]
      · have hlt := hindex q hq hqb
        rw [← he, hpb, open_bucket_new] at hlt
        exact absurd hlt (Nat.lt_irrefl _)
    · by_cases hqb : q = b
      · have hlt := hindex p hp hpb
        rw [he, hqb, open_bucket_new] at hlt
        exact absurd hlt (Nat.lt_irrefl _)
      · rw [open_bucket_mem hpb, open_bucket_mem hqb] at he
        exact h.apart p q (hknown p hp hpb) (hknown q hq hqb) he
  · refine ⟨b, rfl, .inr (List.mem_append_right _ (List.mem_singleton_self b)), ?_⟩
    rw [open_bucket_new]
    rfl
  · exact fun p hp => hmore p (h.cursor p hp)
  · exact fun cs hcs p hp => hmore p (h.held cs hcs p hp)

theorem Shape.sealOpen (h : Shape s) (bkt : Nat) (io : RpcIo) : Shape (sealOpen s bkt io) :=
  seal_open_preserve (fun hs => hs.openBucket (hs.calloc_free _)) h bkt

/-- A write to a bucket that leaves its number and the pointers to its records alone. -/
theorem Shape.modify (h : Shape s) (p : Nat) (f : LcapRecBucket → LcapRecBucket)
    (hi : ∀ b, (f b).lrbIndex = b.lrbIndex) (hf : ∀ b, (f b).freed = b.freed) :
    Shape (s.modify p f) := by
  have hindex := modify_congr LcapRecBucket.lrbIndex f hi s p
  have hfreed := modify_congr LcapRecBucket.freed f hf s p
  refine ⟨h.cleanup, h.pos, ?_, ?_, ?_, ?_, ?_, h.cursor, h.held⟩
  · refine h.sorted.imp fun hlt => ?_
    rwa [hindex, hindex]
  · intro q hq
    rw [hfreed]
    exact h.listed q hq
  · intro q hq
    rw [hindex]
    exact h.numbered q hq
  · intro q r hq hr he
    rw [hindex, hindex] at he
    exact h.apart q r hq hr he
  · obtain ⟨q, ho, hq, hn⟩ := h.opened
    refine ⟨q, ho, hq, ?_⟩
    rw [hindex]
    exact hn

theorem Shape.insert (h : Shape s) (bkt : Nat) (r : ChangelogRec) :
    Shape (recCounted (recInsert s bkt r) r) :=
  have hi := (h.modify bkt (recAppend r) (fun _ => rfl) (fun _ => rfl)).log
    (.stored (s.mem bkt).lrbIndex r)
  { hi with }

theorem Shape.stored (h : Shape s) (hs : Stored s r block t) : Shape (recCounted t r) := by
  cases hs with
  | insert _ _ => exact h.insert _ r
  | spill _ _ => exact (h.openBucket (h.calloc_free block)).insert _ r

theorem Shape.unmarked (h : Shape s) (hm : Unmarked s.mem m) : Shape { s with mem := m } := by
  refine ⟨h.cleanup, h.pos, ?_, ?_, ?_, ?_, ?_, h.cursor, h.held⟩
  · refine h.sorted.imp fun hlt => ?_
    rwa [(hm.expiry _).2, (hm.expiry _).2]
  · intro p hp
    rw [hm.freed]
    exact h.listed p hp
  · intro p hp
    rw [(hm.expiry p).2]
    exact h.numbered p hp
  · intro p q hp hq he
    rw [(hm.expiry p).2, (hm.expiry q).2] at he
    exact h.apart p q hp hq he
  · obtain ⟨q, ho, hq, hn⟩ := h.opened
    refine ⟨q, ho, hq, ?_⟩
    rw [(hm.expiry q).2]
    exact hn

theorem Shape.fetch (h : Shape s) (hf : Fetch s io t b) : Shape t := by
  cases hf with
  | rewind _ _ hm _ => exact { h.unmarked hm with cursor := fun p hp => .inr (h.after hp).1 }
  | eof _ _ _ => exact h
  | advance _ _ _ => exact { h with cursor := fun p hp => .inr (h.after hp).1 }

/-- The fetched bucket is the first one ever opened or a live one. -/
theorem Shape.fetched (h : Shape s) (hf : Fetch s io t (some p)) : Known s p := by
  cases hf with
  | rewind hc _ _ _ =>
    rw [h.cleanup] at hc
    cases hc
    exact .inl rfl
  | advance _ _ hd => exact h.cursor p hd

theorem fetch_frame (hf : Fetch s io t b) :
    t.reBktIdx = s.reBktIdx ∧ t.reBuckets = s.reBuckets ∧ t.rePeers = s.rePeers ∧
      t.reCurrentOpen = s.reCurrentOpen ∧ t.trace = s.trace ∧ Unmarked s.mem t.mem := by
  cases hf with
  | rewind hc hx hm _ => exact ⟨rfl, rfl, rfl, rfl, rfl, hm⟩
  | eof hc hx hd => exact ⟨rfl, rfl, rfl, rfl, rfl, fun _ => .inl rfl⟩
  | advance hc hx hd => exact ⟨rfl, rfl, rfl, rfl, rfl, fun _ => .inl rfl⟩

theorem Known.fetch (h : Known s p) (hf : Fetch s io t b) : Known t p := by
  unfold Known
  rw [(fetch_frame hf).2.1]
  exact h

theorem seal_open_frame (s : ReaderEnv) (bkt : Nat) (io : RpcIo) :
    (sealOpen s bkt io).rePeers = s.rePeers ∧
      (sealOpen s bkt io).reDeliverNext = s.reDeliverNext ∧
      s.reBuckets ⊆ (sealOpen s bkt io).reBuckets := by
  unfold sealOpen
  split
  · exact ⟨rfl, rfl, fun _ h => List.mem_append_left _ h⟩
  · exact ⟨rfl, rfl, fun _ h => h⟩

theorem Known.seal (h : Known s p) (bkt : Nat) (io : RpcIo) : Known (sealOpen s bkt io) p :=
  h.imp_right fun hp => (seal_open_frame s bkt io).2.2 hp

/-- The buckets on the list stay as they are when another one is opened. -/
theorem seal_open_mem (h : Shape s) (hp : p ∈ s.reBuckets) (bkt : Nat) (io : RpcIo) :
    (sealOpen s bkt io).mem p = s.mem p := by
  unfold sealOpen
  split
  · exact open_bucket_mem fun he => (h.calloc_free _).1 (he ▸ hp)
  · rfl

/-- Unless its own block is the one that `calloc` returns, the bucket itself stays as it is. -/
theorem seal_open_self (s : ReaderEnv) (p : Nat) (io : RpcIo) :
    (sealOpen s p io).mem p =
      if some p = s.reCurrentOpen ∧ callocBlock s io.bktBlock = p then { lrbIndex := s.reBktIdx }
      else s.mem p := by
  unfold sealOpen
  by_cases hopen : some p = s.reCurrentOpen
  · rw [if_pos hopen]
    by_cases hb : callocBlock s io.bktBlock = p
    · rw [if_pos ⟨hopen, hb⟩, hb, open_bucket_new]
    · rw [if_neg fun hc => hb hc.2, open_bucket_mem (Ne.symm hb)]
  · rw [if_neg hopen, if_neg fun hc => hopen hc.1]

theorem Shape.assign (h : Shape s) (cid : ConnId) (hp : Known s p) :
    Shape (assignBucket s cid p) := by
  refine { h with held := ?_ }
  intro cs hcs q hq
  rcases mem_set_cs_bucket hcs with hcs | ⟨old, _, _, rfl⟩
  · exact h.held cs hcs q hq
  · cases hq
    exact hp

theorem Shape.acknowledge (h : Shape s) (cid : ConnId) (p : Nat) :
    Shape (acknowledgeBucket s cid p) := by
  have hm := h.modify p (fun b => { b with lrbReady := true }) (fun _ => rfl) (fun _ => rfl)
  exact { hm with held := fun cs hcs q hq => h.held cs (mem_release hcs hq) q hq }

theorem destroy_mem_other (h : q ≠ p) (s : ReaderEnv) : (recBucketDestroy s p).mem q = s.mem q :=
  Function.update_of_ne h _ _

/-- Releasing a bucket frees its records and leaves the rest of its block. -/
theorem destroy_congr {β : Type} (g : LcapRecBucket → β) (hg : ∀ b, g (freeRecords b) = g b)
    (s : ReaderEnv) (p q : Nat) : g ((recBucketDestroy s p).mem q) = g (s.mem q) :=
  modify_congr g freeRecords hg s p q

/-- Only the head can be removed, which every pointer may go on leading to. -/
theorem Shape.destroy (h : Shape s) : Shape (recBucketDestroy s 0) := by
  have hindex := destroy_congr LcapRecBucket.lrbIndex (fun _ => rfl) s 0
  have hmem : ∀ p, p ∈ (recBucketDestroy s 0).reBuckets ↔ p ≠ 0 ∧ p ∈ s.reBuckets :=
    fun p => h.nodup.mem_erase_iff
  have hless : ∀ p, Known (recBucketDestroy s 0) p → Known s p :=
    fun p hp => hp.imp_right fun hm => ((hmem p).mp hm).2
  have hmore : ∀ p, Known s p → Known (recBucketDestroy s 0) p := by
    rintro p (rfl | hp)
    · exact .inl rfl
    · by_cases he : p = 0
      · exact .inl he
      · exact .inr ((hmem p).mpr ⟨he, hp⟩)
  refine ⟨h.cleanup, h.pos, ?_, ?_, ?_, ?_, ?_, fun p hp => hmore p (h.cursor p hp),
    fun cs hcs p hp => hmore p (h.held cs hcs p hp)⟩
  · refine (h.sorted.sublist List.erase_sublist).imp fun hlt => ?_
    rwa [hindex, hindex]
  · intro p hp
    obtain ⟨hne, hp⟩ := (hmem p).mp hp
    rw [destroy_mem_other hne]
    exact h.listed p hp
  · intro p hp
    rw [hindex]
    exact h.numbered p (hless p hp)
  · intro p q hp hq he
    rw [hindex, hindex] at he
    exact h.apart p q (hless p hp) (hless q hq) he
  · obtain ⟨q, ho, hq, hn⟩ := h.opened
    refine ⟨q, ho, hmore q hq, ?_⟩
    rw [hindex]
    exact hn

theorem Shape.register (h : Shape s) (req : LcapnetRequest) : Shape (registerClient s req) :=
  { h with held := fun cs hcs p hp => h.held cs (mem_register hcs hp) p hp }

theorem Shape.deregister (h : Shape s) (cid : ConnId) : Shape (deregisterClient s cid) :=
  { h with held := fun cs hcs p hp => h.held cs (List.mem_of_mem_eraseP hcs) p hp }

theorem Shape.send (h : Shape s) (cid : ConnId) (bkt : Nat) (io : RpcIo) :
    Shape (sendBucket s cid bkt io) :=
  (h.modify bkt (fun b => { b with lrbExpiry := io.sendNow + ackTimeoutSec })
    (fun _ => rfl) (fun _ => rfl)).log _

theorem Shape.served (h : Shape s) (hs : Served s req io t rc) : Shape t := by
  have hdeq : ∀ {u p cid}, Fetch s io u (some p) →
      Shape (assignBucket (Proofs.sealOpen u p io) cid p) := by
    intro u p cid hf
    exact ((h.fetch hf).sealOpen p io).assign cid (((h.fetched hf).fetch hf).seal p io)
  cases hs with
  | refused _ _ => exact h
  | registered _ _ => exact (h.register req).log _
  | deregistered _ _ => exact (h.deregister req.lrForward).log _
  | eof _ _ _ => exact h
  | unopened _ _ hf _ _ => exact h.fetch hf
  | unpacked _ _ hf _ _ => exact hdeq hf
  | delivered _ _ hf _ _ _ => exact (hdeq hf).send _ _ io
  | vacuous _ _ => exact h
  | pending _ _ _ _ => exact (h.acknowledge _ _).log _
  | failed _ _ _ _ _ _ => exact (h.acknowledge _ _).log _
  | purged _ _ hc _ _ _ _ =>
    rw [h.cleanup] at hc
    cases hc
    exact (((h.acknowledge _ _).log _).destroy).log _

theorem Shape.answered (h : Shape s) : Shape (answered s req io rc) :=
  answered_preserve (fun _ _ _ hs => hs.log _) h rc

theorem init_shape (cfg : LcapCfg) (idx : Nat) : Shape (initialReader cfg idx) := by
  refine ⟨rfl, Nat.one_pos, List.pairwise_singleton _ 0, ?_, ?_, fun _ _ _ _ he => he,
    ⟨0, rfl, .inl rfl, rfl⟩, ?_, ?_⟩
  · intro p hp
    rw [List.mem_singleton.mp hp]
    exact ⟨Nat.one_pos, rfl⟩
  · rintro p (rfl | hp)
    · exact Nat.one_pos
    · rw [List.mem_singleton.mp hp]
      exact Nat.one_pos
  · intro p hp
    cases hp
    exact .inl rfl
  · intro cs hcs
    cases hcs

theorem step_shape (h : Shape s) (hs : readerStep s l = some t) : Shape t := by
  apply step_preserve (P := Shape) (fun s b c d h => h.flags b c d) _ _ hs h
  · intro s rec block t h _ _ _ _ hst
    exact h.stored hst
  · intro req io t rc _ hr
    obtain ⟨u, r, hserved, rfl⟩ := request_served h.nodup hr
    exact (h.served hserved).answered

theorem reach_shape (h : Reach (reader cfg idx) C s) : Shape s :=
  h.preserve (init_shape cfg idx) (fun _ _ _ hs _ hstep => step_shape hs hstep)

/-- An invariant of the runs under `C` is checked on the parts of a step; every
state it is checked in has the shape. -/
theorem reach_induct {P : ReaderEnv → Prop} (h : Reach (reader cfg idx) C s)
    (hinit : P (initialReader cfg idx))
    (hflags : ∀ s b c d, P s → P { s with reClpriv := b, terminateSig := c, stopped := d })
    (hstore : ∀ s r block t, Shape s → P s → s.reSrec ≤ r.crIndex →
      changelogReaderFull s = false → Stored s r block t → P (recCounted t r))
    (hserved : ∀ s req io t rc, Shape s → P s → C s (.request req io) →
      Served s req io t rc → P (answered t req io rc)) : P s := by
  refine h.induct (Q := Shape) (fun t ht => reach_shape ht) hinit ?_
  intro s l t hshape hs hc hstep
  have hparts : Shape t ∧ P t := by
    apply step_preserve (P := fun s => Shape s ∧ P s) _ _ _ hstep ⟨hshape, hs⟩
    · exact fun s b c d hs => ⟨hs.1.flags b c d, hflags s b c d hs.2⟩
    · exact fun s r block t hs _ hi hroom _ hst =>
        ⟨hs.1.stored hst, hstore s r block t hs.1 hs.2 hi hroom hst⟩
    · intro req io t rc hl hr
      subst hl
      obtain ⟨u, r, hserved', rfl⟩ := request_served hshape.nodup hr
      exact ⟨(hshape.served hserved').answered, hserved s req io u r hshape hs hc hserved'⟩
  exact hparts.2

/-! ## A small reader to try runs on -/

namespace Sample

def cfg : LcapCfg where
  ccfMdt := ["lustre-MDT0000"]
  ccfClreader := "cl1"
  ccfMaxBkt := 4
  ccfRecBatchCount := 2

def record (n : Nat) : ChangelogRec where
  crIndex := n % (2 ^ 63 - 1)
  crNamelen := 4
  changelogRecSize := 64
  crIndex_lt := Nat.mod_lt n (by decide)

/-- The `rc` at the end of the stream. -/
def atEnd : { rc : Int // rc ≠ 0 } := ⟨1, by decide⟩

/-- Records up to the end of the stream. -/
def read (rs : List ChangelogRec) : Label :=
  .enqueue 0 (rs.map (.recv · true none) ++ [.fail atEnd])

/-- As many records as one call takes. -/
def batch (rs : List ChangelogRec) : Label := .enqueue 0 (rs.map (.recv · true none))

/-- The same, when `calloc` hands out the first block again as soon as it is free. -/
def reusing (rs : List ChangelogRec) : Label := .enqueue 0 (rs.map (.recv · true (some 0)))

/-- The answers of a world in which nothing fails, at one clock reading. -/
def calm (t : Nat) : RpcIo where
  now := t
  sendNow := t

/-- The same, when `calloc` hands out the first block again as soon as it is free. -/
def recycling (t : Nat) : RpcIo := { calm t with bktBlock := some 0 }

def start (cid : ConnId) : LcapnetRequest := ⟨cid, Client.clStartPack 0 [] 0⟩
def dequeue (cid : ConnId) : LcapnetRequest := ⟨cid, Client.clDequeuePack⟩
def clear (cid : ConnId) : LcapnetRequest := ⟨cid, Client.clClearPack [] [] 0⟩
def fini (cid : ConnId) : LcapnetRequest := ⟨cid, Client.finiPack⟩

/-- The state at the end of a run of the sample reader. -/
def after (ls : List Label) : ReaderEnv := replay (reader cfg 0) (reader cfg 0).init ls

theorem reach_after [∀ s l, Decidable (C s l)] {ls : List Label}
    (h : obeys (reader cfg 0) C (reader cfg 0).init ls = true) :
    Reach (reader cfg 0) C (after ls) :=
  steps_of_obeys h

end Sample
end Lcap.Proofs
