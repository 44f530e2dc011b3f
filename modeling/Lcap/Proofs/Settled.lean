import Lcap.Proofs.Shape

namespace Lcap.Proofs
open Reader Systems

/-- No bucket is allocated in the released block that `re_cleanup_next` still leads to. -/
def Unaliased (s : ReaderEnv) (l : Label) : Prop :=
  ∀ block ∈ blocksNamed l, s.reCleanupNext = some block → block ∈ s.reBuckets

instance (s : ReaderEnv) (l : Label) : Decidable (Unaliased s l) :=
  inferInstanceAs (Decidable (∀ block ∈ blocksNamed l,
    s.reCleanupNext = some block → block ∈ s.reBuckets))

/-- What holds of a reader whose buckets all got blocks of their own: a bucket's address
is its index, and only the first one can be missing from the list. -/
structure Settled (s : ReaderEnv) : Prop extends Shape s where
  chain : ∃ k, k ≤ 1 ∧ k < s.reBktIdx ∧ s.reBuckets = List.range' k (s.reBktIdx - k)
  index : ∀ p, (s.mem p).lrbIndex = p
  next : ∀ p, s.reDeliverNext = some p → p ∈ s.reBuckets
  closed : ∀ cs ∈ s.rePeers, ∀ p, cs.csBucket = some p → p + 1 < s.reBktIdx
  ready : ∀ p, (s.mem p).lrbReady = true → p + 1 < s.reBktIdx
  fresh : s.reDeliverNext = some 0 →
    (∀ cs ∈ s.rePeers, cs.csBucket ≠ some 0) ∧ (s.mem 0).lrbReady = false
  void : 0 ∉ s.reBuckets → (s.mem 0).freed = (s.mem 0).lrbRecords.length

theorem ln_next_range (k n p : Nat) :
    lnNext (List.range' k n) p = if k ≤ p ∧ p + 1 < k + n then some (p + 1) else none := by
  induction n generalizing k with
  | zero => simp [lnNext]; omega
  | succ n ih =>
    rw [List.range'_succ, lnNext, ih]
    by_cases hkp : k = p
    · subst hkp
      cases n with
      | zero => simp
      | succ n => simp [List.range'_succ]
    · rw [if_neg hkp]
      congr 1
      simp only [eq_iff_iff]
      omega

/-- Every bucket but the first is still on the list. -/
theorem Settled.live (h : Settled s) (hp : 0 < p) (hlt : p < s.reBktIdx) : p ∈ s.reBuckets := by
  obtain ⟨k, _, hk, he⟩ := h.chain
  rw [he, List.mem_range'_1]
  omega

theorem Settled.open_live (h : Settled s) : s.reBktIdx - 1 ∈ s.reBuckets := by
  obtain ⟨k, _, hk, he⟩ := h.chain
  rw [he, List.mem_range'_1]
  omega

theorem Settled.open_last (h : Settled s) : s.reCurrentOpen = some (s.reBktIdx - 1) := by
  obtain ⟨p, ho, _, hn⟩ := h.opened
  rw [h.index] at hn
  rw [ho, ← hn, Nat.add_sub_cancel]

theorem Settled.known_lt (h : Settled s) (hp : Known s p) : p < s.reBktIdx := by
  rcases hp with rfl | hp
  · exact h.pos
  · exact h.mem_lt hp

theorem Settled.next_live (h : Settled s) (hp : p ∈ s.reBuckets) :
    lnNext s.reBuckets p = if p + 1 < s.reBktIdx then some (p + 1) else none := by
  obtain ⟨k, _, hk, he⟩ := h.chain
  rw [he, List.mem_range'_1] at hp
  rw [he, ln_next_range]
  congr 1
  simp only [eq_iff_iff]
  omega

theorem Settled.next_some (h : Settled s) (hn : lnNext s.reBuckets p = some q) :
    q = p + 1 ∧ q ∈ s.reBuckets := by
  by_cases hp : p ∈ s.reBuckets
  · rw [h.next_live hp] at hn
    split at hn
    · rename_i hlt
      cases hn
      exact ⟨rfl, h.live (Nat.succ_pos p) hlt⟩
    · cases hn
  · rw [ln_next_none hp] at hn
    cases hn

/-- Only the block of the first bucket can be free. -/
theorem Settled.calloc_new (h : Settled s)
    (hb : ∀ b ∈ block, s.reCleanupNext = some b → b ∈ s.reBuckets) :
    callocBlock s block = s.reBktIdx := by
  cases block with
  | none => rfl
  | some b =>
    refine if_neg ?_
    rintro ⟨hlt, hfree⟩
    have hb0 : b = 0 := by
      by_contra hne
      exact hfree (h.live (Nat.pos_of_ne_zero hne) hlt)
    subst hb0
    exact hfree (hb 0 rfl h.cleanup)

/-! ## Each part of a step keeps it -/

theorem Settled.flags (h : Settled s) (b c d : Bool) :
    Settled { s with reClpriv := b, terminateSig := c, stopped := d } :=
  { h with }

theorem Settled.log (h : Settled s) (e : Event) : Settled (s.log e) := { h with }

theorem Settled.openBucket (h : Settled s) : Settled (openBucket s s.reBktIdx) := by
  have hshape := h.toShape.openBucket (h.calloc_free none)
  obtain ⟨k, hk, hlt, he⟩ := h.chain
  have hmem0 : (Reader.openBucket s s.reBktIdx).mem 0 = s.mem 0 :=
    open_bucket_mem (Nat.ne_of_lt h.pos)
  refine { hshape with
    chain := ⟨k, hk, ?_, ?_⟩, index := ?_, next := ?_, closed := ?_, ready := ?_,
    fresh := ?_, void := ?_ }
  · exact Nat.lt_succ_of_lt hlt
  · simp only [Reader.openBucket]
    rw [he, Nat.succ_sub (Nat.le_of_lt hlt), List.range'_1_concat,
      Nat.add_sub_cancel' (Nat.le_of_lt hlt)]
  · intro p
    by_cases he : p = s.reBktIdx
    · rw [he, open_bucket_new]
    · rw [open_bucket_mem he, h.index]
  · exact fun p hp => List.mem_append_left _ (h.next p hp)
  · exact fun cs hcs p hp => Nat.lt_succ_of_lt (h.closed cs hcs p hp)
  · exact fun p hp => Nat.lt_succ_of_lt (h.ready p (open_bucket_ready hp))
  · intro hd
    refine ⟨(h.fresh hd).1, ?_⟩
    rw [hmem0]
    exact (h.fresh hd).2
  · intro h0
    rw [hmem0]
    exact h.void fun hm => h0 (List.mem_append_left _ hm)

theorem Settled.modify (h : Settled s) (p : Nat) (f : LcapRecBucket → LcapRecBucket)
    (hi : ∀ b, (f b).lrbIndex = b.lrbIndex) (hf : ∀ b, (f b).freed = b.freed)
    (hr : ∀ b, (f b).lrbReady = b.lrbReady)
    (hrecs : p ∈ s.reBuckets ∨ ∀ b, (f b).lrbRecords = b.lrbRecords) : Settled (s.modify p f) := by
  have hshape := h.toShape.modify p f hi hf
  have hready := modify_congr LcapRecBucket.lrbReady f hr s p
  refine { hshape with
    chain := h.chain, index := ?_, next := h.next, closed := h.closed, ready := ?_,
    fresh := ?_, void := ?_ }
  · exact fun q => (modify_congr LcapRecBucket.lrbIndex f hi s p q).trans (h.index q)
  · intro q hq
    rw [hready q] at hq
    exact h.ready q hq
  · intro hd
    exact ⟨(h.fresh hd).1, (hready 0).trans (h.fresh hd).2⟩
  · intro h0
    rw [modify_congr LcapRecBucket.freed f hf s p 0]
    rcases hrecs with hp | hrecs
    · have hne : 0 ≠ p := by
        rintro rfl
        exact h0 hp
      rw [modify_other hne]
      exact h.void h0
    · rw [modify_congr LcapRecBucket.lrbRecords f hrecs s p 0]
      exact h.void h0

theorem Settled.insert (h : Settled s) (hp : p ∈ s.reBuckets) (r : ChangelogRec) :
    Settled (recCounted (recInsert s p r) r) :=
  have hi := (h.modify p (recAppend r) (fun _ => rfl) (fun _ => rfl) (fun _ => rfl) (.inl hp)).log
    (.stored (s.mem p).lrbIndex r)
  { hi with }

theorem Settled.stored (h : Settled s) (hs : Stored s r none t) : Settled (recCounted t r) := by
  cases hs with
  | insert ho _ =>
    rw [h.open_last] at ho
    cases ho
    exact h.insert h.open_live r
  | spill _ _ => exact h.openBucket.insert (List.mem_append_right _ (List.mem_singleton_self _)) r

/-- Fetching a bucket leaves the cursor behind the first one. -/
theorem Settled.fetch (h : Settled s) (hf : Fetch s io t b) :
    Settled t ∧ (∀ p, b = some p → t.reDeliverNext ≠ some 0) := by
  have hshape := h.toShape.fetch hf
  have hnext : ∀ p, lnNext s.reBuckets p ≠ some 0 := by
    intro p hp
    have := (h.next_some hp).1
    omega
  cases hf with
  | rewind hc hx hm _ =>
    refine ⟨{ hshape with
      chain := h.chain, index := ?_, next := ?_, closed := h.closed, ready := ?_, fresh := ?_,
      void := ?_ }, ?_⟩
    · exact fun p => (hm.expiry p).2.trans (h.index p)
    · exact fun p hp => (h.next_some hp).2
    · exact fun p hp => h.ready p (hm.ready p hp)
    · exact fun hd => absurd hd (hnext _)
    · intro h0
      rw [hm.freed, (hm.records 0).1]
      exact h.void h0
    · exact fun p _ => hnext _
  | eof hc hx hd =>
    refine ⟨h, ?_⟩
    intro p hp
    cases hp
  | advance hc hx hd =>
    refine ⟨{ hshape with
      chain := h.chain, index := h.index, next := ?_, closed := h.closed, ready := h.ready,
      fresh := ?_, void := h.void }, ?_⟩
    · exact fun p hp => (h.next_some hp).2
    · exact fun hd => absurd hd (hnext _)
    · exact fun p _ => hnext _

/-- The fetched bucket is the first one ever opened or a live one. -/
theorem Settled.fetched_lt (h : Settled s) (hf : Fetch s io t (some p)) : p < t.reBktIdx :=
  (fetch_frame hf).1 ▸ h.known_lt (h.fetched hf)

/-- Nothing is handed out again in a request that names no free block. -/
def CallocNew (s : ReaderEnv) (io : RpcIo) : Prop := callocBlock s io.bktBlock = s.reBktIdx

theorem CallocNew.fetch (hn : CallocNew s io) (hf : Fetch s io t b) : CallocNew t io := by
  obtain ⟨hidx, hbkts, _⟩ := fetch_frame hf
  unfold CallocNew callocBlock at *
  rw [hidx, hbkts]
  exact hn

theorem seal_open_preserve_new {P : ReaderEnv → Prop} (hn : CallocNew s io)
    (hopen : P s → P (openBucket s s.reBktIdx)) (hs : P s) (bkt : Nat) : P (sealOpen s bkt io) := by
  refine seal_open_preserve (fun hs => ?_) hs bkt
  rw [hn]
  exact hopen hs

theorem Settled.sealOpen (h : Settled s) (hn : CallocNew s io) (bkt : Nat) :
    Settled (sealOpen s bkt io) :=
  seal_open_preserve_new hn (fun hs => hs.openBucket) h bkt

theorem seal_open_mem_new (hn : CallocNew s io) (hp : p < s.reBktIdx) (bkt : Nat) :
    (sealOpen s bkt io).mem p = s.mem p :=
  seal_open_preserve_new (P := fun t => t.mem p = s.mem p) hn
    (fun _ => open_bucket_mem (Nat.ne_of_lt hp)) rfl bkt

/-- Once the open bucket is replaced, the fetched one lies before it. -/
theorem Settled.sealed_lt (h : Settled s) (hp : p < s.reBktIdx) (io : RpcIo) :
    p + 1 < (Proofs.sealOpen s p io).reBktIdx := by
  unfold Proofs.sealOpen
  rw [h.open_last]
  split
  · simp only [Reader.openBucket]
    omega
  · rename_i hne
    have : p ≠ s.reBktIdx - 1 := fun he => hne (congrArg some he)
    omega

theorem Settled.assign (h : Settled s) (cid : ConnId) (hk : Known s p) (hp : p + 1 < s.reBktIdx)
    (hd : s.reDeliverNext ≠ some 0) : Settled (assignBucket s cid p) := by
  refine { h.toShape.assign cid hk with
    chain := h.chain, index := h.index, next := h.next, closed := ?_, ready := h.ready,
    fresh := fun h0 => absurd h0 hd, void := h.void }
  intro cs hcs q hq
  rcases mem_set_cs_bucket hcs with hcs | ⟨old, _, _, rfl⟩
  · exact h.closed cs hcs q hq
  · cases hq
    exact hp

theorem Settled.acknowledge (h : Settled s) (hh : Holds s cid p) :
    Settled (acknowledgeBucket s cid p) := by
  obtain ⟨cs₀, hg, hb⟩ := hh
  have hcs₀ := (mem_of_get hg).1
  have hkept : ∀ {β : Type} (g : LcapRecBucket → β), (∀ b, g { b with lrbReady := true } = g b) →
      ∀ q, g ((acknowledgeBucket s cid p).mem q) = g (s.mem q) :=
    fun g hg q => modify_congr g (fun b => { b with lrbReady := true }) hg s p q
  refine { h.toShape.acknowledge cid p with
    chain := h.chain, index := ?_, next := h.next, closed := ?_, ready := ?_,
    fresh := ?_, void := ?_ }
  · exact fun q => (hkept LcapRecBucket.lrbIndex (fun _ => rfl) q).trans (h.index q)
  · exact fun cs hcs q hq => h.closed cs (mem_release hcs hq) q hq
  · intro q hq
    rcases acknowledge_ready hq with rfl | hq
    · exact h.closed cs₀ hcs₀ q hb
    · exact h.ready q hq
  · intro hd
    have hp : p ≠ 0 := fun he => (h.fresh hd).1 cs₀ hcs₀ (he ▸ hb)
    refine ⟨?_, ?_⟩
    · exact fun cs hcs hq => (h.fresh hd).1 cs (mem_release hcs hq) hq
    · simp only [acknowledgeBucket]
      rw [Function.update_of_ne (Ne.symm hp)]
      exact (h.fresh hd).2
  · intro h0
    rw [hkept LcapRecBucket.freed fun _ => rfl, hkept LcapRecBucket.lrbRecords fun _ => rfl]
    exact h.void h0

theorem destroy_ready (s : ReaderEnv) (p q : Nat) :
    ((recBucketDestroy s p).mem q).lrbReady = (s.mem q).lrbReady :=
  destroy_congr LcapRecBucket.lrbReady (fun _ => rfl) s p q

/-- Removing the head, which is ready and so is neither open nor the next to deliver. -/
theorem Settled.destroy (h : Settled s) (hl : 0 ∈ s.reBuckets) (hr : (s.mem 0).lrbReady = true) :
    Settled (recBucketDestroy s 0) := by
  obtain ⟨k, hk, hlt, he⟩ := h.chain
  have hk0 : k = 0 := by
    rw [he, List.mem_range'_1] at hl
    omega
  subst hk0
  have h1 := h.ready 0 hr
  obtain ⟨n, hn⟩ : ∃ n, s.reBktIdx = n + 1 := ⟨s.reBktIdx - 1, by omega⟩
  have her : s.reBuckets.erase 0 = List.range' 1 (s.reBktIdx - 1) := by
    rw [he, hn, Nat.sub_zero, List.range'_succ, List.erase_cons_head]
    simp
  refine { h.toShape.destroy with
    chain := ⟨1, le_rfl, h1, her⟩, index := ?_, next := ?_, closed := h.closed, ready := ?_,
    fresh := ?_, void := ?_ }
  · exact fun p => (destroy_congr LcapRecBucket.lrbIndex (fun _ => rfl) s 0 p).trans (h.index p)
  · intro p hp
    have hne : p ≠ 0 := by
      intro hp0
      subst hp0
      have := (h.fresh hp).2
      rw [hr] at this
      cases this
    exact (List.mem_erase_of_ne hne).mpr (h.next p hp)
  · intro p hp
    rw [destroy_ready] at hp
    exact h.ready p hp
  · intro hd
    exact ⟨(h.fresh hd).1, (destroy_ready s 0 0).trans (h.fresh hd).2⟩
  · intro _
    simp [recBucketDestroy, freeRecords]

theorem Settled.register (h : Settled s) (req : LcapnetRequest) :
    Settled (registerClient s req) := by
  refine { h.toShape.register req with
    chain := h.chain, index := h.index, next := h.next, closed := ?_, ready := h.ready, fresh := ?_,
    void := h.void }
  · exact fun cs hcs p hp => h.closed cs (mem_register hcs hp) p hp
  · intro hd
    exact ⟨fun cs hcs hp => (h.fresh hd).1 cs (mem_register hcs hp) hp, (h.fresh hd).2⟩

theorem Settled.deregister (h : Settled s) (cid : ConnId) : Settled (deregisterClient s cid) := by
  refine { h.toShape.deregister cid with
    chain := h.chain, index := h.index, next := h.next, closed := ?_, ready := h.ready, fresh := ?_,
    void := h.void }
  · intro cs hcs p hp
    exact h.closed cs (List.mem_of_mem_eraseP hcs) p hp
  · intro hd
    exact ⟨fun cs hcs => (h.fresh hd).1 cs (List.mem_of_mem_eraseP hcs), (h.fresh hd).2⟩

theorem Settled.send (h : Settled s) (cid : ConnId) (bkt : Nat) (io : RpcIo) :
    Settled (sendBucket s cid bkt io) :=
  (h.modify bkt (fun b => { b with lrbExpiry := io.sendNow + ackTimeoutSec })
    (fun _ => rfl) (fun _ => rfl) (fun _ => rfl) (.inr fun _ => rfl)).log _

theorem Settled.served (h : Settled s) (hn : CallocNew s io) (hs : Served s req io t rc) :
    Settled t := by
  have hdeq : ∀ {u p cid}, Fetch s io u (some p) →
      Settled (assignBucket (Proofs.sealOpen u p io) cid p) := by
    intro u p cid hf
    obtain ⟨hu, hd⟩ := h.fetch hf
    refine (hu.sealOpen (hn.fetch hf) p).assign cid (((h.fetched hf).fetch hf).seal p io)
      (hu.sealed_lt (h.fetched_lt hf) io) ?_
    rw [(seal_open_frame u p io).2.1]
    exact hd p rfl
  cases hs with
  | refused _ _ => exact h
  | registered _ _ => exact (h.register req).log _
  | deregistered _ _ => exact (h.deregister req.lrForward).log _
  | eof _ _ _ => exact h
  | unopened _ _ hf _ _ => exact (h.fetch hf).1
  | unpacked _ _ hf _ _ => exact hdeq hf
  | delivered _ _ hf _ _ _ => exact (hdeq hf).send _ _ io
  | vacuous _ _ => exact h
  | pending _ hh _ _ => exact (h.acknowledge hh).log _
  | failed _ hh _ _ _ _ => exact (h.acknowledge hh).log _
  | @purged bkt head endrec _ hh hc hr _ _ hl =>
    rw [h.cleanup] at hc
    cases hc
    have hl' : 0 ∈ (acknowledgeBucket s req.lrForward bkt).reBuckets := hl
    simp only [lrbReady, if_pos hl'] at hr
    exact (((h.acknowledge hh).log _).destroy hl hr).log _

theorem Settled.answered (h : Settled s) : Settled (answered s req io rc) :=
  answered_preserve (fun _ _ _ hs => hs.log _) h rc

theorem init_settled (cfg : LcapCfg) (idx : Nat) : Settled (initialReader cfg idx) := by
  refine { init_shape cfg idx with
    chain := ⟨0, Nat.zero_le 1, Nat.one_pos, rfl⟩, index := fun _ => rfl, next := ?_, closed := ?_,
    ready := ?_, fresh := ?_, void := ?_ }
  · intro p hp
    cases hp
    exact List.mem_cons_self
  · intro cs hcs
    cases hcs
  · intro p hp
    cases hp
  · intro _
    refine ⟨?_, rfl⟩
    intro cs hcs
    cases hcs
  · exact fun _ => rfl

/-- A released bucket has no record that could be read. -/
theorem Settled.max_index_live (h : Settled s)
    (hf : (s.mem 0).freed < (s.mem 0).lrbRecords.length) :
    0 ∈ s.reBuckets := by
  by_contra h0
  rw [h.void h0] at hf
  exact Nat.lt_irrefl _ hf

/-! ## Runs in which every bucket gets a block of its own -/

/-- A record goes to the open bucket, or to one in a block of its own. -/
theorem Stored.renamed (h : Stored s r block t) (hnew : callocBlock s block = s.reBktIdx) :
    Stored s r none t := by
  cases h with
  | insert ho hc => exact .insert ho hc
  | spill hfull hpos =>
    have hspill : Stored s r none _ := .spill hfull hpos
    rwa [hnew]

theorem Stored.keeps (h : Stored s r block t) : s.reBuckets ⊆ (recCounted t r).reBuckets := by
  cases h with
  | insert _ _ => exact fun _ hp => hp
  | spill _ _ => exact fun _ hp => List.mem_append_left _ hp

theorem Settled.calloc_request (h : Settled s) (hc : Unaliased s (.request req io)) :
    CallocNew s io :=
  h.calloc_new fun b hm => hc b (Option.mem_toList.mpr hm)

/-- A call of `changelog_reader_enqueue`: while it reads no bucket leaves the list. -/
theorem enqueue_settled {P : ReaderEnv → Prop} (h : Settled s)
    (hc : Unaliased s (.enqueue startRc script))
    (hflags : ∀ s b c d, P s → P { s with reClpriv := b, terminateSig := c, stopped := d })
    (hstore : ∀ s r t, Settled s → P s → s.terminateSig = false → s.reSrec ≤ r.crIndex →
      changelogReaderFull s = false → Stored s r none t → P (recCounted t r))
    (he : changelogReaderEnqueue s startRc script = .ok (t, rc, rest)) (hp : P s) :
    Settled t ∧ P t := by
  suffices hu : (Settled t ∧ P t) ∧ s.reBuckets ⊆ t.reBuckets from hu.1
  apply enqueue_preserve (P := fun u => (Settled u ∧ P u) ∧ s.reBuckets ⊆ u.reBuckets)
    _ _ _ he ⟨⟨h, hp⟩, fun _ hm => hm⟩
  · exact fun u b hu => ⟨⟨hu.1.1.flags b _ _, hflags u b _ _ hu.1.2⟩, hu.2⟩
  · exact fun u hu => ⟨⟨hu.1.1.flags _ true _, hflags u _ true _ hu.1.2⟩, hu.2⟩
  · intro u r block v hu ht hi hroom hb hst
    obtain ⟨⟨hsettled, hpu⟩, hlist⟩ := hu
    have hnew : callocBlock u block = u.reBktIdx := by
      refine hsettled.calloc_new fun b hm hcl => hlist (hc b (hb b hm) ?_)
      rw [h.cleanup, ← hsettled.cleanup, hcl]
    have hst := hst.renamed hnew
    exact ⟨⟨hsettled.stored hst, hstore u r v hsettled hpu ht hi hroom hst⟩,
      fun p hm => hst.keeps (hlist hm)⟩

/-- One step, of which every part is taken from a state that is settled. -/
theorem step_settled {P : ReaderEnv → Prop} (h : Settled s) (hc : Unaliased s l)
    (hflags : ∀ s b c d, P s → P { s with reClpriv := b, terminateSig := c, stopped := d })
    (hstore : ∀ s r t, Settled s → P s → s.terminateSig = false → s.reSrec ≤ r.crIndex →
      changelogReaderFull s = false → Stored s r none t → P (recCounted t r))
    (hserved : ∀ req io t rc, l = .request req io → CallocNew s io → Served s req io t rc →
      P (answered t req io rc))
    (hs : readerStep s l = some t) (hp : P s) : Settled t ∧ P t := by
  cases l with
  | enqueue startRc script =>
    obtain ⟨_, _, u, rc, he, rfl⟩ := enqueue_step hs
    obtain ⟨hu, hpu⟩ := enqueue_settled h hc hflags hstore he hp
    exact ⟨hu.flags _ _ _, hflags u _ _ _ hpu⟩
  | request req io =>
    obtain ⟨rc, he⟩ := request_step hs
    have hn := h.calloc_request hc
    obtain ⟨u, r, hu, rfl⟩ := request_served h.nodup he
    exact ⟨(h.served hn hu).answered, hserved req io u r rfl hn hu⟩
  | sigterm =>
    cases hs
    exact ⟨h.flags _ _ _, hflags s _ _ _ hp⟩

theorem Settled.step (h : Settled s) (hc : Unaliased s l) (hs : readerStep s l = some t) :
    Settled t :=
  (step_settled (P := fun _ => True) h hc (fun _ _ _ _ _ => trivial)
    (fun _ _ _ _ _ _ _ _ _ => trivial) (fun _ _ _ _ _ _ _ => trivial) hs trivial).1

theorem reach_settled (h : Reach (reader cfg idx) C s) (hc : ∀ s l, C s l → Unaliased s l) :
    Settled s :=
  h.preserve (init_settled cfg idx) fun _ _ _ hs hl hstep => hs.step (hc _ _ hl) hstep

/-- An invariant of the runs under `C` is checked on the parts of a step; every
state it is checked in is settled. -/
theorem settled_induct {P : ReaderEnv → Prop} (h : Reach (reader cfg idx) C s)
    (hc : ∀ s l, C s l → Unaliased s l) (hinit : P (initialReader cfg idx))
    (hflags : ∀ s b c d, P s → P { s with reClpriv := b, terminateSig := c, stopped := d })
    (hstore : ∀ s r t, Settled s → P s → s.reSrec ≤ r.crIndex → changelogReaderFull s = false →
      Stored s r none t → P (recCounted t r))
    (hserved : ∀ s req io t rc, Settled s → P s → C s (.request req io) → CallocNew s io →
      Served s req io t rc → P (answered t req io rc)) : P s := by
  suffices hall : Settled s ∧ P s from hall.2
  refine h.preserve (P := fun s => Settled s ∧ P s) ⟨init_settled cfg idx, hinit⟩ ?_
  intro s l t hs hl hstep
  refine step_settled hs.1 (hc s l hl) hflags
    (fun u r v hu hp _ hi hroom hst => hstore u r v hu hp hi hroom hst) ?_ hstep hs.2
  intro req io u rc he hn hu
  subst he
  exact hserved s req io u rc hs.1 hs.2 hl hn hu

end Lcap.Proofs
