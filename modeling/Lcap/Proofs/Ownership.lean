import Lcap.Proofs.Cursors
import Lcap.Proofs.Filing
import Mathlib.Data.List.Perm.Basic

namespace Lcap.Proofs
open Reader Systems

/-- The buckets that the registered clients hold, one entry for each holder. -/
def heldBy (peers : List ClientState) : List Nat := peers.filterMap ClientState.csBucket

/-- A client's bucket is a live one, and no other client's. -/
structure Owned (s : ReaderEnv) : Prop where
  live : ∀ cs ∈ s.rePeers, ∀ p, cs.csBucket = some p → p ∈ s.reBuckets
  unique : s.rePeers.Pairwise (fun a b => a.csBucket.isSome → a.csBucket ≠ b.csBucket)

/-- No bucket is given to a client while another one holds it, or after its release. -/
def NoRevoke (s : ReaderEnv) : Label → Prop
  | .request req io => req.WellFormed .dequeue → Idle s req.lrForward →
    ∀ p ∈ offered s io, (some p = s.reCurrentOpen → io.bktAlloc = true) →
      p ∈ s.reBuckets ∧ p ∉ heldBy s.rePeers
  | _ => True

instance : ∀ (s : ReaderEnv) (l : Label), Decidable (NoRevoke s l)
  | s, .request req io => inferInstanceAs (Decidable (req.WellFormed .dequeue →
      Idle s req.lrForward → ∀ p ∈ offered s io,
        (some p = s.reCurrentOpen → io.bktAlloc = true) →
          p ∈ s.reBuckets ∧ p ∉ heldBy s.rePeers))
  | _, .enqueue _ _ | _, .sigterm => isTrue trivial

/-- The order of the buckets on the list. -/
def Older (s : ReaderEnv) (p q : Nat) : Prop := (s.mem p).lrbIndex < (s.mem q).lrbIndex

/-- What carries ownership through a run: the cursor is on a live bucket, and the bucket
that the next CLEAR may release, which is the one in the first block, is ready only while
nobody holds it and lies before the cursor as soon as it is held or ready. -/
structure Handing (s : ReaderEnv) : Prop where
  nodup : (heldBy s.rePeers).Nodup
  live : ∀ p ∈ heldBy s.rePeers, p ∈ s.reBuckets
  next : ∀ q, s.reDeliverNext = some q → q ∈ s.reBuckets
  before : 0 ∈ heldBy s.rePeers → ∀ q, s.reDeliverNext = some q → Older s 0 q
  done : 0 ∈ s.reBuckets → (s.mem 0).lrbReady = true → 0 ∉ heldBy s.rePeers
  past : 0 ∈ s.reBuckets → (s.mem 0).lrbReady = true →
    ∀ q, s.reDeliverNext = some q → Older s 0 q

theorem Handing.owned (h : Handing s) : Owned s := by
  refine ⟨?_, ?_⟩
  · intro cs hcs p hp
    exact h.live p (List.mem_filterMap.mpr ⟨cs, hcs, hp⟩)
  · refine (List.pairwise_filterMap.mp h.nodup).imp ?_
    intro a b hab hsome he
    obtain ⟨p, hp⟩ := Option.isSome_iff_exists.mp hsome
    exact hab p hp p (he ▸ hp) rfl

/-! ## The held buckets when one client's changes -/

theorem held_assign (hg : l.find? (sameIdent cid) = some cs) (hn : cs.csBucket = none)
    (p : Nat) : (heldBy (setCsBucket cid (some p) l)).Perm (p :: heldBy l) := by
  induction l with
  | nil => cases hg
  | cons c l ih =>
    unfold setCsBucket
    by_cases hc : sameIdent cid c
    · rw [List.find?_cons_of_pos hc] at hg
      cases hg
      simp [hc, heldBy, hn]
    · rw [List.find?_cons_of_neg hc] at hg
      have ih := ih hg
      rw [if_neg hc]
      cases hb : c.csBucket with
      | none => simpa [heldBy, hb] using ih
      | some q =>
        simp only [heldBy, List.filterMap_cons, hb] at ih ⊢
        exact (ih.cons q).trans (List.Perm.swap p q _)

theorem held_release (hg : l.find? (sameIdent cid) = some cs) (hb : cs.csBucket = some p) :
    (heldBy l).Perm (p :: heldBy (setCsBucket cid none l)) := by
  induction l with
  | nil => cases hg
  | cons c l ih =>
    unfold setCsBucket
    by_cases hc : sameIdent cid c
    · rw [List.find?_cons_of_pos hc] at hg
      cases hg
      simp [hc, heldBy, hb]
    · rw [List.find?_cons_of_neg hc] at hg
      have ih := ih hg
      rw [if_neg hc]
      cases hq : c.csBucket with
      | none => simpa [heldBy, hq] using ih
      | some q =>
        simp only [heldBy, List.filterMap_cons, hq] at ih ⊢
        exact (ih.cons q).trans (List.Perm.swap p q _)

theorem held_deregister (s : ReaderEnv) (cid : ConnId) :
    (heldBy (deregisterClient s cid).rePeers).Sublist (heldBy s.rePeers) :=
  List.eraseP_sublist.filterMap _

theorem held_register (s : ReaderEnv) (req : LcapnetRequest) :
    heldBy (registerClient s req).rePeers = heldBy s.rePeers := by
  simp [heldBy, registerClient]

/-! ## Each part of a step keeps the invariant -/

/-- What the invariant depends on: the list, the cursor, the holders, and of the buckets
on the list their numbers and that no flag is newly set. -/
theorem Handing.frame (h : Handing s) (hl : t.reBuckets = s.reBuckets)
    (hd : t.reDeliverNext = s.reDeliverNext) (hp : heldBy t.rePeers = heldBy s.rePeers)
    (hi : ∀ p, (t.mem p).lrbIndex = (s.mem p).lrbIndex)
    (hr : ∀ p, (t.mem p).lrbReady = true → (s.mem p).lrbReady = true) : Handing t := by
  have holder : ∀ p q, Older t p q ↔ Older s p q := fun p q => by rw [Older, Older, hi, hi]
  refine ⟨?_, ?_, ?_, ?_, ?_, ?_⟩
  · rw [hp]
    exact h.nodup
  · rw [hp, hl]
    exact h.live
  · rw [hd, hl]
    exact h.next
  · rw [hp, hd]
    exact fun hm q hq => (holder 0 q).mpr (h.before hm q hq)
  · rw [hp, hl]
    exact fun hm hready => h.done hm (hr 0 hready)
  · rw [hd, hl]
    exact fun hm hready q hq => (holder 0 q).mpr (h.past hm (hr 0 hready) q hq)

theorem Handing.openBucket (h : Handing s) (hb : Vacant s b) : Handing (openBucket s b) := by
  have hold : ∀ p ∈ s.reBuckets, (Reader.openBucket s b).mem p = s.mem p :=
    fun p hp => open_bucket_mem fun he => hb.1 (he ▸ hp)
  have holder : 0 ∈ s.reBuckets → ∀ q ∈ s.reBuckets, Older s 0 q →
      Older (Reader.openBucket s b) 0 q := by
    intro h0 q hq hlt
    rwa [Older, hold 0 h0, hold q hq]
  have hready : 0 ∈ (Reader.openBucket s b).reBuckets →
      ((Reader.openBucket s b).mem 0).lrbReady = true →
        0 ∈ s.reBuckets ∧ (s.mem 0).lrbReady = true := by
    intro hp hr
    refine ⟨(List.mem_append.mp hp).resolve_right fun he => ?_, open_bucket_ready hr⟩
    rw [List.mem_singleton.mp he, open_bucket_new] at hr
    cases hr
  refine ⟨h.nodup, fun p hp => List.mem_append_left _ (h.live p hp),
    fun q hq => List.mem_append_left _ (h.next q hq), ?_, ?_, ?_⟩
  · exact fun h0 q hq => holder (h.live 0 h0) q (h.next q hq) (h.before h0 q hq)
  · exact fun h0 hr => h.done (hready h0 hr).1 (hready h0 hr).2
  · intro h0 hr q hq
    obtain ⟨h0, hr⟩ := hready h0 hr
    exact holder h0 q (h.next q hq) (h.past h0 hr q hq)

theorem Handing.sealOpen (hshape : Shape s) (h : Handing s) (p : Nat) (io : RpcIo) :
    Handing (sealOpen s p io) :=
  seal_open_preserve (fun hs => hs.openBucket (hshape.calloc_free _)) h p

theorem Handing.modify (h : Handing s) (p : Nat) (f : LcapRecBucket → LcapRecBucket)
    (hi : ∀ b, (f b).lrbIndex = b.lrbIndex) (hr : ∀ b, (f b).lrbReady = b.lrbReady) :
    Handing (s.modify p f) :=
  h.frame rfl rfl rfl (modify_congr LcapRecBucket.lrbIndex f hi s p) fun q hq => by
    rwa [modify_congr LcapRecBucket.lrbReady f hr s p q] at hq

theorem mem_nodes_from (hp : p ∈ bkts) : p ∈ nodesFrom bkts p := by
  obtain ⟨pre, post, he, hpre⟩ := List.eq_append_cons_of_mem hp
  have hdrop : bkts.dropWhile (· ≠ p) = p :: post := by
    rw [he, List.dropWhile_append_of_pos]
    · simp
    · intro a ha
      have hne : a ≠ p := fun he => hpre (he ▸ ha)
      simpa using hne
  rw [nodesFrom, if_pos hp, hdrop]
  exact List.mem_cons_self

theorem nodes_from_sublist (hp : p ∈ bkts) : (nodesFrom bkts p).Sublist bkts := by
  rw [nodesFrom, if_pos hp]
  exact List.dropWhile_sublist _

/-- The cursor goes forward from the bucket that is fetched, and the first block's bucket
is not ready when it is fetched. -/
theorem Handing.fetch (hshape : Shape s) (h : Handing s) (hf : Fetch s io t (some p)) :
    Handing t ∧ (∀ q, t.reDeliverNext = some q → Older t p q) ∧
      (p = 0 → 0 ∈ s.reBuckets → (t.mem 0).lrbReady = false) := by
  cases hf with
  | @rewind head m hcn _ hm hw =>
    obtain rfl : p = 0 := Option.some.inj (hcn.symm.trans hshape.cleanup)
    have hindex : ∀ q, (m q).lrbIndex = (s.mem q).lrbIndex := fun q => (hm.expiry q).2
    have hnext : ∀ q, lnNext s.reBuckets 0 = some q → (m 0).lrbIndex < (m q).lrbIndex := by
      intro q hq
      rw [hindex, hindex]
      exact (hshape.after hq).2
    refine ⟨⟨h.nodup, h.live, fun q hq => (hshape.after hq).1, fun _ => hnext,
      fun h0 hr => h.done h0 (hm.ready 0 hr), fun _ _ => hnext⟩, hnext, fun _ h0 => ?_⟩
    -- were it ready, it would lie before the cursor and be reset
    by_contra hr
    have hpast := h.past h0 (hm.ready 0 (by simpa using hr))
    exact hr (hw.reset (fun q => (s.mem q).lrbIndex) 0 (mem_nodes_from h0)
      (hshape.sorted.sublist (nodes_from_sublist h0)) hpast)
  | advance _ _ hd =>
    have hnext : ∀ q, lnNext s.reBuckets p = some q → Older s p q := fun q hq => (hshape.after hq).2
    refine ⟨⟨h.nodup, h.live, fun q hq => (hshape.after hq).1, ?_, h.done, ?_⟩, hnext, ?_⟩
    · exact fun h0 q hq => Nat.lt_trans (h.before h0 p hd) (hnext q hq)
    · exact fun h0 hr q hq => Nat.lt_trans (h.past h0 hr p hd) (hnext q hq)
    · rintro rfl h0
      by_contra hr
      exact Nat.lt_irrefl _ (h.past h0 (by simpa using hr) 0 hd)

theorem Handing.assign (h : Handing s) (hi : Idle s cid) (hl : p ∈ s.reBuckets)
    (hfree : p ∉ heldBy s.rePeers) (hr : p = 0 → (s.mem 0).lrbReady = false)
    (hp : ∀ q, s.reDeliverNext = some q → Older s p q) : Handing (assignBucket s cid p) := by
  obtain ⟨cs, hg, hn⟩ := hi
  have hperm := held_assign hg hn p
  refine ⟨?_, ?_, h.next, ?_, ?_, h.past⟩
  · exact hperm.nodup_iff.mpr (List.nodup_cons.mpr ⟨hfree, h.nodup⟩)
  · intro q hq
    rcases List.mem_cons.mp (hperm.mem_iff.mp hq) with rfl | hq
    · exact hl
    · exact h.live q hq
  · intro h0
    rcases List.mem_cons.mp (hperm.mem_iff.mp h0) with rfl | h0
    · exact hp
    · exact h.before h0
  · intro hl0 hready h0
    rcases List.mem_cons.mp (hperm.mem_iff.mp h0) with he | h0
    · simp only [assignBucket] at hready
      rw [hr he.symm] at hready
      cases hready
    · exact h.done hl0 hready h0

theorem Handing.acknowledge (h : Handing s) (hh : Holds s cid p) :
    Handing (acknowledgeBucket s cid p) := by
  obtain ⟨cs, hg, hb⟩ := hh
  have hperm := held_release hg hb
  have hnodup := List.nodup_cons.mp (hperm.nodup_iff.mp h.nodup)
  have hsub : ∀ q ∈ heldBy (setCsBucket cid none s.rePeers), q ∈ heldBy s.rePeers :=
    fun q hq => hperm.mem_iff.mpr (List.mem_cons_of_mem _ hq)
  have hmem : p ∈ heldBy s.rePeers := hperm.mem_iff.mpr List.mem_cons_self
  have hindex := modify_congr LcapRecBucket.lrbIndex (fun b => { b with lrbReady := true })
    (fun _ => rfl) s p
  have holder : ∀ {q r}, Older s q r → Older (acknowledgeBucket s cid p) q r := by
    intro q r hlt
    rwa [Older, acknowledge_mem, hindex, hindex]
  refine ⟨hnodup.2, fun q hq => h.live q (hsub q hq), h.next,
    fun h0 q hq => holder (h.before (hsub 0 h0) q hq), ?_, ?_⟩
  · intro hl0 hready h0
    rcases acknowledge_ready hready with rfl | hready
    · exact hnodup.1 h0
    · exact h.done hl0 hready (hsub 0 h0)
  · intro hl0 hready q hq
    rcases acknowledge_ready hready with rfl | hready
    · exact holder (h.before hmem q hq)
    · exact holder (h.past hl0 hready q hq)

/-- A ready bucket is nobody's, so that its removal leaves no holder behind. -/
theorem Handing.destroy (hshape : Shape s) (h : Handing s) (hl : 0 ∈ s.reBuckets)
    (hr : (s.mem 0).lrbReady = true) : Handing (recBucketDestroy s 0) := by
  have hgone : 0 ∉ (recBucketDestroy s 0).reBuckets := hshape.nodup.not_mem_erase
  refine ⟨h.nodup, ?_, ?_, fun h0 => absurd h0 (h.done hl hr), fun h0 => absurd h0 hgone,
    fun h0 => absurd h0 hgone⟩
  · intro q hq
    have hne : q ≠ 0 := by
      rintro rfl
      exact h.done hl hr hq
    exact (List.mem_erase_of_ne hne).mpr (h.live q hq)
  · intro q hq
    have hne : q ≠ 0 := by
      rintro rfl
      exact Nat.lt_irrefl _ (h.past hl hr 0 hq)
    exact (List.mem_erase_of_ne hne).mpr (h.next q hq)

/-- Fetching a bucket that nobody holds and giving it to an idle client. -/
theorem Handing.give (hshape : Shape s) (h : Handing s) (hi : Idle s cid)
    (hl : p ∈ s.reBuckets) (hfree : p ∉ heldBy s.rePeers) (hf : Fetch s io t (some p)) :
    Handing (assignBucket (Proofs.sealOpen t p io) cid p) := by
  obtain ⟨ht, hlt, hr⟩ := h.fetch hshape hf
  have htshape := hshape.fetch hf
  have hlt' : p ∈ t.reBuckets := (fetch_frame hf).2.1 ▸ hl
  obtain ⟨hpeers, hcursor, hsub⟩ := seal_open_frame t p io
  have hpeers : (Proofs.sealOpen t p io).rePeers = s.rePeers := hpeers.trans (fetch_frame hf).2.2.1
  have hseat : clientStateGet (Proofs.sealOpen t p io) cid = clientStateGet s cid := by
    rw [clientStateGet, clientStateGet, hpeers]
  refine (ht.sealOpen htshape p io).assign (hi.congr hseat) (hsub hlt') ?_ ?_ ?_
  · rwa [hpeers]
  · rintro rfl
    rw [seal_open_mem htshape hlt']
    exact hr rfl hl
  · intro q hq
    rw [hcursor] at hq
    rw [Older, seal_open_mem htshape hlt', seal_open_mem htshape (ht.next q hq)]
    exact hlt q hq

theorem Handing.log (h : Handing s) (e : Event) : Handing (s.log e) := { h with }

theorem Handing.register (h : Handing s) (req : LcapnetRequest) :
    Handing (registerClient s req) :=
  h.frame rfl rfl (held_register s req) (fun _ => rfl) fun _ hr => hr

theorem Handing.deregister (h : Handing s) (cid : ConnId) : Handing (deregisterClient s cid) := by
  have hsub := held_deregister s cid
  exact ⟨hsub.nodup h.nodup, fun p hp => h.live p (hsub.subset hp), h.next,
    fun h0 => h.before (hsub.subset h0), fun hl hr h0 => h.done hl hr (hsub.subset h0), h.past⟩

theorem Handing.insert (h : Handing s) (bkt : Nat) (r : ChangelogRec) :
    Handing (recCounted (recInsert s bkt r) r) :=
  (h.modify bkt (recAppend r) (fun _ => rfl) (fun _ => rfl)).frame rfl rfl rfl (fun _ => rfl)
    fun _ hr => hr

theorem Handing.served (hshape : Shape s) (h : Handing s) (hc : NoRevoke s (.request req io))
    (hs : Served s req io t rc) : Handing t := by
  have hgive : ∀ {u p}, req.WellFormed .dequeue → Idle s req.lrForward → Fetch s io u (some p) →
      (some p = u.reCurrentOpen → io.bktAlloc = true) →
      Handing (assignBucket (Proofs.sealOpen u p io) req.lrForward p) := by
    intro u p hop hi hf hb
    rw [(fetch_frame hf).2.2.2.1] at hb
    obtain ⟨hl, hfree⟩ := hc hop hi p (offered_of_fetch hf) hb
    exact h.give hshape hi hl hfree hf
  cases hs with
  | refused _ _ | eof _ _ _ | vacuous _ _ => exact h
  | registered _ _ => exact (h.register req).log _
  | deregistered _ _ => exact (h.deregister req.lrForward).log _
  | unopened _ _ hf _ _ => exact (h.fetch hshape hf).1
  | unpacked hop hi hf hb _ => exact hgive hop hi hf hb
  | @delivered u p hop hi hf hb _ _ =>
    exact ((hgive hop hi hf hb).modify p
      (fun b => { b with lrbExpiry := io.sendNow + ackTimeoutSec }) (fun _ => rfl)
      (fun _ => rfl)).log _
  | pending _ hh _ _ => exact (h.acknowledge hh).log _
  | failed _ hh _ _ _ _ => exact (h.acknowledge hh).log _
  | @purged bkt head endrec _ hh hcn hr _ _ hl =>
    obtain rfl : head = 0 := Option.some.inj (hcn.symm.trans hshape.cleanup)
    have hl' : 0 ∈ (acknowledgeBucket s req.lrForward bkt).reBuckets := hl
    simp only [lrbReady, if_pos hl'] at hr
    exact (((h.acknowledge hh).log _).destroy ((hshape.acknowledge _ _).log _) hl hr).log _

theorem init_handing (cfg : LcapCfg) (idx : Nat) : Handing (initialReader cfg idx) := by
  refine ⟨List.nodup_nil, ?_, ?_, ?_, ?_, ?_⟩
  · intro p hp
    cases hp
  · intro q hq
    cases hq
    exact List.mem_cons_self
  · intro h0
    cases h0
  · intro _ hr
    cases hr
  · intro _ hr
    cases hr

/-- In a run in which no DEQUEUE is given a bucket that a registered client holds or that
has been released, buckets have one owner each, and a live one. -/
theorem owned_of_no_revoke (h : Reach (reader cfg idx) NoRevoke s) : Owned s := by
  apply Handing.owned
  apply reach_induct (P := Handing) h (init_handing cfg idx)
  · exact fun s b c d hs => { hs with }
  · intro s r block t hshape hs _ _ hst
    cases hst with
    | insert _ _ => exact hs.insert _ r
    | spill _ _ => exact (hs.openBucket (hshape.calloc_free block)).insert _ r
  · intro s req io t rc hshape hs hc hserved
    exact answered_preserve (fun _ _ _ ht => ht.log _) (hs.served hshape hc hserved) rc

namespace Sample

/-- Two clients share the stream and acknowledge in the order of delivery. -/
def sharing : List Label :=
  [batch [record 1, record 2], read [record 3], .request (start [1]) (calm 5),
    .request (start [2]) (calm 5), .request (dequeue [1]) (calm 5),
    .request (dequeue [2]) (calm 6), .request (clear [1]) (calm 7)]

end Sample

set_option maxRecDepth 2000 in
theorem owned_sharing : Owned (Sample.after Sample.sharing) :=
  owned_of_no_revoke (Sample.reach_after (by decide +kernel))

set_option maxRecDepth 2000 in
/-- A slow client keeps its bucket when the bucket is delivered to another. -/
theorem redelivery_shares_bucket : ∃ s, Reach (reader Sample.cfg 0) Always s ∧ ¬ Owned s := by
  refine ⟨Sample.after Sample.redelivery, Sample.reach_after (by decide +kernel), ?_⟩
  intro h
  have hpeers : (Sample.after Sample.redelivery).rePeers =
      [{ csStart := 0, csBucket := some 0, csIdent := [1] },
        { csStart := 0, csBucket := some 0, csIdent := [2] }] := rfl
  have hu := h.unique
  rw [hpeers] at hu
  simp at hu

end Lcap.Proofs
