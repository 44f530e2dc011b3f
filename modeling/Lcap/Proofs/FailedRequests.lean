import Lcap.Proofs.Seats

namespace Lcap.Proofs
open Reader Systems

/-- Clients, listed buckets and cursors are what they were. -/
structure Unchanged (s t : ReaderEnv) : Prop where
  peers : t.rePeers = s.rePeers
  buckets : t.reBuckets = s.reBuckets
  ready : ∀ p ∈ s.reBuckets, (t.mem p).lrbReady = (s.mem p).lrbReady
  expiry : ∀ p ∈ s.reBuckets, (t.mem p).lrbExpiry = (s.mem p).lrbExpiry
  opened : t.reCurrentOpen = s.reCurrentOpen
  deliver : t.reDeliverNext = s.reDeliverNext
  cleanup : t.reCleanupNext = s.reCleanupNext

/-- The handler fails, and the dispatcher turns its code into an answer. -/
def AnsweredNegatively (s : ReaderEnv) (req : LcapnetRequest) (io : RpcIo) (t : ReaderEnv) : Prop :=
  ∃ u rc, rpcDispatch s req io = .ok (u, rc) ∧ rc < 0 ∧ t = answered u req io rc

/-- A START that passes its checks and gets its memory. -/
def StartAdmitted (s : ReaderEnv) (req : LcapnetRequest) (io : RpcIo) : Prop :=
  req.WellFormed .start ∧ clientStateGet s req.lrForward = none ∧ io.csAlloc = true ∧
    io.identAlloc = true

def DequeueAdmitted (s : ReaderEnv) (req : LcapnetRequest) : Prop :=
  req.WellFormed .dequeue ∧ Idle s req.lrForward

def FiniAdmitted (s : ReaderEnv) (req : LcapnetRequest) : Prop :=
  req.WellFormed .fini ∧ (clientStateGet s req.lrForward).isSome = true

/-- A DEQUEUE that goes back to the open bucket, with the delivery cursor already past it,
and cannot replace that bucket, which has no ready flag to lose. -/
def DequeueStuck (s : ReaderEnv) (req : LcapnetRequest) (io : RpcIo) : Prop :=
  DequeueAdmitted s req ∧ s.reDeliverNext = none ∧ s.reCurrentOpen = s.reCleanupNext ∧
    io.bktAlloc = false ∧
    ∀ head ∈ s.reCleanupNext, head ∈ s.reBuckets → (s.mem head).lrbReady = false

/-- The request ends before it has changed anything. -/
def FailsEarly (s : ReaderEnv) (req : LcapnetRequest) (io : RpcIo) : Prop :=
  ¬ StartAdmitted s req io ∧ ¬ FiniAdmitted s req ∧
    (DequeueAdmitted s req → DequeueStuck s req io)

theorem Unchanged.refl (s : ReaderEnv) : Unchanged s s :=
  ⟨rfl, rfl, fun _ _ => rfl, fun _ _ => rfl, rfl, rfl, rfl⟩

/-- The answer itself changes nothing. -/
theorem unchanged_answered : Unchanged s (answered t req io rc) ↔ Unchanged s t := by
  unfold answered
  split
  · exact ⟨fun h => { h with }, fun h => { h with }⟩
  · exact Iff.rfl

/-! ## START and FINI change the list of clients before they answer -/

theorem dispatch_start (hop : req.WellFormed .start) :
    rpcDispatch s req io = .ok (readerHandleStart s req io) := by
  simp only [rpcDispatch, if_neg (Nat.not_lt.mpr hop.1), hop.2.1, rpcHandleOne]

theorem start_unchanged_iff (hop : req.WellFormed .start)
    (hd : rpcDispatch s req io = .ok (u, rc)) : Unchanged s u ↔ ¬ StartAdmitted s req io := by
  have he : readerHandleStart s req io = (u, rc) :=
    Except.ok.inj ((dispatch_start hop).symm.trans hd)
  unfold readerHandleStart at he
  split at he
  · rename_i hlen
    exact absurd hop.2.2 (Nat.not_le_of_lt hlen)
  split at he
  · rename_i hknown
    cases he
    refine iff_of_true (.refl s) ?_
    intro hadmitted
    obtain ⟨_, hnew, _, _⟩ := hadmitted
    simp [hnew] at hknown
  rename_i hnew
  split at he
  · rename_i ha
    cases he
    refine iff_of_true (.refl s) ?_
    intro hadmitted
    obtain ⟨_, _, hcs, _⟩ := hadmitted
    simp [hcs] at ha
  rename_i hcs
  split at he
  · rename_i ha
    cases he
    refine iff_of_true (.refl s) ?_
    intro hadmitted
    obtain ⟨_, _, _, hid⟩ := hadmitted
    simp [hid] at ha
  rename_i hid
  cases he
  refine iff_of_false ?_ (not_not.mpr ⟨hop, by simpa using hnew, by simpa using hcs, by
    simpa using hid⟩)
  intro h
  have hp : s.rePeers ++ [_] = s.rePeers := h.peers
  simp at hp

theorem dispatch_fini (hop : req.WellFormed .fini) :
    rpcDispatch s req io = .ok (readerHandleFini s req io) := by
  simp only [rpcDispatch, if_neg (Nat.not_lt.mpr hop.1), hop.2.1, rpcHandleOne]

theorem fini_changes (hknown : (clientStateGet s cid).isSome = true) :
    ¬ Unchanged s (logAck (deregisterClient s cid) cid rc out) := by
  intro h
  have hp : s.rePeers.eraseP (sameIdent cid) = s.rePeers := h.peers
  obtain ⟨cs, hg⟩ := Option.isSome_iff_exists.mp hknown
  obtain ⟨hm, hid⟩ := mem_of_get hg
  have hlen := List.length_eraseP_of_mem hm (same_ident_iff.mpr hid)
  rw [hp] at hlen
  have hpos := List.length_pos_of_mem hm
  omega

theorem fini_unchanged_iff (hop : req.WellFormed .fini)
    (hd : rpcDispatch s req io = .ok (u, rc)) : Unchanged s u ↔ ¬ FiniAdmitted s req := by
  have he : readerHandleFini s req io = (u, rc) := Except.ok.inj ((dispatch_fini hop).symm.trans hd)
  unfold readerHandleFini at he
  split at he
  · rename_i hlen
    exact absurd hop.2.2 (Nat.not_le_of_lt hlen)
  split at he
  · rename_i hnone
    cases he
    refine iff_of_true (.refl s) ?_
    intro hadmitted
    obtain ⟨_, hknown⟩ := hadmitted
    simp [Option.isNone_iff_eq_none.mp hnone] at hknown
  · rename_i hsome
    cases he
    have hknown : (clientStateGet s req.lrForward).isSome = true := by
      simpa [Option.isSome_iff_ne_none] using hsome
    exact iff_of_false (fini_changes hknown) (not_not.mpr ⟨hop, hknown⟩)

/-! ## DEQUEUE moves the cursor, then gives the bucket away -/

/-- Once the bucket has an owner the client's entry has changed. -/
theorem assign_changes (hi : Idle s cid) (hp : t.rePeers = (assignBucket u cid p).rePeers)
    (hu : u.rePeers = s.rePeers) : ¬ Unchanged s t := by
  intro h
  have hiu : Idle u cid := hi.congr (by simp only [clientStateGet, hu])
  have hst : clientStateGet t cid = clientStateGet s cid := by simp only [clientStateGet, h.peers]
  have hh : Holds s cid p := (assign_holds hiu p).congr (by
    rw [← hst]
    simp only [clientStateGet, hp])
  exact hh.not_idle hi

theorem nodes_from_last (h : lnNext l p = none) : nodesFrom l p = [p] := by
  unfold nodesFrom
  split
  · rename_i hp
    induction l with
    | nil => cases hp
    | cons a rest ih =>
      unfold lnNext at h
      by_cases he : a = p
      · subst he
        rw [if_pos rfl] at h
        simp [List.head?_eq_none_iff.mp h]
      · rw [if_neg he] at h
        have hrest : p ∈ rest := (List.mem_cons.mp hp).resolve_left fun hpa => he hpa.symm
        simpa [he] using ih h hrest
  · rfl

/-- Nothing follows the open bucket, whose number is the last. -/
theorem Shape.open_next (h : Shape s) (ho : s.reCurrentOpen = some p) :
    lnNext s.reBuckets p = none := by
  cases hn : lnNext s.reBuckets p with
  | none => rfl
  | some q =>
    have hlast := (h.is_open ho).last
    obtain ⟨hq, hlt⟩ := h.after hn
    have := h.numbered q (.inr hq)
    omega

/-- Fetching the open bucket ends at the end of the list. -/
theorem unopened_unchanged_iff (hshape : Shape s) (hf : Fetch s io t (some bkt))
    (ho : some bkt = t.reCurrentOpen) :
    Unchanged s t ↔ s.reDeliverNext = none ∧
      (bkt ∈ s.reBuckets → (s.mem bkt).lrbReady = false) := by
  have hopen : s.reCurrentOpen = some bkt := (fetch_frame hf).2.2.2.1.symm.trans ho.symm
  have hnext := hshape.open_next hopen
  cases hf with
  | @rewind _ m hc hx hm hw =>
    constructor
    · intro h
      have hd : s.reDeliverNext = none := h.deliver.symm.trans hnext
      refine ⟨hd, fun hl => ?_⟩
      have hready : (m bkt).lrbReady = (s.mem bkt).lrbReady := h.ready bkt hl
      rw [← hready]
      refine hw.reset id bkt ?_ ?_ fun q hq => ?_
      · rw [nodes_from_last hnext]
        exact List.mem_singleton_self bkt
      · rw [nodes_from_last hnext]
        exact List.pairwise_singleton _ bkt
      · cases hd.symm.trans hq
    · rintro ⟨hd, hready⟩
      refine ⟨rfl, rfl, fun p hp => ?_, fun p _ => (hm.expiry p).1, rfl, hnext.trans hd.symm, rfl⟩
      by_cases he : p = bkt
      · subst he
        rw [hready hp]
        exact Bool.eq_false_iff.mpr fun hr => by simp [hm.ready p hr] at hready; exact hready hp
      · refine congrArg _ (hw.others p ?_)
        rw [nodes_from_last hnext]
        exact fun hm => he (List.mem_singleton.mp hm)
  | advance hc hx hd =>
    refine iff_of_false ?_ (by simp [hd])
    intro h
    cases hnext.symm.trans (h.deliver.trans hd)

theorem fetched_head (hf : Fetch s io t (some bkt)) (hd : s.reDeliverNext = none) :
    s.reCleanupNext = some bkt := by
  cases hf with
  | rewind hc _ _ _ => exact hc
  | advance _ _ hd' => exact absurd (hd.symm.trans hd') (by simp)

/-- The bucket has found its owner, so its replacement was no problem. -/
theorem not_stuck (hf : Fetch s io t (some bkt))
    (hb : some bkt = t.reCurrentOpen → io.bktAlloc = true) :
    ¬ DequeueStuck s req io := by
  intro hadmitted
  obtain ⟨_, hd, ho, ha, _⟩ := hadmitted
  have hopen : some bkt = t.reCurrentOpen := by
    rw [(fetch_frame hf).2.2.2.1, ho, fetched_head hf hd]
  exact absurd (hb hopen) (by simp [ha])

theorem dequeue_unchanged_iff (hshape : Shape s) (hop : req.WellFormed .dequeue)
    (hd : rpcDispatch s req io = .ok (u, rc)) (hrc : rc < 0) :
    Unchanged s u ↔ (DequeueAdmitted s req → DequeueStuck s req io) := by
  have hgiven : ∀ {t p}, Fetch s io t (some p) → (sealOpen t p io).rePeers = s.rePeers := by
    intro t p hf
    exact (seal_open_frame t p io).1.trans (fetch_frame hf).2.2.1
  cases dispatch_served hshape.nodup hd with
  | refused _ hno => exact iff_of_true (.refl s) (fun ha => absurd (.inl ha) hno)
  | registered hop' _ | deregistered hop' _ | vacuous hop' _ | pending hop' _ _ _
  | failed hop' _ _ _ _ _ | purged hop' _ _ _ _ _ _ => cases hop.unique hop'
  | eof _ _ _ => exact absurd hrc (by decide)
  | @unopened _ bkt _ hi hf ho ha =>
    rw [unopened_unchanged_iff hshape hf ho]
    constructor
    · rintro ⟨hnone, hready⟩ _
      have hc := fetched_head hf hnone
      refine ⟨⟨hop, hi⟩, hnone, ?_, ha, fun head hh => ?_⟩
      · rw [← (fetch_frame hf).2.2.2.1, ← ho, hc]
      · cases hc.symm.trans hh
        exact hready
    · intro hstuck
      obtain ⟨_, hnone, _, _, hready⟩ := hstuck ⟨hop, hi⟩
      exact ⟨hnone, hready bkt (fetched_head hf hnone)⟩
  | unpacked _ hi hf hb _ =>
    refine iff_of_false (assign_changes hi rfl (hgiven hf)) ?_
    exact fun hstuck => not_stuck hf hb (hstuck ⟨hop, hi⟩)
  | delivered _ hi hf hb _ _ =>
    refine iff_of_false (assign_changes hi rfl (hgiven hf)) ?_
    exact fun hstuck => not_stuck hf hb (hstuck ⟨hop, hi⟩)

/-- A START, DEQUEUE or FINI answered with a negative code has left the reader as it
was exactly when it failed before its handler changed anything. -/
theorem failed_request_unchanged_iff (h : Reach (reader cfg idx) Always s)
    (hop : op = .start ∨ op = .dequeue ∨ op = .fini) (hcode : rpcOpType req.opType = some op)
    (ha : AnsweredNegatively s req io t) : Unchanged s t ↔ FailsEarly s req io := by
  have hshape := reach_shape h
  obtain ⟨u, rc, hd, hrc, rfl⟩ := ha
  rw [unchanged_answered]
  have hstart : ¬ req.WellFormed .start → ¬ StartAdmitted s req io := fun hn ha => hn ha.1
  have hfini : ¬ req.WellFormed .fini → ¬ FiniAdmitted s req := fun hn ha => hn ha.1
  have hdequeue : ¬ req.WellFormed .dequeue → ¬ DequeueAdmitted s req := fun hn ha => hn ha.1
  have hother : ∀ {op'}, req.WellFormed op → op' ≠ op → ¬ req.WellFormed op' := by
    intro op' hwf hne hwf'
    exact hne (hwf'.unique hwf)
  by_cases hwf : req.WellFormed op
  · rcases hop with rfl | rfl | rfl
    · have hf := hfini (hother hwf (by decide))
      have hq := hdequeue (hother hwf (by decide))
      rw [start_unchanged_iff hwf hd]
      exact ⟨fun hs => ⟨hs, hf, fun ha => absurd ha hq⟩, fun he => he.1⟩
    · have hs := hstart (hother hwf (by decide))
      have hf := hfini (hother hwf (by decide))
      rw [dequeue_unchanged_iff hshape hwf hd hrc]
      exact ⟨fun hq => ⟨hs, hf, hq⟩, fun he => he.2.2⟩
    · have hs := hstart (hother hwf (by decide))
      have hq := hdequeue (hother hwf (by decide))
      rw [fini_unchanged_iff hwf hd]
      exact ⟨fun hf => ⟨hs, hf, fun ha => absurd ha hq⟩, fun he => he.2.1⟩
  · -- a truncated request is refused whatever it asks for
    have hnone : ∀ {op'}, req.WellFormed op' → op' = op := fun hwf' =>
      Option.some.inj (hwf'.2.1.symm.trans hcode)
    have hn : ∀ {op'}, ¬ req.WellFormed op' := fun hwf' => hwf (hnone hwf' ▸ hwf')
    have hu : u = s := by
      cases dispatch_served hshape.nodup hd with
      | refused _ _ => rfl
      | registered hop' _ | deregistered hop' _ | eof hop' _ _ | unopened hop' _ _ _ _
      | unpacked hop' _ _ _ _ | delivered hop' _ _ _ _ _ | vacuous hop' _ | pending hop' _ _ _
      | failed hop' _ _ _ _ _ | purged hop' _ _ _ _ _ _ => exact absurd hop' hn
    subst hu
    exact iff_of_true (.refl u)
      ⟨hstart hn, hfini hn, fun ha => absurd ha (hdequeue hn)⟩

namespace Sample

/-- The ENQUEUE message cannot be allocated. -/
def noMessage (t : Nat) : RpcIo := { calm t with rpcAlloc := false }

end Sample

set_option maxRecDepth 2000 in
theorem failed_request_unchanged_registered :
    Unchanged (Sample.after Sample.registered)
        (answered (Sample.after Sample.registered) (Sample.start [1]) (Sample.calm 5) (-EALREADY)) ↔
      FailsEarly (Sample.after Sample.registered) (Sample.start [1]) (Sample.calm 5) :=
  failed_request_unchanged_iff (Sample.reach_after (by decide +kernel)) (.inl rfl) (by decide)
    ⟨_, _, rfl, ealready_neg, rfl⟩

set_option maxRecDepth 2000 in
/-- A DEQUEUE whose message finds no memory is answered -ENOMEM and leaves the client
with a bucket it has never received. -/
theorem failed_dequeue_keeps_bucket :
    ∃ s t, Reach (reader Sample.cfg 0) Always s ∧
      AnsweredNegatively s (Sample.dequeue [1]) (Sample.noMessage 5) t ∧
      Holds t [1] 0 ∧ ¬ Unchanged s t := by
  refine ⟨Sample.after Sample.registered, _, Sample.reach_after (by decide +kernel),
    ⟨_, _, rfl, enomem_neg, rfl⟩, ⟨_, rfl, rfl⟩, ?_⟩
  intro h
  exact absurd h.peers (by decide +kernel)

end Lcap.Proofs
