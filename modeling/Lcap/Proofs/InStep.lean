import Lcap.Proofs.Seats

namespace Lcap.Proofs
open Reader Client Systems

/-! ## What client and reader expect of each other -/

/-- Where the reader must have the client when the request reaches it. -/
def Expects (s : ReaderEnv) (cid : ConnId) : PxRequest → Prop
  | .start _ _ _ => True
  | .dequeue => Idle s cid
  | .clear _ _ _ => ∃ p, Holds s cid p

/-- What the reply to a request says about where the reader has the client. -/
def Tells (s : ReaderEnv) (cid : ConnId) : PxRequest → Reply → Prop
  | .start _ _ _, .ack rc | .clear _ _ _, .ack rc => 0 ≤ rc → Idle s cid
  | .dequeue, .ack rc => rc ≠ 0 ∧ (0 ≤ rc → Idle s cid)
  | .dequeue, .enqueue rpcSize prCount prRecords =>
    prCount = prRecords.length ∧ (prRecords = [] → rpcSize = sizeofEnqueue) ∧ ∃ p, Holds s cid p
  | .start _ _ _, .enqueue _ _ _ | .clear _ _ _, .enqueue _ _ _ => False

theorem Expects.congr (hs : clientStateGet t cid = clientStateGet s cid) (h : Expects s cid px) :
    Expects t cid px := by
  cases px with
  | start _ _ _ => trivial
  | dequeue => exact Idle.congr hs h
  | clear _ _ _ =>
    obtain ⟨p, hp⟩ := h
    exact ⟨p, hp.congr hs⟩

theorem Tells.congr (hs : clientStateGet t cid = clientStateGet s cid) (h : Tells s cid px rep) :
    Tells t cid px rep := by
  cases px with
  | start _ _ _ | clear _ _ _ =>
    cases rep with
    | ack rc => exact fun hrc => (h hrc).congr hs
    | enqueue _ _ _ => exact h
  | dequeue =>
    cases rep with
    | ack rc => exact ⟨h.1, fun hrc => (h.2 hrc).congr hs⟩
    | enqueue _ _ _ =>
      obtain ⟨hc, hz, p, hp⟩ := h
      exact ⟨hc, hz, p, hp.congr hs⟩

/-- An error says nothing. -/
theorem tells_error (hrc : rc < 0) (px : PxRequest) : Tells s cid px (.ack rc) := by
  have hneg : ¬ 0 ≤ rc := Int.not_le.mpr hrc
  cases px with
  | start _ _ _ | clear _ _ _ => exact fun h => absurd h hneg
  | dequeue => exact ⟨Int.ne_of_lt hrc, fun h => absurd h hneg⟩

/-! ## The reader keeps to it -/

/-- The size of a bucket's message leaves no room for records it does not have. -/
def Sized (s : ReaderEnv) : Prop := ∀ p, (s.mem p).lrbRecords = [] → (s.mem p).lrbSize = 0

theorem Sized.quiet (h : Sized s) (hq : Quiet s t) : Sized t := by
  intro p hp
  rw [(hq.contents p).2]
  exact h p ((hq.contents p).1 ▸ hp)

theorem Sized.openBucket (h : Sized s) (b : Nat) : Sized (openBucket s b) := by
  intro p hp
  by_cases he : p = b
  · rw [he, open_bucket_new]
  · rw [open_bucket_mem he] at hp ⊢
    exact h p hp

theorem Sized.insert (h : Sized s) : Sized (recCounted (recInsert s q r) r) := by
  intro p hp
  by_cases he : p = q
  · subst he
    simp [recCounted, recInsert, ReaderEnv.modify, ReaderEnv.log, recAppend] at hp
  · simp only [recCounted, recInsert, ReaderEnv.modify, ReaderEnv.log,
      Function.update_of_ne he] at hp ⊢
    exact h p hp

theorem reach_sized (h : Reach (reader cfg idx) C s) : Sized s := by
  refine h.induct (Q := Shape) (fun t ht => reach_shape ht) (fun _ _ => rfl) ?_
  intro s l t hshape hs _ hstep
  exact step_filing hshape (fun _ _ hs hq => hs.quiet hq)
    (fun _ b hs _ => hs.openBucket b) (fun _ _ _ hs _ _ _ => hs.insert) hstep hs

/-- The request has been served, with at most one reply, which tells the truth. -/
def Repliable (cid : ConnId) (px : PxRequest) (s t : ReaderEnv) : Prop :=
  repliesTo cid t.trace = repliesTo cid s.trace ∨
    ∃ rep, repliesTo cid t.trace = repliesTo cid s.trace ++ [rep] ∧ Tells t cid px rep

/-- A handler that has sent nothing leaves the reply to the dispatcher. -/
theorem repliable_dispatched (hr : repliesTo req.lrForward t.trace =
      repliesTo req.lrForward s.trace)
    (htell : Tells t req.lrForward px (.ack rc)) :
    Repliable req.lrForward px s (answered t req io rc) := by
  unfold answered
  split
  · rcases replies_to_send req.lrForward t.trace none (.ack rc) io.ackSend with ⟨_, h⟩ | ⟨_, h⟩
    · exact .inr ⟨.ack rc, h.trans (by rw [hr]), Tells.congr rfl htell⟩
    · exact .inl (h.trans hr)
  · exact .inl hr

/-- A handler that sends a reply of its own: where that fails, the dispatcher replies. -/
theorem repliable_sent {u : ReaderEnv} (hr : repliesTo req.lrForward u.trace =
      repliesTo req.lrForward s.trace)
    (ht : t.trace = u.trace ++ [.sent req.lrForward bkt msg (sendRc io.send)])
    (htell : Tells t req.lrForward px msg) :
    Repliable req.lrForward px s (answered t req io (sendRc io.send)) := by
  rcases replies_to_send req.lrForward u.trace bkt msg io.send with ⟨hrc, h⟩ | ⟨hrc, h⟩
  · rw [hrc] at h ⊢
    have hself : answered t req io 0 = t := by simp [answered]
    rw [hself]
    rw [hrc] at ht
    exact .inr ⟨msg, by rw [ht, h, hr], htell⟩
  · exact repliable_dispatched (by rw [ht, h, hr]) (tells_error hrc px)

theorem start_repliable (hop : req.WellFormed .start) (hs : Served s req io t rc) :
    Repliable req.lrForward (.start flags mdtname startrec) s (answered t req io rc) := by
  cases hs with
  | refused hrc _ => exact repliable_dispatched rfl (tells_error hrc _)
  | registered _ hnew =>
    have hr : repliesTo req.lrForward (registerClient s req).trace =
        repliesTo req.lrForward s.trace := rfl
    refine repliable_sent hr rfl ?_
    exact fun _ => (register_idle hnew).congr rfl
  | deregistered hop' _ | eof hop' _ _ | unopened hop' _ _ _ _ | unpacked hop' _ _ _ _
  | delivered hop' _ _ _ _ _ | vacuous hop' _ | pending hop' _ _ _ | failed hop' _ _ _ _ _
  | purged hop' _ _ _ _ _ _ => cases hop.unique hop'

theorem dequeue_repliable (hop : req.WellFormed .dequeue) (hi : Idle s req.lrForward)
    (hsized : Sized s) (hs : Served s req io t rc) :
    Repliable req.lrForward .dequeue s (answered t req io rc) := by
  cases hs with
  | refused hrc _ => exact repliable_dispatched rfl (tells_error hrc _)
  | eof _ _ _ => exact repliable_dispatched rfl ⟨Int.one_ne_zero, fun _ => hi⟩
  | unopened _ _ hf _ _ =>
    exact repliable_dispatched (replies_to_congr (fetch_messages hf) _) (tells_error enomem_neg _)
  | unpacked _ _ hf _ _ =>
    exact repliable_dispatched (replies_to_congr (give_messages hf _) _) (tells_error enomem_neg _)
  | @delivered u p _ _ hf _ _ _ =>
    have hsealed : Sized (sealOpen u p io) :=
      seal_open_preserve (fun hs => hs.openBucket _) (hsized.quiet (.fetch hf)) p
    have hseat : clientStateGet (sealOpen u p io) req.lrForward = clientStateGet s req.lrForward :=
      ((Unseen.fetch hf _).trans (.sealOpen _ u p io)).seat
    refine repliable_sent (replies_to_congr (give_messages hf _) _) rfl ⟨rfl, ?_, p, ?_⟩
    · intro hnil
      exact congrArg (sizeofEnqueue + ·) (hsealed p hnil)
    · exact (assign_holds (hi.congr hseat) p).congr rfl
  | registered hop' _ | deregistered hop' _ | vacuous hop' _ | pending hop' _ _ _
  | failed hop' _ _ _ _ _ | purged hop' _ _ _ _ _ _ => cases hop.unique hop'

theorem clear_repliable (mdtname id : List UInt8) (endrec : Int) (hop : req.WellFormed .clear)
    (hh : Holds s req.lrForward p) (hs : Served s req io t rc) :
    Repliable req.lrForward (.clear mdtname id endrec) s (answered t req io rc) := by
  have hack : ∀ bkt, repliesTo req.lrForward (acknowledgeBucket s req.lrForward bkt).trace =
      repliesTo req.lrForward s.trace := fun _ => replies_to_silent rfl _ s.trace
  cases hs with
  | refused hrc _ => exact repliable_dispatched rfl (tells_error hrc _)
  | vacuous _ hi => exact absurd hi hh.not_idle
  | pending _ hh' _ _ =>
    exact repliable_sent (hack _) rfl (fun _ => (acknowledge_idle hh').congr rfl)
  | failed _ _ _ _ _ hrc =>
    exact repliable_dispatched ((Unseen.logClear _ _ _ _).replies.trans (hack _))
      (tells_error hrc _)
  | purged _ hh' _ _ _ _ _ =>
    refine repliable_sent ?_ rfl (fun _ => (acknowledge_idle hh').congr rfl)
    exact ((Unseen.logClear _ _ _ _).trans (.destroy _ _ _)).replies.trans (hack _)
  | registered hop' _ | deregistered hop' _ | eof hop' _ _ | unopened hop' _ _ _ _
  | unpacked hop' _ _ _ _ | delivered hop' _ _ _ _ _ => cases hop.unique hop'

/-- A request that the reader expects is answered at most once, and truly. -/
theorem request_repliable (h : Reach (reader cfg idx) Always s) (he : Expects s cid px)
    (hr : readerStep s (.request (px.pack cid) io) = some t) : Repliable cid px s t := by
  obtain ⟨_, hhdl⟩ := request_step hr
  obtain ⟨u, rc, hs, rfl⟩ := request_served (reach_shape h).nodup hhdl
  cases px with
  | start flags mdtname startrec =>
    exact start_repliable (start_well_formed cid flags mdtname startrec) hs
  | dequeue => exact dequeue_repliable (dequeue_well_formed cid) he (reach_sized h) hs
  | clear mdtname id endrec =>
    obtain ⟨p, hp⟩ := he
    exact clear_repliable mdtname id endrec (clear_well_formed cid mdtname id endrec) hp hs

/-! ## The client keeps to it -/

/-- The call sends only what the reader expects. Its result meets `P` where the reader
then stands, or `F` when the call returns with its request still on the way. -/
def Safe (cid : ConnId) (s : ReaderEnv) (P : ReaderEnv → α → Prop) (F : α → Prop) : Call α → Prop
  | .ret a => P s a
  | .leave px a => Expects s cid px ∧ F a
  | .ask px resume => Expects s cid px ∧ ∀ t rep, Tells t cid px rep → P t (resume rep)

theorem Safe.map {call : Call α} {f : α → β} (h : Safe cid s P F call)
    (hp : ∀ t a, P t a → P' t (f a)) (hf : ∀ a, F a → F' (f a)) :
    Safe cid s P' F' (call.map f) := by
  cases call with
  | ret a => exact hp s a h
  | leave px a => exact ⟨h.1, hf a h.2⟩
  | ask px resume => exact ⟨h.1, fun t rep ht => hp t _ (h.2 t rep ht)⟩

/-- The counters of the cache stay within the entries that have been written. -/
structure Cached (pzd : PxZmqData) : Prop where
  next : pzd.recNxt ≤ pzd.recCnt
  count : pzd.recCnt ≤ pzd.records.length

/-- The cache is used up exactly when the reader has no bucket of the client. -/
structure Agree (s : ReaderEnv) (cid : ConnId) (pzd : PxZmqData) : Prop where
  cached : Cached pzd
  idle : pzd.recNxt = pzd.recCnt → Idle s cid
  holds : pzd.recNxt < pzd.recCnt → ∃ p, Holds s cid p

/-- A record has been taken from a cache whose bucket the client still holds. -/
def Taken (s : ReaderEnv) (cid : ConnId) (pzd : PxZmqData) : Prop :=
  Cached pzd ∧ ∃ p, Holds s cid p

theorem start_safe (flags : Nat) (mdtname : List UInt8) (startrec : Int) (io : PxIo) :
    Safe cid s (fun t r => 0 ≤ r.2 → Agree t cid r.1) (fun r => r.2 < 0)
      (pxChangelogStart flags mdtname startrec io) := by
  have herr : ∀ {t : ReaderEnv} {rc : Int}, rc < 0 → 0 ≤ rc → Agree t cid {} :=
    fun hneg hrc => absurd hrc (Int.not_le.mpr hneg)
  unfold pxChangelogStart
  split
  · exact herr enomem_neg
  split
  · exact herr (errno_neg _)
  · exact herr (errno_neg _)
  · refine ⟨trivial, ?_⟩
    intro t rep htell hrc
    cases rep with
    | enqueue _ _ _ => exact htell.elim
    | ack rc =>
      cases hrecv : io.recv with
      | some e =>
        simp only [hrecv] at hrc
        exact herr (errno_neg e) hrc
      | none =>
        simp only [hrecv, repSize, Nat.lt_irrefl, ↓reduceIte] at hrc ⊢
        exact ⟨⟨le_rfl, le_rfl⟩, fun _ => htell hrc, fun h => absurd h (Nat.lt_irrefl 0)⟩

/-- What a DEQUEUE leaves in the cache: new records, or none on EOF. -/
structure Dequeued (s : ReaderEnv) (cid : ConnId) (r : PxZmqData × Int) : Prop where
  filled : r.2 = 0 → r.1.recNxt < r.1.recCnt ∧ Taken s cid r.1
  eof : 0 < r.2 → Agree s cid r.1

theorem dequeued_error (hrc : rc < 0) : Dequeued s cid (pzd, rc) :=
  ⟨fun h => absurd h (Int.ne_of_lt hrc), fun h => absurd h (Int.lt_asymm hrc)⟩

theorem cache_reply_dequeued (hpos : 0 < recSize) (hc : Cached pzd) (hend : pzd.recNxt = pzd.recCnt)
    (htell : Tells t cid .dequeue rep) : Dequeued t cid (cacheReply recSize pzd io rep) := by
  unfold cacheReply
  split
  · exact dequeued_error (errno_neg _)
  split
  · exact dequeued_error eoverflow_neg
  split
  · rename_i rc
    exact ⟨fun h => absurd h htell.1, fun h => ⟨hc, fun _ => htell.2 (Int.le_of_lt h),
      fun h => absurd hend (Nat.ne_of_lt h)⟩⟩
  rename_i rpcSize prCount prRecords _
  obtain ⟨hcount, hsize, hh⟩ := htell
  split
  · exact dequeued_error einval_neg
  rename_i hlen
  -- an empty bucket's message is too short to get here
  have hsome : 0 < prCount := by
    rw [hcount]
    apply List.length_pos_of_ne_nil
    intro hnil
    have := hsize hnil
    omega
  split
  · split
    · exact ⟨fun _ => ⟨hsome, ⟨Nat.zero_le _, Nat.le_of_eq hcount⟩, hh⟩,
        fun h => absurd h (Int.lt_irrefl 0)⟩
    · exact dequeued_error enomem_neg
  · refine ⟨fun _ => ⟨hsome, ⟨Nat.zero_le _, ?_⟩, hh⟩, fun h => absurd h (Int.lt_irrefl 0)⟩
    simp [hcount]

theorem dequeue_safe (hpos : 0 < recSize) (ha : Agree s cid pzd) (hend : pzd.recNxt = pzd.recCnt)
    (io : PxIo) :
    Safe cid s (Dequeued · cid) (fun r => r.2 < 0) (pxDequeueRecords recSize pzd io) := by
  unfold pxDequeueRecords
  split
  · exact dequeued_error (errno_neg _)
  split
  · exact ⟨ha.idle hend, fun t rep htell => cache_reply_dequeued hpos ha.cached hend htell⟩
  · exact ⟨ha.idle hend, enomem_neg⟩

/-- What a call of `px_changelog_recv` comes back with. -/
def Received (s : ReaderEnv) (cid : ConnId) : PxZmqData × RecvResult → Prop
  | (pzd, .record _) => Taken s cid pzd
  | (pzd, .code rc) => 0 ≤ rc → Agree s cid pzd
  | (_, .overrun) => False

theorem next_record_received (h : Taken s cid pzd) (hlt : pzd.recNxt < pzd.recCnt) :
    Received s cid (nextRecord pzd) := by
  have hin : pzd.recNxt < pzd.records.length := Nat.lt_of_lt_of_le hlt h.1.count
  have hget : pzd.records[pzd.recNxt]? = some pzd.records[pzd.recNxt] :=
    List.getElem?_eq_getElem hin
  simp only [nextRecord, hget]
  exact ⟨⟨hlt, h.1.count⟩, h.2⟩

theorem recv_safe (hpos : 0 < recSize) (ha : Agree s cid pzd) (io : PxIo) :
    Safe cid s (Received · cid) (fun r => ∃ rc, r.2 = .code rc ∧ rc < 0)
      (pxChangelogRecv recSize pzd io) := by
  unfold pxChangelogRecv
  split
  · rename_i hend
    apply (dequeue_safe hpos ha hend io).map
    · rintro t ⟨pzd', rc⟩ hd
      by_cases hrc : rc = 0
      · simp only [hrc, ne_eq, not_true_eq_false, ↓reduceIte]
        exact next_record_received (hd.filled hrc).2 (hd.filled hrc).1
      · simp only [ne_eq, hrc, not_false_eq_true, ↓reduceIte]
        exact fun h => hd.eof (Int.lt_iff_le_and_ne.mpr ⟨h, Ne.symm hrc⟩)
    · rintro ⟨pzd', rc⟩ hneg
      have hneg : rc < 0 := hneg
      simp only [ne_eq, Int.ne_of_lt hneg, not_false_eq_true, ↓reduceIte]
      exact ⟨rc, rfl, hneg⟩
  · rename_i hne
    have hlt := lt_of_le_of_ne ha.cached.next hne
    exact next_record_received ⟨ha.cached, ha.holds hlt⟩ hlt

theorem clear_safe (h : Taken s cid pzd) (mdtname id : List UInt8) (endrec : Int) (io : PxIo) :
    Safe cid s (fun t rc => 0 ≤ rc → Agree t cid pzd) (· < 0)
      (pxChangelogClear pzd mdtname id endrec io) := by
  unfold pxChangelogClear
  split
  · rename_i hlt
    exact fun _ => ⟨h.1, fun hend => absurd hend (Nat.ne_of_lt hlt), fun _ => h.2⟩
  rename_i hend
  split
  · exact fun hrc => absurd hrc (Int.not_le.mpr enomem_neg)
  split
  · rename_i e _
    exact fun hrc => absurd hrc (Int.not_le.mpr (errno_neg e))
  · refine ⟨h.2, ?_⟩
    intro t rep htell hrc
    cases rep with
    | enqueue _ _ _ => exact htell.elim
    | ack rc =>
      cases hrecv : io.recv with
      | some e =>
        simp only [clAckRetcode, hrecv] at hrc
        exact absurd hrc (Int.not_le.mpr (errno_neg e))
      | none =>
        simp only [clAckRetcode, hrecv, repSize, gt_iff_lt, Nat.lt_irrefl, ↓reduceIte] at hrc
        exact ⟨h.1, fun _ => htell hrc, fun hlt => absurd hlt hend⟩

/-- Where the application is tells what its cache and the reader agree on. -/
def Fits (s : ReaderEnv) (cid : ConnId) (c : PxClient) : Prop :=
  match c.app with
  | .starting | .stopped _ => True
  | .receiving | .freeing => Agree s cid c.pzd
  | .holding _ => Taken s cid c.pzd
  | .overran => False

theorem Agree.congr (hs : clientStateGet t cid = clientStateGet s cid) (h : Agree s cid pzd) :
    Agree t cid pzd where
  cached := h.cached
  idle hend := (h.idle hend).congr hs
  holds hlt := (h.holds hlt).imp fun _ hp => hp.congr hs

theorem Fits.congr (hs : clientStateGet t cid = clientStateGet s cid) (h : Fits s cid c) :
    Fits t cid c := by
  obtain ⟨pzd, app⟩ := c
  cases app with
  | starting | stopped _ => trivial
  | receiving | freeing => exact Agree.congr hs h
  | holding _ => exact ⟨h.1, h.2.imp fun _ hp => hp.congr hs⟩
  | overran => exact h.elim

theorem call_safe (h : Fits s args.cid c) (io : PxIo) :
    Safe args.cid s (Fits · args.cid) (fun c' => ∃ rc, c'.app = .stopped rc) (c.call args io) := by
  obtain ⟨pzd, app⟩ := c
  have hnext : ∀ {t : ReaderEnv} {pzd' : PxZmqData} {rc : Int} {next : AppState},
      (0 ≤ rc → Fits t args.cid ⟨pzd', next⟩) →
      Fits t args.cid ⟨pzd', if rc < 0 then .stopped rc else next⟩ := by
    intro t pzd' rc next hn
    split
    · trivial
    · exact hn (by omega)
  have hstop : ∀ {rc : Int} {next : AppState}, rc < 0 →
      ∃ rc', (if rc < 0 then AppState.stopped rc else next) = .stopped rc' :=
    fun hneg => ⟨_, if_pos hneg⟩
  cases app with
  | starting =>
    exact (start_safe args.flags args.mdtname args.startrec io).map
      (fun _ _ hr => hnext hr) (fun _ hneg => hstop hneg)
  | receiving =>
    apply (recv_safe args.recSize_pos h io).map
    · rintro t ⟨pzd', res⟩ hr
      cases res with
      | record _ => exact hr
      | code rc => exact hnext hr
      | overrun => exact hr
    · rintro ⟨pzd', res⟩ ⟨rc, rfl, hneg⟩
      exact hstop hneg
  | holding rec =>
    exact (clear_safe h args.mdtname args.id rec.crIndex io).map
      (fun _ _ hr => hnext hr) (fun _ hneg => hstop hneg)
  | freeing =>
    have hfree : Agree s args.cid (pxChangelogFree pzd) := by
      unfold pxChangelogFree
      split
      · exact ⟨⟨h.cached.next, h.cached.count⟩, h.idle, h.holds⟩
      · exact h
    exact hfree
  | stopped rc => trivial
  | overran => exact h.elim

/-! ## Both together -/

/-- No reply is left to receive. -/
def CaughtUp (cid : ConnId) (x : Session) : Prop :=
  (repliesTo cid x.env.trace).length = x.taken

/-- Client and reader are in step: between two calls, after the last one, or in a call
whose request is on its way or has been served. -/
inductive InStep (args : ClientArgs) (x : Session) : Prop
  | resting (hwait : x.waiting = none) (hwire : x.wire = none) (hread : CaughtUp args.cid x)
      (hfits : Fits x.env args.cid x.client)
  | stopped (hwait : x.waiting = none) (happ : x.client.app = .stopped rc)
      (hwire : ∀ px, x.wire = some px → Expects x.env args.cid px)
  | asking (hwait : x.waiting = some io) (hcall : x.client.call args io = .ask px resume)
      (hres : ∀ t rep, Tells t args.cid px rep → Fits t args.cid (resume rep))
      (hwire : x.wire = some px) (hread : CaughtUp args.cid x) (hexp : Expects x.env args.cid px)
  | served (hwait : x.waiting = some io) (hcall : x.client.call args io = .ask px resume)
      (hres : ∀ t rep, Tells t args.cid px rep → Fits t args.cid (resume rep))
      (hwire : x.wire = none)
      (hrep : CaughtUp args.cid x ∨ ∃ seen rep, seen.length = x.taken ∧
        repliesTo args.cid x.env.trace = seen ++ [rep] ∧ Tells x.env args.cid px rep)

theorem InStep.call (h : InStep args x) (hs : sessionStep args x (.call io) = some y) :
    InStep args y := by
  simp only [sessionStep] at hs
  split at hs
  · cases hs
  rename_i hidle
  cases h with
  | resting hwait hwire hread hfits =>
    have hsafe := call_safe hfits io
    split at hs
    · rename_i c hcall
      cases hs
      rw [hcall] at hsafe
      exact .resting hwait hwire hread hsafe
    · rename_i px c hcall
      cases hs
      rw [hcall] at hsafe
      obtain ⟨hexp, rc, happ⟩ := hsafe
      exact .stopped hwait happ (fun px' hw => by cases hw; exact hexp)
    · rename_i px resume hcall
      cases hs
      rw [hcall] at hsafe
      exact .asking rfl hcall hsafe.2 rfl hread hsafe.1
  | stopped hwait happ hwire =>
    have hcall : x.client.call args io = .ret x.client := by simp [PxClient.call, happ]
    rw [hcall] at hs
    cases hs
    exact .stopped hwait happ hwire
  | asking hwait _ _ _ _ _ | served hwait _ _ _ _ => simp [hwait] at hidle

theorem InStep.deliver (hr : Reach (reader cfg idx) Always x.env) (h : InStep args x)
    (hs : sessionStep args x (.deliver io) = some y) : InStep args y := by
  simp only [sessionStep] at hs
  split at hs
  · cases hs
  rename_i px hpx
  obtain ⟨t, ht, rfl⟩ := Option.map_eq_some_iff.mp hs
  cases h with
  | resting _ hwire _ _ | served _ _ _ hwire _ => simp [hwire] at hpx
  | stopped hwait happ hwire => exact .stopped hwait happ (by simp)
  | asking hwait hcall hres hwire hread hexp =>
    cases hwire.symm.trans hpx
    refine .served hwait hcall hres rfl ?_
    rcases request_repliable hr hexp ht with hsame | ⟨rep, hone, htell⟩
    · exact .inl ((congrArg List.length hsame).trans hread)
    · exact .inr ⟨_, rep, hread, hone, htell⟩

theorem InStep.receive (h : InStep args x) (hs : sessionStep args x .receive = some y) :
    InStep args y := by
  simp only [sessionStep] at hs
  split at hs
  case h_2 => cases hs
  rename_i io rep rest hio hpend
  cases h with
  | resting hwait _ _ _ | stopped hwait _ _ => simp [hwait] at hio
  | asking _ _ _ _ hread _ =>
    have hnone : x.pending args.cid = [] := List.drop_of_length_le (Nat.le_of_eq hread)
    simp [hnone] at hpend
  | served hwait hcall hres hwire hrep =>
    cases hwait.symm.trans hio
    rw [hcall] at hs
    cases hs
    rcases hrep with hread | ⟨seen, rep', hlen, hone, htell⟩
    · have hnone : x.pending args.cid = [] := List.drop_of_length_le (Nat.le_of_eq hread)
      simp [hnone] at hpend
    · have hlast : x.pending args.cid = [rep'] := by
        rw [Session.pending, hone, ← hlen, List.drop_left]
      cases hlast.symm.trans hpend
      refine .resting rfl hwire ?_ (hres _ _ htell)
      simp [CaughtUp, hone, hlen]

theorem InStep.other (hr : Reach (reader cfg idx) Always x.env) (h : InStep args x)
    (hs : sessionStep args x (.other l) = some y) : InStep args y := by
  simp only [sessionStep] at hs
  split at hs
  case isFalse => cases hs
  rename_i ho
  obtain ⟨t, ht, rfl⟩ := Option.map_eq_some_iff.mp hs
  have hu := Unseen.step (reach_shape hr) ho ht
  have hread' : CaughtUp args.cid x → CaughtUp args.cid { x with env := t } := fun hread =>
    (congrArg List.length hu.replies).trans hread
  cases h with
  | resting hwait hwire hread hfits =>
    exact .resting hwait hwire (hread' hread) (hfits.congr hu.seat)
  | stopped hwait happ hwire => exact .stopped hwait happ (fun px hw => (hwire px hw).congr hu.seat)
  | asking hwait hcall hres hwire hread hexp =>
    exact .asking hwait hcall hres hwire (hread' hread) (hexp.congr hu.seat)
  | served hwait hcall hres hwire hrep =>
    refine .served hwait hcall hres hwire ?_
    rcases hrep with hread | ⟨seen, rep, hlen, hone, htell⟩
    · exact .inl (hread' hread)
    · exact .inr ⟨seen, rep, hlen, hu.replies.trans hone, htell.congr hu.seat⟩

/-- The reader of a session runs by its own steps. -/
theorem reach_session_reader (h : Reach (session args cfg idx) C x) :
    Reach (reader cfg idx) Always x.env := by
  refine Steps.project Session.env h ?_
  intro x m y _ hs
  cases m with
  | call io =>
    simp only [session, sessionStep] at hs
    split at hs
    · cases hs
    split at hs <;> cases hs <;> exact .refl
  | deliver io =>
    simp only [session, sessionStep] at hs
    split at hs
    · cases hs
    · obtain ⟨t, ht, rfl⟩ := Option.map_eq_some_iff.mp hs
      have hstep : (reader cfg idx).step x.env (.request _ io) = some t := ht
      exact Steps.single trivial hstep
  | receive =>
    simp only [session, sessionStep] at hs
    split at hs
    · split at hs <;> cases hs
      exact .refl
    · cases hs
  | other l =>
    simp only [session, sessionStep] at hs
    split at hs
    · obtain ⟨t, ht, rfl⟩ := Option.map_eq_some_iff.mp hs
      exact Steps.single trivial ht
    · cases hs

theorem reach_in_step (h : Reach (session args cfg idx) C x) : InStep args x := by
  refine h.induct (Q := fun x => Reach (reader cfg idx) Always x.env)
    (fun _ hx => reach_session_reader hx) (.resting rfl rfl rfl trivial) ?_
  intro x m y hr hx _ hs
  cases m with
  | call io => exact hx.call hs
  | deliver io => exact hx.deliver hr hs
  | receive => exact hx.receive hs
  | other l => exact hx.other hr hs

/-- A request on the wire finds the reader as it has to be. -/
theorem InStep.expects (h : InStep args x) (hw : x.wire = some px) : Expects x.env args.cid px := by
  cases h with
  | resting _ hwire _ _ | served _ _ _ hwire _ => simp [hwire] at hw
  | stopped _ _ hwire => exact hwire px hw
  | asking _ _ _ hwire _ hexp =>
    cases hwire.symm.trans hw
    exact hexp

/-- A client that may dequeue is not refused: what fails is memory or the sending. -/
theorem dequeue_accepted (hshape : Shape s) (hop : req.WellFormed .dequeue)
    (hi : Idle s req.lrForward) (h : rpcDispatch s req io = .ok (t, rc)) (hrc : rc = -EPROTO) :
    sendRc io.send = -EPROTO := by
  cases dispatch_served hshape.nodup h with
  | refused _ hno => exact absurd (.inl ⟨hop, hi⟩) hno
  | eof _ _ _ | unopened _ _ _ _ _ | unpacked _ _ _ _ _ => exact absurd hrc (by decide)
  | delivered _ _ _ _ _ _ => exact hrc
  | registered hop' _ | deregistered hop' _ | vacuous hop' _ | pending hop' _ _ _
  | failed hop' _ _ _ _ _ | purged hop' _ _ _ _ _ _ => cases hop.unique hop'

namespace Sample

def client : ClientArgs where
  cid := [1]
  flags := 0
  mdtname := []
  startrec := 0
  id := []
  recSize := 64
  recSize_pos := by decide

/-- The client starts, and asks the reader for records once there is one. -/
def asking : List Move :=
  [.call {}, .deliver (calm 5), .receive, .other (read [record 1]), .call {}]

/-- It receives the record and has its CLEAR on the way. -/
def clearing : List Move := asking ++ [.deliver (calm 5), .receive, .call {}]

def sessionAfter (ms : List Move) : Session :=
  replay (session client cfg 0) (session client cfg 0).init ms

theorem reach_session_after (h : obeys (session client cfg 0) Always
      (session client cfg 0).init ms = true) :
    Reach (session client cfg 0) Always (sessionAfter ms) :=
  steps_of_obeys h

end Sample

end Lcap.Proofs
