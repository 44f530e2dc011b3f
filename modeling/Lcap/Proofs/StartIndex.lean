import Lcap.Proofs.Acknowledged
import Lcap.Proofs.Fleet

namespace Lcap.Proofs
open Reader Client Systems

/-- A bucket that leaves for a client has no record before the client's first one. -/
def FromStart (startrec : ConnId → Int) (s : ReaderEnv) : Label → Prop
  | .request req io => req.WellFormed .dequeue → Idle s req.lrForward → ∀ p ∈ offered s io,
    (some p = s.reCurrentOpen → io.bktAlloc = true) → io.rpcAlloc = true → io.send = none →
      ∀ r ∈ (s.mem p).lrbRecords, startrec req.lrForward ≤ r.crIndex
  | _ => True

instance (startrec : ConnId → Int) (s : ReaderEnv) :
    (l : Label) → Decidable (FromStart startrec s l)
  | .request req io => inferInstanceAs (Decidable (req.WellFormed .dequeue → Idle s req.lrForward →
      ∀ p ∈ offered s io, (some p = s.reCurrentOpen → io.bktAlloc = true) → io.rpcAlloc = true →
        io.send = none → ∀ r ∈ (s.mem p).lrbRecords, startrec req.lrForward ≤ r.crIndex))
  | .enqueue _ _ | .sigterm => .isTrue trivial

/-- The records of a message that has been sent. -/
def SentFrom (startrec : ConnId → Int) : Event → Prop
  | .sent dst _ (.enqueue _ _ recs) rc => rc = 0 → ∀ r ∈ recs, startrec dst ≤ r.crIndex
  | _ => True

section
variable {startrec : ConnId → Int} {s t : ReaderEnv}

/-- Every batch sent so far starts where its client wants to. -/
def AllFrom (startrec : ConnId → Int) (s : ReaderEnv) : Prop := ∀ e ∈ s.trace, SentFrom startrec e

theorem AllFrom.snoc (h : AllFrom startrec s) (ht : t.trace = s.trace ++ [e])
    (he : SentFrom startrec e) :
    AllFrom startrec t := by
  rw [AllFrom, ht]
  exact List.forall_mem_append.mpr ⟨h, List.forall_mem_singleton.mpr he⟩

theorem AllFrom.congr (h : AllFrom startrec s) (ht : t.trace = s.trace) : AllFrom startrec t :=
  fun e he => h e (ht ▸ he)

theorem AllFrom.openBucket (h : AllFrom startrec s) (b : Nat) : AllFrom startrec (openBucket s b) :=
  h.snoc rfl trivial

theorem AllFrom.acknowledge (h : AllFrom startrec s) (cid : ConnId) (p : Nat) :
    AllFrom startrec (acknowledgeBucket s cid p) :=
  h.snoc rfl trivial

theorem AllFrom.logAck (h : AllFrom startrec s) (cid : ConnId) (ret : Int) (out : Option Errno) :
    AllFrom startrec (logAck s cid ret out) :=
  h.snoc rfl trivial

theorem AllFrom.logClear (h : AllFrom startrec s) (endrec rc : Int) :
    AllFrom startrec (logClear s endrec rc) :=
  h.snoc rfl trivial

theorem AllFrom.destroy (h : AllFrom startrec s) (p : Nat) :
    AllFrom startrec (recBucketDestroy s p) :=
  h.snoc rfl trivial

theorem AllFrom.give (h : AllFrom startrec s) (hf : Fetch s io t b) (cid : ConnId) (p : Nat) :
    AllFrom startrec (assignBucket (sealOpen t p io) cid p) := by
  have ht : AllFrom startrec t := h.congr (fetch_frame hf).2.2.2.2.1
  have hseal : AllFrom startrec (sealOpen t p io) :=
    seal_open_preserve (fun ht => ht.openBucket _) ht p
  exact hseal.snoc rfl trivial

/-- What is sent of a bucket are records of the bucket that is offered. -/
theorem sealed_records (hf : Fetch s io t (some p))
    (hr : r ∈ ((sealOpen t p io).mem p).lrbRecords) : r ∈ (s.mem p).lrbRecords := by
  rw [seal_open_self] at hr
  split at hr
  · cases hr
  · rwa [((fetch_frame hf).2.2.2.2.2.records p).1] at hr

theorem AllFrom.served (h : AllFrom startrec s)
    (hc : FromStart startrec s (.request req io)) (hs : Served s req io t rc) :
    AllFrom startrec t := by
  cases hs with
  | refused _ _ | eof _ _ _ | vacuous _ _ => exact h
  | registered _ _ => exact AllFrom.logAck (s := registerClient s req) h _ _ _
  | deregistered _ _ => exact AllFrom.logAck (s := deregisterClient s req.lrForward) h _ _ _
  | unopened _ _ hf _ _ => exact h.congr (fetch_frame hf).2.2.2.2.1
  | unpacked _ _ hf _ _ => exact h.give hf _ _
  | @delivered u p hop hi hf hb ha _ =>
    refine (h.give hf req.lrForward p).snoc rfl fun hsent r hr => ?_
    have hsend : io.send = none := by
      cases hio : io.send with
      | none => rfl
      | some e =>
        rw [hio] at hsent
        exact absurd hsent (Int.ne_of_lt (errno_neg e))
    rw [(fetch_frame hf).2.2.2.1] at hb
    exact hc hop hi p (offered_of_fetch hf) hb ha hsend r (sealed_records hf hr)
  | pending _ _ _ _ => exact (h.acknowledge _ _).logAck _ _ _
  | failed _ _ _ _ _ _ => exact (h.acknowledge _ _).logClear _ _
  | purged _ _ _ _ _ _ _ => exact (((h.acknowledge _ _).logClear _ _).destroy _).logAck _ _ _

theorem reach_all_from (h : Reach (reader cfg idx) (FromStart startrec) s) :
    AllFrom startrec s := by
  apply filed_induct h
  · intro e he
    cases List.mem_singleton.mp he
    trivial
  · exact fun s b c d hs => hs
  · exact fun s p r hs _ _ _ => hs.snoc rfl trivial
  · exact fun s b _ hs _ _ _ => hs.openBucket b
  · exact fun s cid ret out hs => hs.logAck cid ret out
  · exact fun s req io t rc _ _ hs hc hst => hs.served hc hst

/-- A reply whose records are all from the bound on, such a cache, and the end of a
call that has kept and given no others. -/
def ReplyFrom (bound : Int) : Reply → Prop
  | .enqueue _ _ recs => ∀ r ∈ recs, bound ≤ r.crIndex
  | .ack _ => True

def CachedFrom (bound : Int) (pzd : PxZmqData) : Prop := ∀ r ∈ pzd.records, bound ≤ r.crIndex

structure DoneFrom (bound : Int) (d : Done) : Prop where
  cached : CachedFrom bound d.pzd
  given : ∀ r, d.res = some (.record r) → bound ≤ r.crIndex

theorem replies_from (h : AllFrom startrec s) (hrep : rep ∈ repliesTo cid s.trace) :
    ReplyFrom (startrec cid) rep := by
  obtain ⟨⟨dst, msg⟩, hm, hdst⟩ := List.mem_filterMap.mp hrep
  obtain ⟨e, he, hmsg⟩ := List.mem_filterMap.mp hm
  simp only at hdst
  split at hdst
  · rename_i hcid
    cases hdst
    subst hcid
    unfold messageOf at hmsg
    split at hmsg
    · split at hmsg
      · rename_i hrc
        cases hmsg
        have hsent := h _ he
        cases rep with
        | ack rc => trivial
        | enqueue n m recs => exact hsent hrc
      · cases hmsg
    · cases hmsg
  · cases hdst

end

section
variable {bound : Int} {pzd : PxZmqData}

theorem next_from (h : CachedFrom bound pzd) :
    DoneFrom bound { pzd := (nextRecord pzd).1, res := some (nextRecord pzd).2 } := by
  refine ⟨h, fun r hr => ?_⟩
  simp only [nextRecord] at hr
  split at hr
  · rename_i rec hget
    cases hr
    exact h r (List.mem_of_getElem? hget)
  · cases hr

theorem cache_from {recSize : Nat} {io : PxIo} {rep : Reply} (h : CachedFrom bound pzd)
    (hrep : ReplyFrom bound rep) : CachedFrom bound (cacheReply recSize pzd io rep).1 := by
  unfold cacheReply
  split
  · exact h
  split
  · exact h
  cases rep with
  | ack rc => exact h
  | enqueue n count recs =>
    simp only
    split
    · exact h
    split
    · split
      · exact hrep
      · exact fun r hr => nomatch hr
    · intro r hr
      rcases List.mem_append.mp hr with hr | hr
      · exact hrep r hr
      · exact h r (List.mem_of_mem_drop hr)

/-- Every end of a call, given a reply from the bound on, satisfies `P`. -/
def CallFrom (bound : Int) (P : α → Prop) : Call α → Prop
  | .ret a | .leave _ a => P a
  | .ask _ resume => ∀ rep, ReplyFrom bound rep → P (resume rep)

theorem done_without (h : CachedFrom bound d.pzd) (hres : d.res = none := by rfl) :
    DoneFrom bound d :=
  ⟨h, fun _ he => nomatch hres.symm.trans he⟩

def OutcomeFrom (bound : Int) : Outcome → Prop
  | .ret d | .leave _ d => DoneFrom bound d
  | .ask _ resume => ∀ rep, ReplyFrom bound rep → DoneFrom bound (resume rep)

theorem CallFrom.map {f : α → β} {P : β → Prop} {c : Call α}
    (h : CallFrom bound (fun a => P (f a)) c) :
    CallFrom bound P (c.map f) := by
  cases c <;> exact h

theorem CallFrom.outcome {f : α → Done} {c : Call α}
    (h : CallFrom bound (fun a => DoneFrom bound (f a)) c) :
    OutcomeFrom bound (c.outcome f) := by
  cases c <;> exact h

theorem CallFrom.mono {P Q : α → Prop} {c : Call α} (h : CallFrom bound P c)
    (hpq : ∀ a, P a → Q a) :
    CallFrom bound Q c := by
  cases c with
  | ret a | leave _ a => exact hpq a h
  | ask _ resume => exact fun rep hrep => hpq _ (h rep hrep)

theorem start_from (flags : Nat) (mdtname : List UInt8) (startrec : Int) (io : PxIo) :
    CallFrom bound (fun r => CachedFrom bound r.1)
      (pxChangelogStart flags mdtname startrec io) := by
  have hempty : CachedFrom bound {} := fun r hr => nomatch hr
  unfold pxChangelogStart
  split
  · exact hempty
  split
  · exact hempty
  · exact hempty
  · intro rep _
    split <;> exact hempty

theorem recv_from (h : CachedFrom bound pzd) (recSize : Nat) (io : PxIo) :
    CallFrom bound (fun r => DoneFrom bound { pzd := r.1, res := some r.2 })
      (pxChangelogRecv recSize pzd io) := by
  have hdequeue : CallFrom bound (fun r => CachedFrom bound r.1)
      (pxDequeueRecords recSize pzd io) := by
    unfold pxDequeueRecords
    split
    · exact h
    split
    · exact fun rep hrep => cache_from h hrep
    · exact h
  unfold pxChangelogRecv
  split
  · refine (hdequeue.mono ?_).map
    rintro ⟨pzd', rc⟩ hcached
    by_cases hrc : rc = 0
    · simp only [ne_eq, hrc, not_true_eq_false, if_false]
      exact next_from hcached
    · simp only [ne_eq, hrc, not_false_eq_true, if_true]
      exact ⟨hcached, fun r hr => nomatch hr⟩
  · exact next_from h

/-- Every call keeps to the bound, as long as the replies do. -/
theorem outcome_from {c : Peer} {call : ApiCall} (h : CachedFrom bound c.pzd)
    (ho : c.outcome recSize args io call = some o) :
    OutcomeFrom bound o := by
  have hsome : ∀ {p : Prop} [Decidable p] {a : Outcome}, (if p then none else some a) =
      some o → a = o :=
    fun h => Option.some.inj (Option.ite_none_left_eq_some.mp h).2
  have hsame : DoneFrom bound { pzd := c.pzd } := done_without h
  cases call with
  | start =>
    cases hsome ho
    exact ((start_from _ _ _ io).mono fun _ hr => done_without hr).outcome
  | recv =>
    cases hsome ho
    exact (recv_from h recSize io).outcome
  | free =>
    cases hsome ho
    refine done_without ?_
    unfold pxChangelogFree
    split <;> exact h
  | clear mdtname id endrec =>
    cases hsome ho
    apply CallFrom.outcome
    unfold pxChangelogClear
    split
    · exact hsame
    split
    · exact hsame
    split
    · exact hsame
    · exact fun _ _ => hsame
  | fini =>
    cases hsome ho
    unfold pxChangelogFini
    split
    · exact hsame
    · intro rep _
      dsimp only
      split
      · exact hsame
      · exact done_without fun _ hr => absurd hr List.not_mem_nil

end

/-! ## The clients -/

section
variable {recSize : Nat} {args : ConnId → StartArgs} {x y : Fleet}

/-- What the clients have cached and given to their applications so far. -/
structure FromStarts (args : ConnId → StartArgs) (x : Fleet) : Prop where
  cached : ∀ cid, CachedFrom (args cid).startrec (x.peers cid).pzd
  given : ∀ cid rec₁, .returned cid (.record rec₁) ∈ x.hist → (args cid).startrec ≤ rec₁.crIndex

theorem FromStarts.finish (h : FromStarts args x) (hd : DoneFrom (args cid).startrec d) (c : Peer) :
    FromStarts args (x.finish cid c d) := by
  refine ⟨fun cid' => ?_, fun cid' r hr => ?_⟩
  · by_cases he : cid' = cid
    · subst he
      simpa [Fleet.finish, Fleet.set] using hd.cached
    · have hother : ((x.finish cid c d).peers cid') = x.peers cid' := Function.update_of_ne he _ _
      rw [hother]
      exact h.cached cid'
  · rcases List.mem_append.mp hr with hr | hr
    · exact h.given cid' r hr
    · obtain ⟨res, hres, he⟩ := List.mem_map.mp hr
      cases he
      exact hd.given r (Option.mem_toList.mp hres)

theorem FromStarts.ended (h : FromStarts args x)
    (hall : AllFrom (fun cid => (args cid).startrec) x.env)
    (hend : EndsWith recSize args x cid d) : DoneFrom (args cid).startrec d := by
  cases hend with
  | ret ho => exact outcome_from (h.cached cid) ho
  | leave ho => exact outcome_from (h.cached cid) ho
  | replied ho hrep => exact outcome_from (h.cached cid) ho _ (replies_from hall hrep)
  | interrupted ho => exact outcome_from (h.cached cid) ho _ trivial

theorem FromStarts.moved (h : FromStarts args x)
    (hall : AllFrom (fun cid => (args cid).startrec) x.env) (hm : Moved recSize args x m y) :
    FromStarts args y := by
  cases hm with
  | reader _ _ hpeers hhist =>
    refine ⟨fun cid => ?_, fun cid r hr => ?_⟩
    · rw [hpeers cid]
      exact h.cached cid
    · rw [hhist] at hr
      rcases List.mem_append.mp hr with hr | hr
      · exact h.given cid r hr
      · obtain ⟨_, _, he⟩ := List.mem_map.mp hr
        cases he
  | ended _ hend hy =>
    subst hy
    exact h.finish (h.ended hall hend) _
  | asked _ hc hy =>
    subst hy
    refine ⟨fun cid => ?_, h.given⟩
    rw [set_pzd x hc]
    exact h.cached cid

/-- As long as no bucket leaves for a client that wants to start behind its first record,
every record that a client is given is from its start on. -/
theorem records_from_start
    (h : Reach (fleet recSize args cfg idx)
      (OnReader (FromStart fun cid => (args cid).startrec)) x) :
    ∀ cid rec₁, .returned cid (.record rec₁) ∈ x.hist → (args cid).startrec ≤ rec₁.crIndex := by
  have hfrom : FromStarts args x := by
    induction h with
    | refl =>
      refine ⟨fun _ r hr => (nomatch hr), fun _ _ hr => ?_⟩
      cases List.mem_singleton.mp hr
    | tail hr _ hs ih =>
      exact ih.moved (reach_all_from (reach_fleet_reader hr)) (fleet_step_moved hs)
  exact hfrom.given

end

namespace Sample

/-- All clients want to start at the same record. -/
def starting (startrec : Int) : ConnId → StartArgs := fun _ => { startrec := startrec }

/-- One client starts and receives the first record. -/
def firstReceived : List FleetMove :=
  [.call [1] .start {}, .deliver [1] (calm 5), .receive [1],
    .enqueue 0 [.recv (record 1) true none, .fail atEnd],
    .call [1] .recv {}, .deliver [1] (calm 5), .receive [1]]

def fleetAfter (startrec : Int) (ms : List FleetMove) : Fleet :=
  replay (fleet 64 (starting startrec) cfg 0) (fleet 64 (starting startrec) cfg 0).init ms

end Sample

set_option maxRecDepth 2000 in
theorem records_from_start_one :
    (Sample.starting 1 [1]).startrec ≤ (Sample.record 1).crIndex :=
  records_from_start (x := Sample.fleetAfter 1 Sample.firstReceived)
    (steps_of_obeys (by decide +kernel)) [1] (Sample.record 1) (by decide +kernel)

set_option maxRecDepth 2000 in
/-- A client that wants to start at the fifth record is given the first one. -/
theorem first_record_despite_start :
    ∃ x, Reach (fleet 64 (Sample.starting 5) Sample.cfg 0) Always x ∧
      ∃ cid rec₁, .returned cid (.record rec₁) ∈ x.hist ∧
        ¬ (Sample.starting 5 cid).startrec ≤ rec₁.crIndex :=
  ⟨Sample.fleetAfter 5 Sample.firstReceived, steps_of_obeys (by decide +kernel), [1],
    Sample.record 1, by decide +kernel, by decide⟩

end Lcap.Proofs
