import Lcap.Proofs.Sealed
import Lcap.Proofs.StartIndex

namespace Lcap.Proofs
open Reader Client Systems

/-- The CLEAR whose serving made an event happen was for as much as this bucket holds. -/
def ClearedUpTo (cause : Option WireRequest) (covers : Int → Prop) : Prop :=
  ∃ mdtname id endrec, cause = some (.px (.clear mdtname id endrec)) ∧ covers endrec

/-- The bucket has been acknowledged, and never by a client that asked for less than the
bucket's last record. -/
def AckedInFull (pre : List FleetEvent) (p : Nat) : Prop :=
  (∃ cid cause, .reader (.acknowledged cid p) cause ∈ pre) ∧
    ∀ cid cause, .reader (.acknowledged cid p) cause ∈ pre → ClearedUpTo cause fun endrec =>
      ∀ r cause', .reader (.stored p r) cause' ∈ pre → (r.crIndex : Int) ≤ endrec

/-- `llapi_changelog_clear` covers only buckets that have been acknowledged in full. -/
def AckBound (pre : List FleetEvent) : FleetEvent → Prop
  | .reader (.cleared _ _ endrec _) _ => ∀ p r cause, .reader (.stored p r) cause ∈ pre →
    (r.crIndex : Int) ≤ endrec → AckedInFull pre p
  | _ => True

/-- A CLEAR of a client that holds a bucket is for the bucket's last record, or beyond. -/
def Covers (env : ReaderEnv) (cid : ConnId) : Option WireRequest → Prop
  | some (.px (.clear _ _ endrec)) => ∀ cs ∈ clientStateGet env cid, ∀ p ∈ cs.csBucket,
    ∀ r ∈ (env.mem p).lrbRecords, (r.crIndex : Int) ≤ endrec
  | _ => True

def ClearsInFull (x : Fleet) : FleetMove → Prop
  | .deliver cid _ => Covers x.env cid (x.peers cid).wire
  | _ => True

instance (env : ReaderEnv) (cid : ConnId) :
    (req : Option WireRequest) → Decidable (Covers env cid req)
  | some (.px (.clear _ _ endrec)) => inferInstanceAs (Decidable (∀ cs ∈ clientStateGet env cid,
      ∀ p ∈ cs.csBucket, ∀ r ∈ (env.mem p).lrbRecords, (r.crIndex : Int) ≤ endrec))
  | some (.px (.start _ _ _)) | some (.px .dequeue) | some .fini | none => .isTrue trivial

instance (x : Fleet) : (m : FleetMove) → Decidable (ClearsInFull x m)
  | .deliver _ _ => inferInstanceAs (Decidable (Covers _ _ _))
  | .call _ _ _ | .receive _ | .interrupt _ _ | .enqueue _ _ | .sigterm => .isTrue trivial

/-- An event that neither acknowledges nor clears. -/
def Plain : Event → Prop
  | .acknowledged _ _ | .cleared _ _ _ _ => False
  | _ => True

/-- What the history of a fleet says about the reader's buckets: a ready one has been
acknowledged, and each acknowledgement was for all that its bucket holds. -/
structure Bounded (s : ReaderEnv) (hist : List FleetEvent) : Prop where
  stored : ∀ p r cause, .reader (.stored p r) cause ∈ hist → .stored p r ∈ s.trace
  ready : ∀ p, (s.mem p).lrbReady = true → ∃ cid cause, .reader (.acknowledged cid p) cause ∈ hist
  acked : ∀ cid p cause, .reader (.acknowledged cid p) cause ∈ hist → p + 1 < s.reBktIdx ∧
    ClearedUpTo cause fun endrec => ∀ r ∈ (s.mem p).lrbRecords, (r.crIndex : Int) ≤ endrec
  justified : Justified AckBound hist

section
variable {s t : ReaderEnv} {hist : List FleetEvent} {cause : Option WireRequest}

theorem ClearedUpTo.mono {P Q : Int → Prop} (h : ClearedUpTo cause P) (hpq : ∀ n, P n → Q n) :
    ClearedUpTo cause Q := by
  obtain ⟨mdtname, id, endrec, hc, hp⟩ := h
  exact ⟨mdtname, id, endrec, hc, hpq endrec hp⟩

/-- What is in a history but its last event was there before. -/
theorem mem_of_snoc {e e' : FleetEvent} (hm : e' ∈ hist ++ [e]) (hne : e' ≠ e) : e' ∈ hist :=
  (List.mem_append.mp hm).resolve_right fun h => hne (List.mem_singleton.mp h)

/-- A reader that acknowledges nothing, and keeps its trace, may go on. -/
theorem Bounded.extend (h : Bounded s hist) (he : Extends s t) (ht : ∀ e ∈ s.trace, e ∈ t.trace)
    (hready : ∀ p, (t.mem p).lrbReady = true → (s.mem p).lrbReady = true) : Bounded t hist := by
  refine ⟨fun p r c hm => ht _ (h.stored p r c hm), fun p hr => h.ready p (hready p hr),
    ?_, h.justified⟩
  intro cid p c hm
  obtain ⟨hlt, hup⟩ := h.acked cid p c hm
  refine ⟨Nat.lt_of_lt_of_le hlt he.idx, hup.mono fun n hn => ?_⟩
  rw [(he.contents p hlt).1]
  exact hn

/-- A plain event of the reader's trace changes nothing. -/
theorem Bounded.plain (h : Bounded s hist) (hm : e ∈ s.trace) (hp : Plain e) :
    Bounded s (hist ++ [.reader e cause]) := by
  refine ⟨fun p r c hst => ?_, fun p hr => ?_, fun cid p c hack => ?_, h.justified.snoc ?_⟩
  · rcases List.mem_append.mp hst with hst | hst
    · exact h.stored p r c hst
    · cases List.mem_singleton.mp hst
      exact hm
  · obtain ⟨cid, c, hack⟩ := h.ready p hr
    exact ⟨cid, c, List.mem_append_left _ hack⟩
  · refine h.acked cid p c (mem_of_snoc hack fun heq => ?_)
    cases heq
    exact hp
  · cases e with
    | cleared _ _ _ _ => exact hp.elim
    | opened _ | stored _ _ | assigned _ _ | sent _ _ _ _ | acknowledged _ _ | destroyed _ =>
      trivial

theorem Bounded.acknowledge (hsettled : Settled s) (h : Bounded s hist) (hh : Holds s cid p)
    (hup : ClearedUpTo cause fun endrec => ∀ r ∈ (s.mem p).lrbRecords, (r.crIndex : Int) ≤ endrec) :
    Bounded (acknowledgeBucket s cid p)
      (hist ++ [.reader (.acknowledged cid (s.mem p).lrbIndex) cause]) := by
  rw [hsettled.index]
  have hquiet := Quiet.acknowledge s cid p
  refine ⟨fun q r c hm => ?_, fun q hr => ?_, fun cid' q c hm => ?_, h.justified.snoc trivial⟩
  · exact List.mem_append_left _ (h.stored q r c (mem_of_snoc hm nofun))
  · rcases acknowledge_ready hr with rfl | hr
    · exact ⟨cid, cause, List.mem_append_right _ List.mem_cons_self⟩
    · obtain ⟨cid', c, hm⟩ := h.ready q hr
      exact ⟨cid', c, List.mem_append_left _ hm⟩
  · rw [hquiet.idx, (hquiet.contents q).1]
    rcases List.mem_append.mp hm with hm | hm
    · exact h.acked cid' q c hm
    · cases List.mem_singleton.mp hm
      obtain ⟨cs, hg, hb⟩ := hh
      exact ⟨hsettled.closed cs (mem_of_get hg).1 p hb, hup⟩

/-- The head is the only bucket that a clear covers, and it is ready. -/
theorem Bounded.logClear (hsettled : Settled s) (h : Bounded s hist) (hfiled : Filed s)
    (hr : lrbReady s g 0 = true) (he : recBucketMaxIndex s 0 = .ok endrec) (rc : Int) :
    Bounded (logClear s endrec rc)
      (hist ++ [.reader (.cleared (readerDevice s) s.reCfg.ccfClreader endrec rc) cause]) := by
  refine ⟨fun p r c hm => ?_, fun p hp => ?_, fun cid p c hm => ?_, h.justified.snoc ?_⟩
  · exact List.mem_append_left _ (h.stored p r c (mem_of_snoc hm nofun))
  · obtain ⟨cid, c, hm⟩ := h.ready p hp
    exact ⟨cid, c, List.mem_append_left _ hm⟩
  · exact h.acked cid p c (mem_of_snoc hm nofun)
  · intro p r c hst hle
    obtain ⟨rfl, hlive⟩ := hfiled.covered_head hsettled he (h.stored p r c hst) hle
    rw [lrbReady, if_pos hlive] at hr
    refine ⟨h.ready 0 hr, fun cid c' hm => (h.acked cid 0 c' hm).2.mono fun n hn r' c'' hm' => ?_⟩
    apply hn
    rw [← hfiled.kept_at hsettled hsettled.pos]
    exact mem_stored_in.mpr (h.stored 0 r' c'' hm')

/-! ## What one step of the reader adds -/

/-- The reader has come from `s₀` to `s` while it served `cause`. -/
def Logged (cause : Option WireRequest) (hist : List FleetEvent) (s₀ s : ReaderEnv) : Prop :=
  ∃ post, s.trace = s₀.trace ++ post ∧ Bounded s (hist ++ post.map (.reader · cause))

theorem Logged.refl (h : Bounded s hist) : Logged cause hist s s :=
  ⟨[], (List.append_nil _).symm, by rwa [List.map_nil, List.append_nil]⟩

theorem Logged.snoc (h : Logged cause hist s₀ s) (ht : t.trace = s.trace ++ [e])
    (hb : ∀ hist, Bounded s hist → Bounded t (hist ++ [.reader e cause])) :
    Logged cause hist s₀ t := by
  obtain ⟨post, he, hbound⟩ := h
  refine ⟨post ++ [e], by rw [ht, he, List.append_assoc], ?_⟩
  rw [List.map_append, ← List.append_assoc]
  exact hb _ hbound

theorem Logged.plain (h : Logged cause hist s₀ s) (he : Extends s t) (ht : t.trace = s.trace ++ [e])
    (hp : Plain e) (hready : ∀ p, (t.mem p).lrbReady = true → (s.mem p).lrbReady = true) :
    Logged cause hist s₀ t := by
  refine h.snoc ht fun _ hb => Bounded.plain (hb.extend he ?_ hready) ?_ hp
  · exact fun _ hm => ht ▸ List.mem_append_left _ hm
  · exact ht ▸ List.mem_append_right _ List.mem_cons_self

theorem Logged.silent (h : Logged cause hist s₀ s) (he : Extends s t) (ht : t.trace = s.trace)
    (hready : ∀ p, (t.mem p).lrbReady = true → (s.mem p).lrbReady = true) :
    Logged cause hist s₀ t := by
  obtain ⟨post, htr, hb⟩ := h
  exact ⟨post, ht.trans htr, hb.extend he (fun _ hm => ht ▸ hm) hready⟩

theorem Logged.openBucket (h : Logged cause hist s₀ s) :
    Logged cause hist s₀ (openBucket s s.reBktIdx) :=
  h.plain (.openBucket rfl) rfl trivial fun _ hp => open_bucket_ready hp

theorem Logged.insert (hsettled : Settled s) (h : Logged cause hist s₀ s) (hp : p + 1 = s.reBktIdx)
    (hi : s.reSrec ≤ r.crIndex) : Logged cause hist s₀ (recCounted (recInsert s p r) r) :=
  h.plain (.insert hsettled hp hi) rfl trivial fun q hq => (insert_ready s p q r).symm.trans hq

theorem Logged.logAck (h : Logged cause hist s₀ s) (cid : ConnId) (ret : Int) (out : Option Errno) :
    Logged cause hist s₀ (logAck s cid ret out) :=
  h.plain (Quiet.logAck s cid ret out).extends rfl trivial fun _ hp => hp

theorem Logged.destroy (h : Logged cause hist s₀ s) (p : Nat) :
    Logged cause hist s₀ (recBucketDestroy s p) :=
  h.plain (Quiet.destroy s p).extends rfl trivial fun q hq => (destroy_ready s p q).symm.trans hq

theorem Logged.give (h : Logged cause hist s₀ s) (hn : CallocNew s io) (hf : Fetch s io t b)
    (cid : ConnId) (p : Nat) : Logged cause hist s₀ (assignBucket (sealOpen t p io) cid p) := by
  obtain ⟨_, _, _, _, ht, hm⟩ := fetch_frame hf
  have hfetch : Logged cause hist s₀ t := h.silent (Quiet.fetch hf).extends ht hm.ready
  have hseal : Logged cause hist s₀ (sealOpen t p io) :=
    seal_open_preserve_new (hn.fetch hf) (fun hu => hu.openBucket) hfetch p
  exact hseal.plain (Quiet.assign _ cid p).extends rfl trivial fun _ hp => hp

theorem Logged.served (hsettled : Settled s) (hfiled : Filed s) (h : Bounded s hist)
    (hn : CallocNew s io)
    (hup : ∀ p, req.WellFormed .clear → Holds s req.lrForward p → ClearedUpTo cause fun endrec =>
      ∀ r ∈ (s.mem p).lrbRecords, (r.crIndex : Int) ≤ endrec)
    (hs : Served s req io t rc) : Logged cause hist s t := by
  have hstart : Logged cause hist s s := .refl h
  have hack : ∀ {bkt}, req.WellFormed .clear → Holds s req.lrForward bkt →
      Logged cause hist s (acknowledgeBucket s req.lrForward bkt) := fun hop hh =>
    hstart.snoc rfl fun _ hb => hb.acknowledge hsettled hh (hup _ hop hh)
  have hclear : ∀ {bkt head endrec}, req.WellFormed .clear → Holds s req.lrForward bkt →
      s.reCleanupNext = some head →
      lrbReady (acknowledgeBucket s req.lrForward bkt) (io.garbage.afterAck s bkt) head = true →
      recBucketMaxIndex s head = .ok endrec →
      Logged cause hist s
        (Proofs.logClear (acknowledgeBucket s req.lrForward bkt) endrec (io.clearRc 0)) := by
    intro bkt head endrec hop hh hcn hr he
    rw [hsettled.cleanup] at hcn
    cases hcn
    rw [← max_index_acknowledge s req.lrForward bkt] at he
    exact (hack hop hh).snoc rfl fun _ hb =>
      hb.logClear (hsettled.acknowledge hh) (hfiled.quiet (.acknowledge s _ _)) hr he _
  cases hs with
  | refused _ _ | eof _ _ _ | vacuous _ _ => exact hstart
  | registered _ _ =>
    exact Logged.logAck (s := registerClient s req)
      (hstart.silent (Quiet.register s req).extends rfl fun _ hp => hp) _ _ _
  | deregistered _ _ =>
    exact Logged.logAck (s := deregisterClient s req.lrForward)
      (hstart.silent (Quiet.deregister s _).extends rfl fun _ hp => hp) _ _ _
  | unopened _ _ hf _ _ =>
    obtain ⟨_, _, _, _, ht, hm⟩ := fetch_frame hf
    exact hstart.silent (Quiet.fetch hf).extends ht hm.ready
  | unpacked _ _ hf _ _ => exact hstart.give hn hf _ _
  | @delivered u p _ _ hf _ _ _ =>
    exact (hstart.give hn hf req.lrForward p).plain (Quiet.send _ _ p io).extends rfl trivial
      fun q hq => (send_ready _ _ p q io).symm.trans hq
  | pending hop hh _ _ => exact (hack hop hh).logAck _ _ _
  | failed hop hh hcn hr he _ => exact hclear hop hh hcn hr he
  | purged hop hh hcn hr he _ _ => exact ((hclear hop hh hcn hr he).destroy _).logAck _ _ _

/-- One step of the reader, for the request that the fleet says is its cause. -/
theorem Logged.step (hsettled : Settled s) (hc : Unaliased s l) (hfiled : Filed s)
    (h : Bounded s hist)
    (hup : ∀ req io p, l = .request req io → req.WellFormed .clear → Holds s req.lrForward p →
      ClearedUpTo cause fun endrec => ∀ r ∈ (s.mem p).lrbRecords, (r.crIndex : Int) ≤ endrec)
    (hs : readerStep s l = some t) : Logged cause hist s t := by
  refine (step_settled (P := Logged cause hist s) hsettled hc ?_ ?_ ?_ hs (.refl h)).2
  · exact fun u b c d hlog => hlog.silent (Quiet.flags u b c d).extends rfl fun _ hp => hp
  · intro u r v hu hlog _ hi _ hst
    cases hst with
    | insert ho _ =>
      rw [hu.open_last] at ho
      cases ho
      exact hlog.insert hu (Nat.sub_add_cancel hu.pos) hi
    | spill _ _ => exact hlog.openBucket.insert hu.openBucket rfl hi
  · intro req io u rc hl hn hserved
    exact answered_preserve (fun w ret out hw => hw.logAck _ ret out)
      (.served hsettled hfiled h hn (fun p => hup req io p hl) hserved) rc

end

/-! ## The fleet -/

section
variable {recSize : Nat} {args : ConnId → StartArgs} {x y : Fleet}

/-- A request that the reader takes for a CLEAR is one. -/
theorem clear_of_well_formed {req : WireRequest} (h : (req.pack cid).WellFormed .clear) :
    ∃ mdtname id endrec, req = .px (.clear mdtname id endrec) := by
  cases req with
  | fini => cases h.unique (fini_well_formed cid)
  | px req =>
    cases req with
    | start flags mdtname startrec => cases h.unique (start_well_formed cid flags mdtname startrec)
    | dequeue => cases h.unique (dequeue_well_formed cid)
    | clear mdtname id endrec => exact ⟨mdtname, id, endrec, rfl⟩

theorem Bounded.returned (h : Bounded s hist) (cid : ConnId) (results : List RecvResult) :
    Bounded s (hist ++ results.map (.returned cid)) := by
  have hold : ∀ {e c}, .reader e c ∈ hist ++ results.map (.returned cid) → .reader e c ∈ hist := by
    intro e c hm
    rcases List.mem_append.mp hm with hm | hm
    · exact hm
    · obtain ⟨_, _, he⟩ := List.mem_map.mp hm
      cases he
  refine ⟨fun p r c hm => h.stored p r c (hold hm), fun p hp => ?_,
    fun cid' p c hm => h.acked cid' p c (hold hm), h.justified.append fun e he _ => ?_⟩
  · obtain ⟨cid', c, hm⟩ := h.ready p hp
    exact ⟨cid', c, List.mem_append_left _ hm⟩
  · obtain ⟨_, _, rfl⟩ := List.mem_map.mp he
    trivial

/-- What the reader serves as a CLEAR of a bucket's holder covers the bucket. -/
theorem covered_clear {io : RpcIo} (hc : ClearsInFull x m)
    (hl : readerLabel x m = some (.request req io))
    (hop : req.WellFormed .clear) (hh : Holds x.env req.lrForward p) :
    ClearedUpTo (cause x m) fun endrec => ∀ r ∈ (x.env.mem p).lrbRecords,
      (r.crIndex : Int) ≤ endrec := by
  cases m with
  | deliver cid io' =>
    obtain ⟨wire, hw, he⟩ := Option.map_eq_some_iff.mp hl
    cases he
    obtain ⟨mdtname, id, endrec, rfl⟩ := clear_of_well_formed hop
    refine ⟨mdtname, id, endrec, hw, ?_⟩
    obtain ⟨cs, hg, hb⟩ := hh
    simp only [ClearsInFull, hw, Covers] at hc
    exact hc cs hg p hb
  | enqueue startRc script => cases hl
  | sigterm => cases hl
  | call _ _ _ | receive _ | interrupt _ _ => cases hl

theorem Bounded.moved (hr : Reach (reader cfg idx) Unaliased x.env) (h : Bounded x.env x.hist)
    (hc : ClearsInFull x m) (hnew : OnReader Unaliased x m) (hm : Moved recSize args x m y) :
    Bounded y.env y.hist := by
  cases hm with
  | reader hl hs _ hhist =>
    obtain ⟨post, htr, hb⟩ := Logged.step (reach_settled hr fun _ _ hl => hl) (hnew _ hl)
      (reach_filed hr) h (fun req io p he => covered_clear hc (he ▸ hl)) hs
    rw [hhist, htr, List.drop_left]
    exact hb
  | ended _ _ hy =>
    subst hy
    exact h.returned _ _
  | asked _ _ hy =>
    subst hy
    exact h

end

namespace Sample

/-- The client that has received the first record clears up to the given one. -/
def clearedUpTo (endrec : Int) : Fleet :=
  fleetAfter 0 (firstReceived ++ [.call [1] (.clear [] [] endrec) {}, .deliver [1] (calm 5)])

end Sample

end Lcap.Proofs
