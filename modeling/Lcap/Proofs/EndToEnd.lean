import Lcap.Proofs.AtLeastOnce
import Lcap.Proofs.Relayed

namespace Lcap.Proofs
open Reader Net Wire Network Systems
open Client (Fleet FleetMove FleetEvent fleet RecvResult)

/-! ## What the reader clears has been acknowledged -/

/-- A bucket takes no records once it is acknowledged, and an upstream call goes up to a
stored record and covers the records of acknowledged buckets only. -/
def GrantedBy (pre : List Event) : Event → Prop
  | .stored p _ => ∀ cid, .acknowledged cid p ∉ pre
  | .cleared _ _ endrec _ =>
    (endrec < 0 ∨ ∃ r ∈ storedRecords pre, (r.crIndex : Int) = endrec) ∧
      ∀ p r, .stored p r ∈ pre → (r.crIndex : Int) ≤ endrec → ∃ cid, .acknowledged cid p ∈ pre
  | _ => True

structure Granting (s : ReaderEnv) : Prop where
  ready : ∀ p, (s.mem p).lrbReady = true → ∃ cid, .acknowledged cid p ∈ s.trace
  closed : ∀ cid p, .acknowledged cid p ∈ s.trace → p + 1 < s.reBktIdx
  granted : Justified GrantedBy s.trace

section
variable {s t : ReaderEnv}

/-- Nothing is logged. -/
theorem Granting.silent (h : Granting s) (ht : t.trace = s.trace) (hidx : s.reBktIdx ≤ t.reBktIdx)
    (hready : ∀ p, (t.mem p).lrbReady = true → (s.mem p).lrbReady = true) : Granting t := by
  refine ⟨fun p hp => ?_, fun cid p hm => ?_, ht ▸ h.granted⟩
  · rw [ht]
    exact h.ready p (hready p hp)
  · rw [ht] at hm
    exact Nat.lt_of_lt_of_le (h.closed cid p hm) hidx

/-- One more event, which is no acknowledgement. -/
theorem Granting.event (h : Granting s) (e : Event) (ht : t.trace = s.trace ++ [e])
    (hidx : s.reBktIdx ≤ t.reBktIdx)
    (hready : ∀ p, (t.mem p).lrbReady = true → (s.mem p).lrbReady = true)
    (he : ∀ cid p, .acknowledged cid p ≠ e)
    (hg : GrantedBy s.trace e) : Granting t := by
  refine ⟨fun p hp => ?_, fun cid p hm => ?_, ht ▸ h.granted.snoc hg⟩
  · obtain ⟨cid, hm⟩ := h.ready p (hready p hp)
    exact ⟨cid, ht ▸ List.mem_append_left _ hm⟩
  · rw [ht] at hm
    rcases List.mem_append.mp hm with hm | hm
    · exact Nat.lt_of_lt_of_le (h.closed cid p hm) hidx
    · exact absurd (List.mem_singleton.mp hm) (he cid p)

theorem Granting.openBucket (h : Granting s) : Granting (openBucket s s.reBktIdx) :=
  h.event (.opened s.reBktIdx) rfl (Nat.le_succ _) (fun _ hp => open_bucket_ready hp)
    (by simp) trivial

theorem Granting.insert (h : Granting s) (hp : (s.mem p).lrbIndex + 1 = s.reBktIdx) :
    Granting (recCounted (recInsert s p r) r) := by
  refine h.event (.stored (s.mem p).lrbIndex r) rfl le_rfl
    (fun q hq => (insert_ready s p q r).symm.trans hq) (by simp) ?_
  intro cid hm
  have := h.closed cid _ hm
  omega

theorem Granting.logAck (h : Granting s) (cid : ConnId) (ret : Int) (out : Option Errno) :
    Granting (logAck s cid ret out) :=
  h.event _ rfl le_rfl (fun _ hp => hp) (by simp) trivial

theorem Granting.destroy (h : Granting s) (p : Nat) : Granting (recBucketDestroy s p) :=
  h.event (.destroyed (s.mem p).lrbIndex) rfl le_rfl
    (fun q hq => (destroy_ready s p q).symm.trans hq) (by simp) trivial

theorem Granting.fetch (h : Granting s) (hf : Fetch s io t b) : Granting t := by
  obtain ⟨hi, _, _, _, ht, hm⟩ := fetch_frame hf
  exact h.silent ht hi.ge hm.ready

theorem Granting.give (h : Granting s) (hn : CallocNew s io) (cid : ConnId) (p : Nat) :
    Granting (assignBucket (sealOpen s p io) cid p) := by
  have hseal : Granting (sealOpen s p io) := seal_open_preserve_new hn (fun hs => hs.openBucket) h p
  exact hseal.event _ rfl le_rfl (fun _ hq => hq) (by simp) trivial

theorem Granting.send (h : Granting s) (cid : ConnId) (p : Nat) (io : RpcIo) :
    Granting (sendBucket s cid p io) :=
  h.event _ rfl le_rfl (fun q hq => (send_ready s cid p q io).symm.trans hq) (by simp) trivial

theorem Granting.acknowledge (hsettled : Settled s) (h : Granting s) (cid : ConnId)
    (hp : p + 1 < s.reBktIdx) : Granting (acknowledgeBucket s cid p) := by
  have hn := hsettled.index p
  refine ⟨fun q hq => ?_, fun c q hm => ?_, h.granted.snoc trivial⟩
  · rcases acknowledge_ready hq with rfl | hq
    · refine ⟨cid, List.mem_append_right _ ?_⟩
      rw [hn]
      exact List.mem_singleton_self _
    · obtain ⟨c, hm⟩ := h.ready q hq
      exact ⟨c, List.mem_append_left _ hm⟩
  · rcases List.mem_append.mp hm with hm | hm
    · exact h.closed c q hm
    · cases List.mem_singleton.mp hm
      rwa [hn]

theorem Granting.logClear (hsettled : Settled s) (h : Granting s) (hfiled : Filed s)
    (hr : lrbReady s g 0 = true)
    (he : recBucketMaxIndex s 0 = .ok endrec) (rc : Int) : Granting (logClear s endrec rc) := by
  refine h.event _ rfl le_rfl (fun _ hp => hp) (by simp) ⟨?_, fun p r hst hle => ?_⟩
  · rcases max_index_cases he with ⟨_, rfl⟩ | ⟨last, hlast, _, rfl⟩
    · exact .inl (by decide)
    · have hmem := List.mem_of_getLast? hlast
      rw [← hfiled.kept_at hsettled hsettled.pos] at hmem
      exact .inr ⟨last, mem_stored_records.mpr ⟨0, mem_stored_in.mp hmem⟩, rfl⟩
  · obtain ⟨rfl, hlive⟩ := hfiled.covered_head hsettled he hst hle
    rw [lrbReady, if_pos hlive] at hr
    exact h.ready 0 hr

theorem Granting.served (hsettled : Settled s) (hfiled : Filed s) (h : Granting s)
    (hn : CallocNew s io) (hs : Served s req io t rc) : Granting t := by
  have hack : ∀ {bkt}, Holds s req.lrForward bkt →
      Granting (acknowledgeBucket s req.lrForward bkt) := by
    rintro bkt ⟨cs, hg, hb⟩
    exact h.acknowledge hsettled _ (hsettled.closed cs (mem_of_get hg).1 bkt hb)
  have hclear : ∀ {bkt head endrec}, Holds s req.lrForward bkt → s.reCleanupNext = some head →
      lrbReady (acknowledgeBucket s req.lrForward bkt) (io.garbage.afterAck s bkt) head = true →
      recBucketMaxIndex s head = .ok endrec →
      Granting (Proofs.logClear (acknowledgeBucket s req.lrForward bkt) endrec (io.clearRc 0)) := by
    intro bkt head endrec hh hcn hr he
    rw [hsettled.cleanup] at hcn
    cases hcn
    rw [← max_index_acknowledge s req.lrForward bkt] at he
    exact (hack hh).logClear (hsettled.acknowledge hh) (hfiled.quiet (.acknowledge s _ _)) hr he _
  cases hs with
  | refused _ _ | eof _ _ _ | vacuous _ _ => exact h
  | registered _ _ =>
    have hreg : Granting (registerClient s req) := h.silent rfl le_rfl fun _ hp => hp
    exact hreg.logAck _ _ _
  | deregistered _ _ =>
    have hdereg : Granting (deregisterClient s req.lrForward) := h.silent rfl le_rfl fun _ hp => hp
    exact hdereg.logAck _ _ _
  | unopened _ _ hf _ _ => exact h.fetch hf
  | unpacked _ _ hf _ _ => exact (h.fetch hf).give (hn.fetch hf) _ _
  | delivered _ _ hf _ _ _ => exact ((h.fetch hf).give (hn.fetch hf) _ _).send _ _ io
  | pending _ hh _ _ => exact (hack hh).logAck _ _ _
  | failed _ hh hcn hr he _ => exact hclear hh hcn hr he
  | purged _ hh hcn hr he _ _ => exact ((hclear hh hcn hr he).destroy _).logAck _ _ _

theorem reach_granting (h : Reach (reader cfg idx) Unaliased s) : Granting s := by
  apply settled_filed_induct h fun _ _ hl => hl
  · refine ⟨fun p hp => ?_, fun cid p hm => ?_, Justified.nil.snoc trivial⟩
    · cases hp
    · simp [initialReader] at hm
  · exact fun s b c d hs => { hs with }
  · exact fun s p r hsettled hs hp _ _ => hs.insert (by rwa [hsettled.index])
  · exact fun s _ hs _ _ => hs.openBucket
  · exact fun s cid ret out hs => hs.logAck cid ret out
  · exact fun s req io t rc hsettled hfiled hs _ hn hst => hs.served hsettled hfiled hn hst

end

/-! ## What the reader clears has been given to applications -/

section
variable {N : Site} {x : NetState} {f : Fleet} {i : Nat} {cid : ConnId} {pre post : List FleetEvent}

/-- The events of the reader before one of its events. -/
theorem LoggedIn.split (h : LoggedIn f) (hs : f.hist = pre ++ .reader e rpc :: post) :
    f.env.trace = pre.filterMap readerEvent ++ e :: post.filterMap readerEvent := by
  rw [← h, hs, List.filterMap_append]
  rfl

theorem mem_reader_events (h : e ∈ pre.filterMap readerEvent) : ∃ rpc, .reader e rpc ∈ pre := by
  obtain ⟨fe, hm, he⟩ := List.mem_filterMap.mp h
  cases fe with
  | reader e' rpc =>
    cases he
    exact ⟨rpc, hm⟩
  | returned _ _ => cases he

theorem reader_event_mem (h : .reader e rpc ∈ pre) : e ∈ pre.filterMap readerEvent :=
  List.mem_filterMap.mpr ⟨_, h, rfl⟩

/-- What the applications and the allocator of the reader have to keep to. -/
def CarefulFleet (f : Fleet) (m : FleetMove) : Prop := ClearsReceived f m ∧ OnReader Unaliased f m

/-- When the reader clears a record, an application has been given it. -/
theorem fleet_cleared_given (h : Reach (fleet recSize args cfg idx) CarefulFleet f)
    (hs : f.hist = pre ++ .reader (.cleared dev cli endrec rc) rpc :: post)
    (hst : .reader (.stored p r) rpc₀ ∈ pre)
    (hle : (r.crIndex : Int) ≤ endrec) : ∃ cid, .returned cid (.record r) ∈ pre := by
  have hlog := reach_logged h
  have hgrant := (reach_granting (reach_fleet_reader (h.mono fun _ _ hc => hc.2))).granted
  obtain ⟨cid, hack⟩ := (hgrant _ _ _ (hlog.split hs)).2 p r (reader_event_mem hst) hle
  obtain ⟨rpc', hmem⟩ := mem_reader_events hack
  obtain ⟨a, b, rfl⟩ := List.append_of_mem hmem
  have hgiven := (reach_all_watched h).given a (.reader (.acknowledged cid p) rpc') (b ++ _) <| by
    rw [hs, List.append_assoc, List.cons_append]
  refine ⟨cid, List.mem_append_left _ (hgiven r rpc₀ ?_)⟩
  -- nothing is stored behind the acknowledgement
  refine (List.mem_append.mp hst).resolve_right fun hlate => ?_
  have hlate : .reader (.stored p r) rpc₀ ∈ b := (List.mem_cons.mp hlate).resolve_left (by simp)
  obtain ⟨b, c, rfl⟩ := List.append_of_mem hlate
  have hsplit : f.hist = (a ++ .reader (.acknowledged cid p) rpc' :: b) ++
      .reader (.stored p r) rpc₀ :: (c ++ .reader (.cleared dev cli endrec rc) rpc :: post) := by
    rw [hs]
    simp
  have hmem : .reader (.acknowledged cid p) rpc' ∈ a ++
      .reader (.acknowledged cid p) rpc' :: b := by simp
  have hbefore := reader_event_mem hmem
  exact hgrant _ _ _ (hlog.split hsplit) cid hbefore

/-- What `lcap_changelog_recv` has returned to an application, in a run of the network. -/
def givenTo (cid : ConnId) : NetEvent → Option Network.Given
  | .returned c res => if c = cid then some res else none
  | .reader _ _ => none

def isRecord : Network.Given → Bool
  | .record _ => true
  | .code _ => false

/-- An application clears only what it has just received. -/
def ClearsGiven (x : NetState) : NetMove → Prop
  | .call cid (.clear _ _ _) _ => (x.hist.filterMap (givenTo cid)).getLast?.any isRecord
  | _ => True

instance (x : NetState) : (m : NetMove) → Decidable (ClearsGiven x m)
  | .call _ (.clear _ _ _) _ => inferInstanceAs (Decidable (_ = true))
  | .call _ .start _ | .call _ .recv _ | .call _ .free _ | .call _ .fini _ => isTrue trivial
  | .join _ | .forward _ | .serve _ _ | .receive _ | .interrupt _ _ | .enqueue _ _ _ | .sigterm =>
    isTrue trivial

/-- No reader is given the released block that its `re_cleanup_next` is on. -/
def UnaliasedMove (x : NetState) : NetMove → Prop
  | .serve i io => Unaliased (x.readers i) (.request ⟨[], []⟩ io)
  | .enqueue i startRc script => Unaliased (x.readers i) (.enqueue startRc script)
  | _ => True

instance (x : NetState) : (m : NetMove) → Decidable (UnaliasedMove x m)
  | .serve i io => inferInstanceAs (Decidable (Unaliased (x.readers i) (.request ⟨[], []⟩ io)))
  | .enqueue i startRc script =>
    inferInstanceAs (Decidable (Unaliased (x.readers i) (.enqueue startRc script)))
  | .join _ | .call _ _ _ | .forward _ | .receive _ | .interrupt _ _ | .sigterm => isTrue trivial

/-- The condition on the runs of the network. -/
def Careful (N : Site) (x : NetState) (m : NetMove) : Prop :=
  LawfulMove N x m ∧ ClearsGiven x m ∧ UnaliasedMove x m

instance (N : Site) (x : NetState) (m : NetMove) : Decidable (Careful N x m) :=
  inferInstanceAs (Decidable (_ ∧ _ ∧ _))

/-- The result of the library and what it is on bytes. -/
inductive SameAnswer (L : RecLayout) : Network.Given → RecvResult → Prop
  | record (h : Shows L raw rec) : SameAnswer L (.record raw) (.record rec)
  | code : SameAnswer L (.code rc) (.code rc)

theorem same_answer (h : SameEvent N e fe) :
    Option.Rel (SameAnswer N.layout) (givenTo cid e) (resultOf cid fe) := by
  cases h with
  | reader => exact .none
  | @record _ _ c hshows =>
    by_cases hc : c = cid
    · simp only [givenTo, resultOf, if_pos hc]
      exact .some (.record hshows)
    · simp only [givenTo, resultOf, if_neg hc]
      exact .none
  | @code c _ =>
    by_cases hc : c = cid
    · simp only [givenTo, resultOf, if_pos hc]
      exact .some .code
    · simp only [givenTo, resultOf, if_neg hc]
      exact .none

/-- The clients of a reader have been given the same in the network and in its fleet. -/
theorem Matches.results (h : Matches N i x f) (hc : OfReader N i cid) :
    List.Forall₂ (SameAnswer N.layout) (x.hist.filterMap (givenTo cid)) (resultsOf cid f.hist) := by
  have hown : (x.hist.filter (concerns N i)).filterMap (givenTo cid) =
      x.hist.filterMap (givenTo cid) := by
    rw [List.filterMap_filter]
    refine List.filterMap_congr fun e _ => ?_
    cases e with
    | reader _ _ => split <;> rfl
    | returned c res =>
      by_cases he : c = cid
      · subst he
        simp [concerns, hc]
      · simp [givenTo, he]
  rw [← hown]
  exact List.rel_filterMap (fun _ _ h => same_answer h) h.hist

theorem clears_received (hm : Matches N i x f) (hc : ClearsGiven x m) (hf : Follows N i m fm) :
    ClearsReceived f fm := by
  cases hf with
  | @call cid call _ hof =>
    cases call with
    | clear mdtname id endrec =>
      have hlast : (x.hist.filterMap (givenTo cid)).getLast?.any isRecord = true := hc
      cases hres : (x.hist.filterMap (givenTo cid)).getLast? with
      | none =>
        rw [hres] at hlast
        cases hlast
      | some res =>
        rw [hres, Option.any_some] at hlast
        obtain ⟨res', hres', hsame⟩ := corresponding_last (hm.results hof) hres
        cases hsame with
        | record _ => exact ⟨_, hres'⟩
        | code => cases hlast
    | start | recv | free | fini => trivial
  | serve _ | receive _ | interrupt _ | enqueue | sigterm => trivial

theorem unaliased_of_move (hm : Matches N i x f) (hc : UnaliasedMove x m) (hf : Follows N i m fm) :
    OnReader Unaliased f fm := by
  intro l hl
  cases hf with
  | serve _ =>
    obtain ⟨req, _, rfl⟩ := Option.map_eq_some_iff.mp hl
    rw [hm.env]
    exact hc
  | enqueue =>
    cases hl
    rw [hm.env]
    exact hc
  | sigterm =>
    cases hl
    exact fun _ hb => nomatch hb
  | call _ | receive _ | interrupt _ => cases hl

/-- Only a client of the reader is given something in its fleet. -/
theorem given_of_returned {hist : List NetEvent}
    (h : List.Forall₂ (SameEvent N) (hist.filter (concerns N i)) pre)
    (hm : .returned cid (.record r) ∈ pre) :
    OfReader N i cid ∧ ∃ raw, .returned cid (.record (some raw)) ∈ hist ∧
      N.layout.Describes raw r := by
  obtain ⟨e, he, hsame⟩ := corresponding_mem h.flip hm
  obtain ⟨hmem, hconcerns⟩ := List.mem_filter.mp he
  cases hsame with
  | record hshows =>
    obtain ⟨raw, rfl, hdesc⟩ := hshows
    exact ⟨of_decide_eq_true hconcerns, raw, hmem, hdesc⟩

/-- The events of a reader in the history of the network are those of its own. -/
theorem traced (hb : Beside N i x m f) (hlog : LoggedIn f) (he : .reader i e ∈ x.hist) :
    e ∈ (x.readers i).trace := by
  obtain ⟨fe, hmem, hsame⟩ := corresponding_mem hb.hist
    (List.mem_filter.mpr ⟨he, by simp [concerns]⟩)
  cases hsame with
  | reader =>
    rw [← hb.env, ← hlog]
    exact List.mem_filterMap.mpr ⟨_, hmem, rfl⟩

/-- A reader clears up to a record that it has stored, and of those that it ever stores
nothing but what applications have been given. -/
theorem covered_given (h : Reach (network N) (Careful N) x) (hi : i < N.config.ccfMdt.length)
    {pre post : List NetEvent}
    (hs : x.hist = pre ++ .reader i (.cleared dev cli endrec rc) :: post) :
    (endrec < 0 ∨ ∃ r ∈ storedRecords (x.readers i).trace, (r.crIndex : Int) = endrec) ∧
      ∀ r ∈ storedRecords (x.readers i).trace, (r.crIndex : Int) ≤ endrec →
        ∃ cid raw, OfReader N i cid ∧ .returned cid (.record (some raw)) ∈ pre ∧
          N.layout.Describes raw r := by
  obtain ⟨f, hf, _, _, hb⟩ := reach_beside (D := CarefulFleet) h hi (fun _ _ hc => hc.1)
    fun _ _ _ _ hm hc hf => ⟨clears_received hm hc.2.1 hf, unaliased_of_move hm hc.2.2 hf⟩
  have hown : x.hist.filter (concerns N i) =
      pre.filter (concerns N i) ++ .reader i (.cleared dev cli endrec rc) ::
        post.filter (concerns N i) := by
    rw [hs, List.filter_append, List.filter_cons_of_pos (by simp [concerns])]
  have hhist := hb.hist
  rw [hown] at hhist
  obtain ⟨pre', e, post', hsplit, hpre, he⟩ := corresponding_split hhist
  cases he with
  | reader =>
    have htr := (reach_logged hf).split hsplit
    have hreader := reach_fleet_reader (hf.mono fun _ _ hc => hc.2)
    have hupto := ((reach_granting hreader).granted _ _ _ htr).1
    have hsorted := (reach_filed hreader).sorted
    rw [← hb.env]
    rw [htr, stored_records_append] at hsorted ⊢
    refine ⟨?_, fun r hr hle => ?_⟩
    · rcases hupto with hneg | ⟨last, hlast, heq⟩
      · exact .inl hneg
      · exact .inr ⟨last, List.mem_append_left _ hlast, heq⟩
    -- a record that is stored later has a greater number
    have hbefore : r ∈ storedRecords (pre'.filterMap readerEvent) := by
      refine (List.mem_append.mp hr).resolve_right fun hlate => ?_
      rcases hupto with hneg | ⟨last, hlast, rfl⟩
      · omega
      · have := (List.pairwise_append.mp hsorted).2.2 last hlast r hlate
        omega
    obtain ⟨p, hst⟩ := mem_stored_records.mp hbefore
    obtain ⟨rpc, hmem⟩ := mem_reader_events hst
    obtain ⟨cid, hgiven⟩ := fleet_cleared_given hf hsplit hmem hle
    obtain ⟨hof, raw, hret, hdesc⟩ := given_of_returned hpre hgiven
    exact ⟨cid, raw, hof, hret, hdesc⟩

end

namespace Sample

/-- The client clears the record that it has received. -/
def relayedClear : List NetMove :=
  relayedRecord ++ [.call [0, 0] (.clear [109, 48] [99] 1) {}, .forward [0, 0], .serve 0 (calm 6)]

end Sample

end Lcap.Proofs
