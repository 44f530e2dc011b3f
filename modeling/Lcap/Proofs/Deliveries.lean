import Lcap.Proofs.Obtained

namespace Lcap.Proofs
open Reader Net Wire Network Systems
open Client (Fleet FleetMove FleetEvent fleet StartArgs repliesTo)

/-! ## The fleet -/

section
variable {recSize : Nat} {args : ConnId → StartArgs} {x : Fleet}

/-- Whatever happens, the records that an application has been given are in the order of
the batches that its client has been sent. -/
theorem given_in_sequence (h : Reach (fleet recSize args cfg idx) C x) (hpos : 0 < recSize)
    (cid : ConnId) :
    (recordsGiven (resultsOf cid x.hist)).Sublist (batches (repliesTo cid x.env.trace)) := by
  have hsub : (obtainedBy x cid).Sublist (batches (answersTo x cid)) := by
    refine obtains_induct (P := fun had answers => had.Sublist (batches answers)) h hpos
      (List.nil_sublist _) ?_
    intro x m y _ _ _ hob hsub
    cases hob with
    | nothing hhad hans =>
      rw [hhad, hans]
      exact hsub
    | @batch rep hhad hans =>
      have hone : batches [rep] = batchOf rep := List.append_nil _
      rw [hhad, hans, batches_append, hone]
      exact hsub.append (List.Sublist.refl _)
    | dropped _ _ _ _ hhad hans =>
      rw [hhad, hans, batches_append]
      exact hsub.trans (List.sublist_append_left _ _)
    | finished _ _ hhad hans =>
      -- what was left in the cache is lost with it
      rw [hhad, hans, batches_append]
      exact ((List.sublist_append_left _ _).trans hsub).trans (List.sublist_append_left _ _)
  rw [← List.take_append_drop (x.peers cid).taken (repliesTo cid x.env.trace), batches_append]
  exact ((List.sublist_append_left _ _).trans hsub).trans (List.sublist_append_left _ _)

end

/-! ## The network -/

def rawOf : Network.Given → Option (Option (List UInt8))
  | .record raw => some raw
  | .code _ => none

/-- What `lcap_changelog_recv` has returned to one application as records. -/
def rawsTo (cid : ConnId) (hist : List NetEvent) : List (Option (List UInt8)) :=
  (hist.filterMap (givenTo cid)).filterMap rawOf

section
variable {N : Site} {x : NetState} {f : Fleet} {i : Nat} {cid cid' : ConnId}

/-- The records given in the fleet are those whose bytes are given in the network. -/
theorem Matches.shown (h : Matches N i x f) (hc : OfReader N i cid) :
    List.Forall₂ (Shows N.layout) (rawsTo cid x.hist) (recordsGiven (resultsOf cid f.hist)) := by
  refine List.rel_filterMap (fun res res' hsame => ?_) (h.results hc)
  cases hsame with
  | record hshows => exact .some hshows
  | code => exact .none

end

/-- The number of a record in the changelog, read from its bytes. -/
def indexOf (L : RecLayout) (raw : Option (List UInt8)) : Option Nat :=
  raw.map fun bytes => L.crIndex (bytes.take L.sizeofRec)

/-- A reader's own calls work, and it looks at the clock before the deadline of any bucket
that it has delivered and still has. -/
def InTime (x : NetState) : NetMove → Prop
  | .serve i io => Timely (x.readers i) (.request ⟨[], []⟩ io)
  | _ => True

instance (x : NetState) : (m : NetMove) → Decidable (InTime x m)
  | .serve i io => inferInstanceAs (Decidable (Timely (x.readers i) (.request ⟨[], []⟩ io)))
  | .join _ | .call _ _ _ | .forward _ | .receive _ | .interrupt _ _ | .enqueue _ _ _ | .sigterm =>
    isTrue trivial

def Punctual (N : Site) (x : NetState) (m : NetMove) : Prop :=
  LawfulMove N x m ∧ InTime x m ∧ UnaliasedMove x m

instance (N : Site) (x : NetState) (m : NetMove) : Decidable (Punctual N x m) :=
  inferInstanceAs (Decidable (_ ∧ _ ∧ _))

section
variable {N : Site} {x : NetState} {f : Fleet} {i : Nat} {cid cid' : ConnId}

theorem timely_of_in_time (hm : Matches N i x f) (hc : InTime x m) (hf : Follows N i m fm) :
    OnReader Timely f fm := by
  intro l hl
  cases hf with
  | @serve cid io _ =>
    obtain ⟨req, _, rfl⟩ := Option.map_eq_some_iff.mp hl
    rw [hm.env]
    exact hc
  | call _ | receive _ | interrupt _ => cases hl
  | enqueue | sigterm =>
    cases hl
    trivial

theorem sent_increasing (h : Reach (reader cfg idx) Orderly s) : Increasing (sentRecords s.trace) :=
  (reach_filed h).sorted.sublist (sent_records_in_order h).sublist

/-- One message, as far as one client is concerned. -/
theorem batches_of_event (cid : ConnId) (e : Event) : batches (repliesTo cid [e]) = [] ∨
    batches (repliesTo cid [e]) = sentBatch e ∧ ∃ msg, messageOf e = some (cid, msg) := by
  cases hm : messageOf e with
  | none => exact .inl (by simp [repliesTo, messages, hm, batches])
  | some dm =>
    obtain ⟨dst, msg⟩ := dm
    by_cases hd : dst = cid
    · subst hd
      refine .inr ⟨?_, msg, rfl⟩
      have hbatch : batches (repliesTo dst [e]) = batchOf msg := by
        simp [repliesTo, messages, hm, batches]
      rw [hbatch]
      cases e with
      | sent d b m rc =>
        simp only [messageOf] at hm
        split at hm
        · cases hm
          cases msg with
          | enqueue _ _ _ => rfl
          | ack _ => rfl
        · cases hm
      | opened _ | stored _ _ | assigned _ _ | acknowledged _ _ | cleared _ _ _ _ | destroyed _ =>
        cases hm
    · exact .inl (by simp [repliesTo, messages, hm, hd, batches])

theorem batches_sublist (cid : ConnId) (tr : List Event) :
    (batches (repliesTo cid tr)).Sublist (sentRecords tr) := by
  induction tr with
  | nil => exact List.Sublist.refl _
  | cons e tr ih =>
    have hcons : repliesTo cid (e :: tr) = repliesTo cid [e] ++ repliesTo cid tr :=
      replies_to_append cid [e] tr
    have hsent : sentRecords (e :: tr) = sentBatch e ++ sentRecords tr := List.flatMap_cons
    rw [hcons, batches_append, hsent]
    rcases batches_of_event cid e with hnil | ⟨hbatch, _⟩
    · rw [hnil, List.nil_append]
      exact ih.trans (List.sublist_append_right _ _)
    · rw [hbatch]
      exact (List.Sublist.refl _).append ih

/-- The batches of two clients come from different messages. -/
theorem batches_apart (hne : cid ≠ cid') (tr : List Event) (h : Increasing (sentRecords tr))
    (hr : r ∈ batches (repliesTo cid tr)) (hr' : r' ∈ batches (repliesTo cid' tr)) :
    r.crIndex ≠ r'.crIndex := by
  induction tr with
  | nil => cases hr
  | cons e tr ih =>
    have hcons : ∀ cid, repliesTo cid (e :: tr) = repliesTo cid [e] ++ repliesTo cid tr :=
      fun cid => replies_to_append cid [e] tr
    have hsent : sentRecords (e :: tr) = sentBatch e ++ sentRecords tr := List.flatMap_cons
    rw [hsent] at h
    obtain ⟨_, htail, hlt⟩ := List.pairwise_append.mp h
    have hbefore : ∀ c a b, a ∈ batches (repliesTo c [e]) → b ∈ sentRecords tr →
        a.crIndex < b.crIndex := by
      intro c a b ha hb
      rcases batches_of_event c e with hnil | ⟨hbatch, _⟩
      · rw [hnil] at ha
        cases ha
      · rw [hbatch] at ha
        exact hlt a ha b hb
    rw [hcons, batches_append] at hr hr'
    rcases List.mem_append.mp hr with hr | hr
    · rcases List.mem_append.mp hr' with hr' | hr'
      · -- one message has one destination
        rcases batches_of_event cid e with hnil | ⟨_, msg, hm⟩
        · rw [hnil] at hr
          cases hr
        rcases batches_of_event cid' e with hnil | ⟨_, msg', hm'⟩
        · rw [hnil] at hr'
          cases hr'
        rw [hm] at hm'
        cases hm'
        exact absurd rfl hne
      · exact Nat.ne_of_lt (hbefore cid r r' hr ((batches_sublist cid' tr).subset hr'))
    · rcases List.mem_append.mp hr' with hr' | hr'
      · exact Nat.ne_of_gt (hbefore cid' r' r hr' ((batches_sublist cid tr).subset hr))
      · exact ih htail hr hr'

theorem indices_shown {L : RecLayout} (h : List.Forall₂ (Shows L) raws recs) :
    raws.filterMap (indexOf L) = recs.map ChangelogRec.crIndex := by
  induction h with
  | nil => rfl
  | @cons raw rec _ _ hshows _ ih =>
    obtain ⟨bytes, rfl, hdesc⟩ := hshows
    have hindex : indexOf L (some bytes) = some rec.crIndex := by
      rw [indexOf, Option.map_some, hdesc.index]
    rw [List.filterMap_cons_some hindex, List.map_cons, ih]

end

/-- As long as the readers' own calls work, no deadline is missed and no bucket lies in the
released block that `re_cleanup_next` is on, whatever becomes of the calls of clients: every
application is given records in the order of the changelog, none of them twice, and no
record is given to two applications. -/
theorem given_once {N : Site} {x : NetState} (h : Reach (network N) (Punctual N) x)
    (hi : i < N.config.ccfMdt.length) (hc : OfReader N i cid) :
    ((rawsTo cid x.hist).filterMap (indexOf N.layout)).Pairwise (· < ·) ∧
      ∀ cid', OfReader N i cid' → cid' ≠ cid → ∀ raw ∈ rawsTo cid x.hist,
        ∀ raw' ∈ rawsTo cid' x.hist, indexOf N.layout raw ≠ indexOf N.layout raw' := by
  obtain ⟨f, hf, _, _, hb⟩ := reach_beside (D := OnReader Orderly) h hi (fun _ _ hc => hc.1)
    fun _ _ _ _ hm hc hf l hl =>
      ⟨timely_of_in_time hm hc.2.1 hf l hl, unaliased_of_move hm hc.2.2 hf l hl⟩
  have hinc := sent_increasing (reach_fleet_reader hf)
  have hseq := given_in_sequence hf N.layout.sizeofRec_pos
  refine ⟨?_, fun cid' hc' hne raw hraw raw' hraw' heq => ?_⟩
  · rw [indices_shown (hb.toMatches.shown hc)]
    exact List.pairwise_map.mpr (hinc.sublist ((hseq cid).trans (batches_sublist cid _)))
  · obtain ⟨r, hr, bytes, rfl, hdesc⟩ := corresponding_mem (hb.toMatches.shown hc) hraw
    obtain ⟨r', hr', bytes', rfl, hdesc'⟩ := corresponding_mem (hb.toMatches.shown hc') hraw'
    refine batches_apart hne.symm _ hinc ((hseq cid).subset hr) ((hseq cid').subset hr') ?_
    rw [← hdesc.index, ← hdesc'.index]
    exact Option.some.inj heq

namespace Sample

/-- A call of a client that is served at once. -/
def served (io : RpcIo) (cid : ConnId) (call : Client.ApiCall) : List NetMove :=
  [.call cid call {}, .forward cid, .serve 0 io, .forward [109, 48], .receive cid]

/-- Two clients of one reader receive a batch each. -/
def shared : List NetMove :=
  [.join 0, .forward [109, 48],
    .enqueue 0 0 [.recv (record 1) true none, .recv (record 2) true none],
    .enqueue 0 0 [.recv (record 3) true none, .fail atEnd]] ++
  served (calm 5) [0, 0] .start ++ served (calm 5) [0, 0] .recv ++
  served (calm 5) [0, 0, 7] .start ++ served (calm 5) [0, 0, 7] .recv

def clearCall : Client.ApiCall := .clear [109, 48] [99] 1

/-- The open bucket comes to lie in the released block twice, and the second time one
client acknowledges it before it has a record. -/
def twice : List NetMove :=
  [.join 0, .forward [109, 48]] ++
  served (calm 7) [0, 0] .start ++ served (calm 7) [0, 0] .recv ++
    served (calm 8) [0, 0] clearCall ++
  served (calm 20) [0, 0] .recv ++
  [.enqueue 0 0 [.recv (record 1) true none, .recv (record 2) true none],
    .enqueue 0 0 [.recv (record 3) true (some 0), .recv (record 4) true none]] ++
  served (calm 21) [0, 0] clearCall ++ served (recycling 27) [0, 0] .recv ++
  served (calm 28) [0, 0] clearCall ++ [.enqueue 0 0 [.recv (record 5) true none, .fail atEnd]] ++
  served (calm 29) [0, 0] .recv ++ served (calm 30) [0, 0, 7] .start ++
  served (calm 31) [0, 0, 7] .recv

end Sample

set_option maxRecDepth 4000 in
theorem given_once_shared :
    indexOf Sample.layout (some (Sample.rawRecord 1)) ≠
      indexOf Sample.layout (some (Sample.rawRecord 3)) := by
  have hr : Reach (network Sample.site) (Punctual Sample.site) (Sample.netAfter Sample.shared) :=
    steps_of_obeys (by decide +kernel)
  have hc : OfReader Sample.site 0 [0, 0] := by decide
  have hboth := (given_once (i := 0) hr (by decide) hc).2 [0, 0, 7] (by decide) (by decide)
  exact hboth _ (by decide +kernel) _ (by decide +kernel)

set_option maxRecDepth 4000 in
/-- Nothing fails and no deadline is missed, and yet two applications are given one record:
it is stored in the released block, which each of their clients is sent. -/
theorem record_given_twice :
    ∃ x, Reach (network Sample.site) (fun x m => LawfulMove Sample.site x m ∧ InTime x m) x ∧
      rawsTo [0, 0] x.hist = [some (Sample.rawRecord 5)] ∧
      rawsTo [0, 0, 7] x.hist = [some (Sample.rawRecord 5)] := by
  refine ⟨Sample.netAfter Sample.twice, steps_of_obeys ?_, ?_, ?_⟩
  · decide +kernel
  · decide +kernel
  · decide +kernel

end Lcap.Proofs
