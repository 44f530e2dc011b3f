import Lcap.Proofs.Deliveries
import Lcap.Proofs.InTransit

namespace Lcap.Proofs
open Reader Net Wire Network Systems
open Client (Fleet FleetMove fleet fleetStep ApiCall PxZmqData PxIo StartArgs WireRequest repSize
  recvBufferLength repliesTo cacheReply IsOther)

/-! ## The reader -/

/-- The messages of a reader are packed and leave. -/
def SendsWork (_ : ReaderEnv) : Label → Prop
  | .request _ io => io.rpcAlloc = true ∧ io.send = none
  | .enqueue _ _ | .sigterm => True

/-- And no bucket lies in the released block that `re_cleanup_next` is on. -/
def Dispatches (s : ReaderEnv) (l : Label) : Prop := SendsWork s l ∧ Unaliased s l

/-- Every batch has left, and what is in use, acknowledged or released has been one. -/
structure HandedOut (s : ReaderEnv) : Prop where
  arrived : ∀ e ∈ s.trace, sentBatch e ≠ [] → (messageOf e).isSome = true
  held : ∀ cs ∈ s.rePeers, ∀ p, cs.csBucket = some p → Delivered s.trace p
  ready : ∀ p, (s.mem p).lrbReady = true → Delivered s.trace p
  gone : ∀ p, p < s.reBktIdx → p ∉ s.reBuckets → Delivered s.trace p

section
variable {s t : ReaderEnv} {req : LcapnetRequest} {io : RpcIo}

theorem HandedOut.frame (h : HandedOut s) (post : List Event) (ht : t.trace = s.trace ++ post)
    (hpost : ∀ e ∈ post, sentBatch e ≠ [] → (messageOf e).isSome = true)
    (hheld : ∀ cs ∈ t.rePeers, ∀ p, cs.csBucket = some p → cs ∈ s.rePeers ∨ Delivered t.trace p)
    (hready : ∀ p, (t.mem p).lrbReady = true → (s.mem p).lrbReady = true ∨ Delivered t.trace p)
    (hgone : ∀ p, p < t.reBktIdx → p ∉ t.reBuckets →
      p < s.reBktIdx ∧ p ∉ s.reBuckets ∨ Delivered t.trace p) : HandedOut t := by
  have hold : ∀ {p}, Delivered s.trace p → Delivered t.trace p := by
    intro p hp
    rw [ht]
    exact hp.append post
  refine ⟨fun e he => ?_, fun cs hcs p hp => ?_, fun p hp => ?_, fun p hlt hp => ?_⟩
  · rw [ht] at he
    rcases List.mem_append.mp he with he | he
    · exact h.arrived e he
    · exact hpost e he
  · rcases hheld cs hcs p hp with hcs | hd
    · exact hold (h.held cs hcs p hp)
    · exact hd
  · rcases hready p hp with hp | hd
    · exact hold (h.ready p hp)
    · exact hd
  · rcases hgone p hlt hp with ⟨hlt, hp⟩ | hd
    · exact hold (h.gone p hlt hp)
    · exact hd

theorem HandedOut.openBucket (h : HandedOut s) : HandedOut (openBucket s s.reBktIdx) := by
  refine h.frame [.opened s.reBktIdx] rfl (by simp [sentBatch]) (fun cs hcs _ _ => .inl hcs)
    (fun p hp => .inl (open_bucket_ready hp)) fun p hlt hp => .inl ?_
  have hlt : p < s.reBktIdx + 1 := hlt
  have hp : p ∉ s.reBuckets ++ [s.reBktIdx] := hp
  rw [List.mem_append, not_or, List.mem_singleton] at hp
  exact ⟨Nat.lt_of_le_of_ne (Nat.le_of_lt_succ hlt) hp.2, hp.1⟩

theorem HandedOut.insert (h : HandedOut s) (p : Nat) (r : ChangelogRec) :
    HandedOut (recCounted (recInsert s p r) r) := by
  refine h.frame [.stored (s.mem p).lrbIndex r] rfl (by simp [sentBatch])
    (fun cs hcs _ _ => .inl hcs) (fun q hq => .inl ?_) fun q hlt hq => .inl ⟨hlt, hq⟩
  rwa [insert_ready] at hq

theorem HandedOut.logAck (h : HandedOut s) (cid : ConnId) (ret : Int) (out : Option Errno) :
    HandedOut (logAck s cid ret out) :=
  h.frame [_] rfl (by simp [sentBatch]) (fun cs hcs _ _ => .inl hcs) (fun _ hp => .inl hp)
    fun _ hlt hp => .inl ⟨hlt, hp⟩

theorem HandedOut.fetch (h : HandedOut s) (hf : Fetch s io t b) : HandedOut t := by
  obtain ⟨hidx, hbkts, hpeers, _, ht, hm⟩ := fetch_frame hf
  refine h.frame [] (ht.trans (List.append_nil _).symm) (by simp)
    (fun cs hcs _ _ => .inl (hpeers ▸ hcs))
    (fun p hp => .inl (hm.ready p hp)) fun p hlt hp => .inl ?_
  rw [hidx] at hlt
  rw [hbkts] at hp
  exact ⟨hlt, hp⟩

/-- The bucket that is given to a client is sent to it. -/
theorem HandedOut.give (h : HandedOut s) (hidx : (s.mem p).lrbIndex = p) (cid : ConnId)
    (hsend : io.send = none) :
    HandedOut (sendBucket (assignBucket s cid p) cid p io) := by
  have ht : (sendBucket (assignBucket s cid p) cid p io).trace = s.trace ++
      [.assigned cid p, .sent cid (some p) (packEnqueue (s.mem p)) (sendRc io.send)] := by
    simp only [sendBucket, bucketSetExpiryTime, assignBucket, ReaderEnv.log, ReaderEnv.modify,
      hidx, List.append_assoc, List.cons_append, List.nil_append]
  have hnew : Delivered (sendBucket (assignBucket s cid p) cid p io).trace p := by
    refine ⟨.sent cid (some p) (packEnqueue (s.mem p)) (sendRc io.send), ?_, ?_⟩
    · rw [ht]
      simp
    · simp [sentFrom]
  refine h.frame _ ht ?_ (fun cs hcs q hq => ?_) (fun q hq => .inl ?_) fun q hlt hq =>
    .inl ⟨hlt, hq⟩
  · intro e he hne
    rcases List.mem_cons.mp he with rfl | he
    · exact absurd rfl hne
    · rw [List.mem_singleton.mp he, hsend]
      rfl
  · rcases mem_set_cs_bucket hcs with hcs | ⟨old, _, _, rfl⟩
    · exact .inl hcs
    · cases hq
      exact .inr hnew
  · rwa [send_ready] at hq

theorem HandedOut.acknowledge (h : HandedOut s) (hh : Holds s cid p) :
    HandedOut (acknowledgeBucket s cid p) := by
  obtain ⟨cs, hg, hb⟩ := hh
  have hp := h.held cs (mem_of_get hg).1 p hb
  refine h.frame [.acknowledged cid (s.mem p).lrbIndex] rfl (by simp [sentBatch])
    (fun cs hcs q hq => .inl (mem_release hcs hq)) (fun q hq => ?_) fun q hlt hq => .inl ⟨hlt, hq⟩
  rcases acknowledge_ready hq with rfl | hq
  · exact .inr (hp.append _)
  · exact .inl hq

theorem HandedOut.logClear (h : HandedOut s) (endrec rc : Int) : HandedOut (logClear s endrec rc) :=
  h.frame [_] rfl (by simp [sentBatch]) (fun cs hcs _ _ => .inl hcs) (fun _ hp => .inl hp)
    fun _ hlt hp => .inl ⟨hlt, hp⟩

/-- Only an acknowledged bucket is released. -/
theorem HandedOut.destroy (h : HandedOut s) (hr : (s.mem p).lrbReady = true) :
    HandedOut (recBucketDestroy s p) := by
  refine h.frame [.destroyed (s.mem p).lrbIndex] rfl (by simp [sentBatch])
    (fun cs hcs _ _ => .inl hcs) (fun q hq => .inl (destroy_ready s p q ▸ hq)) fun q hlt hq => ?_
  by_cases he : q = p
  · subst he
    exact .inr ((h.ready q hr).append _)
  · have hq : q ∉ s.reBuckets.erase p := hq
    rw [List.mem_erase_of_ne he] at hq
    exact .inl ⟨hlt, hq⟩

theorem HandedOut.served (hsettled : Settled s) (h : HandedOut s) (hn : CallocNew s io)
    (hc : SendsWork s (.request req io)) (hs : Served s req io t rc) : HandedOut t := by
  cases hs with
  | refused _ _ | eof _ _ _ | vacuous _ _ => exact h
  | registered _ _ =>
    have hreg : HandedOut (registerClient s req) :=
      h.frame [] (List.append_nil _).symm (by simp) (fun cs hcs p hp => .inl (mem_register hcs hp))
        (fun _ hp => .inl hp) fun _ hlt hp => .inl ⟨hlt, hp⟩
    exact hreg.logAck _ _ _
  | deregistered _ _ =>
    have hdereg : HandedOut (deregisterClient s req.lrForward) :=
      h.frame [] (List.append_nil _).symm (by simp)
        (fun cs hcs _ _ => .inl (List.mem_of_mem_eraseP hcs))
        (fun _ hp => .inl hp) fun _ hlt hp => .inl ⟨hlt, hp⟩
    exact hdereg.logAck _ _ _
  | unopened _ _ hf _ _ => exact h.fetch hf
  | unpacked _ _ _ _ ha => cases hc.1.symm.trans ha
  | @delivered u bkt _ _ hf _ _ _ =>
    have hnew := hn.fetch hf
    have hsealed := seal_open_preserve_new hnew (fun hs => HandedOut.openBucket hs) (h.fetch hf) bkt
    exact hsealed.give (((hsettled.fetch hf).1.sealOpen hnew bkt).index bkt) _ hc.2
  | pending _ hh _ _ => exact (h.acknowledge hh).logAck _ _ _
  | failed _ hh _ _ _ _ => exact (h.acknowledge hh).logClear _ _
  | @purged bkt head endrec _ hh _ hr _ _ hl =>
    have hl' : head ∈ (acknowledgeBucket s req.lrForward bkt).reBuckets := hl
    rw [lrbReady, if_pos hl'] at hr
    exact (((h.acknowledge hh).logClear _ _).destroy hr).logAck _ _ _

theorem reach_handed_out (h : Reach (reader cfg idx) Dispatches s) : HandedOut s := by
  apply settled_filed_induct (P := HandedOut) h fun _ _ hl => hl.2
  · refine ⟨by simp [initialReader, sentBatch], ?_, by simp [initialReader], fun p hlt hp => ?_⟩
    · intro cs hcs
      cases hcs
    · have hzero : p = 0 := Nat.lt_one_iff.mp hlt
      exact absurd (hzero ▸ List.mem_singleton_self 0) hp
  · exact fun s b c d hs => ⟨hs.arrived, hs.held, hs.ready, hs.gone⟩
  · exact fun s p r _ hs _ _ _ => hs.insert p r
  · exact fun s _ hs _ _ => hs.openBucket
  · exact fun s cid ret out hs => hs.logAck cid ret out
  · exact fun s req io t rc hsettled _ hs hc hn hst => hs.served hsettled hn hc.1 hst

/-- A record that is in no batch is in a bucket which has not been sent. -/
def InReader (s : ReaderEnv) (r : ChangelogRec) : Prop :=
  ∃ p ∈ s.reBuckets, ¬ Delivered s.trace (s.mem p).lrbIndex ∧ r ∈ (s.mem p).lrbRecords

theorem sent_or_in_reader (h : Reach (reader cfg idx) Dispatches s)
    (hr : r ∈ storedRecords s.trace) :
    (∃ e ∈ s.trace, r ∈ sentBatch e) ∨ InReader s r := by
  have hsettled := reach_settled h fun _ _ hl => hl.2
  have hf := reach_filed h
  obtain ⟨p, hp⟩ := mem_stored_records.mp hr
  have hin : r ∈ storedIn p s.trace := mem_stored_in.mpr hp
  have hlt : p < s.reBktIdx := by
    rw [← Nat.not_le]
    intro hle
    rw [hf.ahead p hle] at hin
    cases hin
  have hmem : r ∈ (s.mem p).lrbRecords := hf.kept_at hsettled hlt ▸ hin
  by_cases hd : Delivered s.trace p
  · obtain ⟨e, he, hfrom⟩ := hd
    refine .inl ⟨e, he, ?_⟩
    cases e with
    | sent dst bkt msg rc =>
      cases bkt with
      | none => cases hfrom
      | some q =>
        obtain rfl : q = p := by simpa [sentFrom] using hfrom
        rw [((reach_given h fun _ _ hl => hl.2).sent dst q msg rc he).2]
        exact hmem
    | opened _ | stored _ _ | assigned _ _ | acknowledged _ _ | cleared _ _ _ _ | destroyed _ =>
      cases hfrom
  · have hlive : p ∈ s.reBuckets := by_contra fun hgone =>
      hd ((reach_handed_out h).gone p hlt hgone)
    exact .inr ⟨p, hlive, (hsettled.index p).symm ▸ hd, hmem⟩

end

/-! ## The fleet -/

/-- Only these clients make calls. -/
def CalledBy (P : ConnId → Prop) : FleetMove → Prop
  | .call cid _ _ => P cid
  | .deliver _ _ | .receive _ | .interrupt _ _ | .enqueue _ _ | .sigterm => True

/-- What a client receives that waits for records, it can put into its cache, and one that
finishes has given what was there. -/
def Takes (recSize : Nat) (x : Fleet) : FleetMove → Prop
  | .receive cid =>
    (∀ io, (x.peers cid).waiting = some (.recv, io) → io.recv = none ∧ io.grow = true ∧
      ∀ rep ∈ unread x cid, repSize rep ≤ recvBufferLength ∧
        (batchOf rep ≠ [] → sizeofEnqueue + recSize ≤ repSize rep)) ∧
    ∀ io, (x.peers cid).waiting = some (.fini, io) →
      (x.peers cid).pzd.recNxt = (x.peers cid).pzd.recCnt
  | .call _ _ _ | .deliver _ _ | .interrupt _ _ | .enqueue _ _ | .sigterm => True

/-- A client that has done nothing. -/
structure Absent (x : Fleet) (cid : ConnId) : Prop where
  wire : (x.peers cid).wire = none
  waiting : (x.peers cid).waiting = none
  replies : repliesTo cid x.env.trace = []

section
variable {recSize : Nat} {args : ConnId → StartArgs} {x y : Fleet} {cid cid' : ConnId}
  {P : ConnId → Prop}

theorem Absent.elsewhere (h : Absent x cid) (he : Elsewhere x y cid) : Absent y cid := by
  refine ⟨?_, ?_, ?_⟩
  · rw [he.peer]
    exact h.wire
  · rw [he.peer]
    exact h.waiting
  · rw [he.env]
    exact h.replies

theorem Absent.unseen (h : Absent x cid) (hr : Reach (reader cfg idx) Always x.env)
    (ho : IsOther cid l)
    (hs : readerStep x.env l = some env) (henv : y.env = env) (hpeer : y.peers cid = x.peers cid) :
    Absent y cid := by
  refine ⟨?_, ?_, ?_⟩
  · rw [hpeer]
    exact h.wire
  · rw [hpeer]
    exact h.waiting
  · rw [henv, (Unseen.step (reach_shape hr) ho hs).replies]
    exact h.replies

theorem Absent.step (h : Absent x cid) (hr : Reach (reader cfg idx) Always x.env)
    (hc : CalledBy P m)
    (hne : ¬ P cid) (hs : fleetStep recSize args x m = some y) : Absent y cid := by
  have hreader : ∀ {l : Label}, IsOther cid l → (readerStep x.env l).map (x.advance none) = some y →
      Absent y cid := by
    intro l ho hl
    obtain ⟨env, henv, rfl⟩ := Option.map_eq_some_iff.mp hl
    exact h.unseen hr ho henv rfl rfl
  cases m with
  | call c call io =>
    have hother : c ≠ cid := fun he => hne (he ▸ hc)
    exact h.elsewhere (call_elsewhere rfl hother hs)
  | deliver c io =>
    by_cases he : c = cid
    · subst he
      simp only [fleetStep, h.wire] at hs
      cases hs
    · simp only [fleetStep] at hs
      split at hs
      · cases hs
      rename_i req _
      obtain ⟨env, henv, rfl⟩ := Option.map_eq_some_iff.mp hs
      have ho : IsOther cid (.request (req.pack c) io) := by
        simpa [IsOther, pack_forward] using he
      exact h.unseen hr ho henv rfl (Proofs.set_other he x _)
  | receive c =>
    by_cases he : c = cid
    · subst he
      simp only [fleetStep, h.waiting] at hs
      cases hs
    · exact h.elsewhere (call_elsewhere rfl he hs)
  | interrupt c e =>
    by_cases he : c = cid
    · subst he
      simp only [fleetStep, h.waiting] at hs
      cases hs
    · exact h.elsewhere (call_elsewhere rfl he hs)
  | enqueue startRc script => exact hreader (l := .enqueue startRc script) trivial hs
  | sigterm => exact hreader (l := .sigterm) trivial hs

/-- Only clients that make calls are answered. -/
theorem absent_of_silent (h : Reach (fleet recSize args cfg idx) (fun _ m => CalledBy P m) x)
    (hne : ¬ P cid) :
    Absent x cid :=
  h.induct (P := (Absent · cid)) (Q := fun x => Reach (reader cfg idx) Always x.env)
    (fun _ hx => reach_fleet_always hx) ⟨rfl, rfl, rfl⟩ fun _ _ _ hr hx hc hs =>
      hx.step hr hc hne hs

/-- A client drops no records that it can take. -/
theorem dropped_empty {pzd : PxZmqData} {io : PxIo} (hrecv : io.recv = none)
    (hgrow : io.grow = true)
    (hfits : repSize rep ≤ recvBufferLength)
    (hlong : batchOf rep ≠ [] → sizeofEnqueue + recSize ≤ repSize rep)
    (hcode : (cacheReply recSize pzd io rep).2 ≠ 0) : batchOf rep = [] := by
  by_contra hne
  refine hcode ?_
  cases rep with
  | ack _ => exact absurd rfl hne
  | enqueue size count recs =>
    have hlong : ¬ size < sizeofEnqueue + recSize := Nat.not_lt.mpr (hlong hne)
    have hfits : ¬ repSize (.enqueue size count recs) > recvBufferLength := Nat.not_lt.mpr hfits
    simp only [cacheReply, hrecv, if_neg hfits, if_neg hlong, hgrow, if_true]
    split <;> rfl

/-- What a client has had is all that it has received. -/
theorem obtained_all (h : Reach (fleet recSize args cfg idx) (Takes recSize) x) (hpos : 0 < recSize)
    (cid : ConnId) :
    obtainedBy x cid = batches (answersTo x cid) := by
  refine obtains_induct (P := fun had answers => had = batches answers) h hpos rfl ?_
  intro x m y _ _ hc hob heq
  have hone : ∀ rep, batches [rep] = batchOf rep := fun _ => List.append_nil _
  cases hob with
  | nothing hhad hans => rw [hhad, hans, heq]
  | batch hhad hans => rw [hhad, hans, heq, batches_append, hone]
  | dropped hm hwait hmem hcode hhad hans =>
    subst hm
    obtain ⟨hrecv, hgrow, hrep⟩ := hc.1 _ hwait
    obtain ⟨hfits, hlong⟩ := hrep _ hmem
    rw [hhad, hans, heq, batches_append, hone, dropped_empty hrecv hgrow hfits hlong hcode,
      List.append_nil]
  | finished hm hwait hhad hans =>
    subst hm
    have hall : obtainedBy x cid = recordsGiven (resultsOf cid x.hist) := by
      rw [obtainedBy, obtained, to_give_empty (hc.2 _ hwait).ge.not_gt, List.append_nil]
    rw [hhad, hans, batches_append, hone, batchOf, List.append_nil, ← heq, hall]

/-- What has been sent to a client it has had, or is going to receive. -/
theorem batches_obtained (h : Reach (fleet recSize args cfg idx) (Takes recSize) x)
    (hpos : 0 < recSize)
    (cid : ConnId) :
    batches (repliesTo cid x.env.trace) = obtainedBy x cid ++ batches (unread x cid) := by
  rw [obtained_all h hpos cid, ← batches_append, answersTo, unread, List.take_append_drop]

theorem replied_to {msg : Reply} (he : e ∈ tr) (hm : messageOf e = some (cid, msg)) :
    msg ∈ repliesTo cid tr := by
  refine List.mem_filterMap.mpr ⟨(cid, msg), List.mem_filterMap.mpr ⟨e, he, hm⟩, ?_⟩
  simp

/-- Every batch is for a client that makes calls. -/
theorem sent_to
    (h : Reach (fleet recSize args cfg idx) (fun x m => OnReader Dispatches x m ∧ CalledBy P m) x)
    (he : e ∈ x.env.trace) (hne : sentBatch e ≠ []) :
    ∃ cid msg, messageOf e = some (cid, msg) ∧ P cid ∧ sentBatch e = batchOf msg := by
  have hout := reach_handed_out (reach_fleet_reader (h.mono fun _ _ hc => hc.1))
  obtain ⟨⟨cid, msg⟩, hm⟩ := Option.isSome_iff_exists.mp (hout.arrived e he hne)
  refine ⟨cid, msg, hm, ?_, ?_⟩
  · by_contra hp
    have habsent := absent_of_silent (h.mono fun _ _ hc => hc.2) hp
    have hmem := replied_to he hm
    rw [habsent.replies] at hmem
    cases hmem
  · cases e with
    | sent dst bkt m rc =>
      simp only [messageOf] at hm
      split at hm
      · cases hm
        cases msg with
        | ack _ => rfl
        | enqueue _ _ _ => rfl
      · cases hm
    | opened _ | stored _ _ | assigned _ _ | acknowledged _ _ | cleared _ _ _ _ | destroyed _ =>
      exact absurd rfl hne

/-- Every stored record is in a bucket that has not been sent, or some client has had it,
or is going to receive it. -/
theorem stored_somewhere (h : Reach (fleet recSize args cfg idx)
      (fun x m => OnReader Dispatches x m ∧ CalledBy P m ∧ Takes recSize x m) x)
      (hpos : 0 < recSize)
    (hr : r ∈ storedRecords x.env.trace) :
    InReader x.env r ∨ ∃ cid, P cid ∧ (r ∈ obtainedBy x cid ∨ r ∈ batches (unread x cid)) := by
  have hreader := reach_fleet_reader (h.mono fun _ _ hc => hc.1)
  rcases sent_or_in_reader hreader hr with ⟨e, he, hre⟩ | hin
  · have hne : sentBatch e ≠ [] := List.ne_nil_of_mem hre
    obtain ⟨cid, msg, hm, hp, hb⟩ := sent_to (h.mono fun _ _ hc => ⟨hc.1, hc.2.1⟩) he hne
    refine .inr ⟨cid, hp, ?_⟩
    have hbatch : r ∈ batches (repliesTo cid x.env.trace) :=
      List.mem_flatMap.mpr ⟨msg, replied_to he hm, hb ▸ hre⟩
    rw [batches_obtained (h.mono fun _ _ hc => hc.2.2) hpos] at hbatch
    exact List.mem_append.mp hbatch
  · exact .inl hin

/-- Where all batches are for one client, they are its batches. -/
theorem batches_of_one (tr : List Event) (h : ∀ e ∈ tr, sentBatch e ≠ [] →
      ∃ msg, messageOf e = some (cid, msg) ∧ sentBatch e = batchOf msg) :
    batches (repliesTo cid tr) = sentRecords tr := by
  induction tr with
  | nil => rfl
  | cons e tr ih =>
    have hcons : repliesTo cid (e :: tr) = repliesTo cid [e] ++ repliesTo cid tr :=
      replies_to_append cid [e] tr
    have hsent : sentRecords (e :: tr) = sentBatch e ++ sentRecords tr := List.flatMap_cons
    rw [hcons, batches_append, hsent, ih fun e' he' => h e' (List.mem_cons_of_mem e he')]
    congr 1
    rcases batches_of_event cid e with hnil | ⟨hbatch, _⟩
    · by_contra hne
      have hsome : sentBatch e ≠ [] := fun hb => hne (hnil.trans hb.symm)
      obtain ⟨msg, hm, hb⟩ := h e List.mem_cons_self hsome
      refine hne ?_
      have hone : batches (repliesTo cid [e]) = batchOf msg := by
        simp [repliesTo, messages, hm, batches]
      rw [hone, hb]
    · exact hbatch

end

/-! ## The network -/

/-- The messages of the readers leave, the clients have room for those that they receive,
and none finishes with records in its cache. -/
def Keeps (x : NetState) : NetMove → Prop
  | .serve _ io => io.rpcAlloc = true ∧ io.send = none
  | .receive cid =>
    (∀ w ∈ (x.clients cid).waiting, w.2.grow = true ∧
      (w.1 = .fini → (x.clients cid).cache.recNxt = (x.clients cid).cache.recCnt)) ∧
    ∀ message ∈ (x.down cid).head?, message.flatten.length ≤ recvBufferLength
  | .join _ | .call _ _ _ | .forward _ | .interrupt _ _ | .enqueue _ _ _ | .sigterm => True

instance (x : NetState) : (m : NetMove) → Decidable (Keeps x m)
  | .serve _ io => inferInstanceAs (Decidable (io.rpcAlloc = true ∧ io.send = none))
  | .receive cid => inferInstanceAs (Decidable ((∀ w ∈ (x.clients cid).waiting, w.2.grow = true ∧
      (w.1 = .fini → (x.clients cid).cache.recNxt = (x.clients cid).cache.recCnt)) ∧
      ∀ message ∈ (x.down cid).head?, message.flatten.length ≤ recvBufferLength))
  | .join _ | .call _ _ _ | .forward _ | .interrupt _ _ | .enqueue _ _ _ | .sigterm =>
    isTrue trivial

def Keeping (N : Site) (x : NetState) (m : NetMove) : Prop :=
  LawfulMove N x m ∧ Keeps x m ∧ UnaliasedMove x m

instance (N : Site) (x : NetState) (m : NetMove) : Decidable (Keeping N x m) :=
  inferInstanceAs (Decidable (_ ∧ _ ∧ _))

/-- The record is in a message that is on its way to the client. -/
def OnTheWay (N : Site) (x : NetState) (i : Nat) (cid : ConnId) (r : ChangelogRec) : Prop :=
  ∃ frames ∈ (x.up (N.device i)).filter (sentTo cid) ++ x.down cid, ∃ raws raw,
    frames.getLast? = some (packRecords raws) ∧ raw ∈ raws ∧ N.layout.Describes raw r

/-- The client has the record and has still to give it. -/
def InCache (N : Site) (x : NetState) (cid : ConnId) (r : ChangelogRec) : Prop :=
  ∃ raw ∈ remaining N.layout (x.clients cid).cache, Shows N.layout raw r

def GivenTo (N : Site) (x : NetState) (cid : ConnId) (r : ChangelogRec) : Prop :=
  ∃ raw ∈ rawsTo cid x.hist, Shows N.layout raw r

section
variable {N : Site} {x y : NetState} {m : Mail} {f : Fleet} {i : Nat} {cid : ConnId} {l : NetMove}
  {fm : FleetMove}

/-- A message is as long as its bytes, and a batch has a record to begin with. -/
theorem renders_size {L : RecLayout} (h : Renders L rep bytes) :
    repSize rep = bytes.length ∧
      (batchOf rep ≠ [] → sizeofEnqueue + L.sizeofRec ≤ repSize rep) := by
  cases h with
  | @ack rc _ => exact ⟨(pack_ack_fields rc).2.1.symm, absurd rfl⟩
  | @enqueue raws recs hrecs =>
    refine ⟨rfl, fun hne => ?_⟩
    cases hrecs with
    | nil => exact absurd rfl hne
    | @cons raw rec raws recs hdesc _ =>
      have hge := L.size_ge (raw.take L.sizeofRec)
      rw [hdesc.size] at hge
      rw [repSize, pack_records_length, List.flatten_cons, List.length_append, hdesc.length]
      omega

theorem takes_of_keeps (h : Mailed N x m) (hb : Beside N i x m f) (htok : ∀ cid, Tokened f cid)
    (hk : Keeps x l) (hs : netStep N x l = some y) (hf : Follows N i l fm) :
    Takes N.layout.sizeofRec f fm := by
  cases hf with
  | call _ | serve _ | interrupt _ | enqueue | sigterm => trivial
  | @receive cid hc =>
    simp only [netStep] at hs
    split at hs
    case h_2 => cases hs
    rename_i call io message rest hw hdown
    obtain ⟨rep, bytes, letters, hm, rfl, hrep, _⟩ := h.reply hc.1 hdown
    obtain ⟨hunread, _⟩ := only_reply hb (htok cid) hc hm
    obtain ⟨hclient, hfits⟩ := hk
    have hpeer := hb.peer cid hc
    have hsame := same_waiting hpeer hw
    refine ⟨fun io' hwait => ?_, fun io' hwait => ?_⟩
    · obtain ⟨rfl, rfl⟩ := Prod.mk.inj (Option.some.inj (hsame.symm.trans hwait))
      refine ⟨rfl, (hclient _ hw).1, fun rep' hmem => ?_⟩
      rw [hunread] at hmem
      obtain rfl := List.mem_singleton.mp hmem
      obtain ⟨hsize, hlong⟩ := renders_size hrep
      refine ⟨?_, hlong⟩
      rw [hdown] at hfits
      have hlen := hfits _ rfl
      simp only [List.flatten_cons, List.nil_append, List.flatten_nil, List.append_nil] at hlen
      rw [hsize]
      exact hlen
    · obtain ⟨rfl, rfl⟩ := Prod.mk.inj (Option.some.inj (hsame.symm.trans hwait))
      rw [← hpeer.cache.nxt, ← hpeer.cache.cnt]
      exact (hclient _ hw).2 rfl

theorem sends_of_keeps (hk : Keeps x l) (hf : Follows N i l fm) : OnReader SendsWork f fm := by
  intro lbl hl
  cases hf with
  | serve _ =>
    obtain ⟨req, _, rfl⟩ := Option.map_eq_some_iff.mp hl
    exact hk
  | call _ | receive _ | interrupt _ => cases hl
  | enqueue | sigterm =>
    cases hl
    trivial

theorem dispatches (hm : Matches N i x f) (hk : Keeps x l) (hu : UnaliasedMove x l)
    (hf : Follows N i l fm) :
    OnReader Dispatches f fm := fun lbl hl =>
  ⟨sends_of_keeps hk hf lbl hl, unaliased_of_move hm hu hf lbl hl⟩

/-- What a client has still to receive is in the messages on its connections. -/
theorem on_the_way (h : Mailed N x m) (hb : Beside N i x m f) (hc : OfReader N i cid)
    (hr : r ∈ batches (unread f cid)) : OnTheWay N x i cid r := by
  obtain ⟨rep, hrep, hr⟩ := List.mem_flatMap.mp hr
  have hbytes : ∀ {bytes}, Renders N.layout rep bytes → ∃ raws raw,
      bytes = packRecords raws ∧ raw ∈ raws ∧ N.layout.Describes raw r := by
    rintro _ (_ | @⟨raws, recs, hrecs⟩)
    · cases hr
    · obtain ⟨raw, hraw, hdesc⟩ := corresponding_mem hrecs.flip hr
      exact ⟨raws, raw, rfl, hraw, hdesc⟩
  have hletter : ∀ {letters : List Letter}, rep ∈ letters.filterMap (Letter.replyOf cid) →
      .reply cid rep ∈ letters := by
    intro letters hmem
    obtain ⟨letter, hl, hof⟩ := List.mem_filterMap.mp hmem
    cases letter with
    | request _ _ | notice => cases hof
    | reply c rep' =>
      simp only [Letter.replyOf] at hof
      split at hof
      · rename_i he
        cases hof
        exact he ▸ hl
      · cases hof
  rcases List.mem_append.mp ((hb.answered cid hc).mem_iff.mpr hrep) with hup | hdown
  · obtain ⟨frames, hfr, hto⟩ := corresponding_mem (h.up (N.device i)) (hletter hup)
    generalize hd : N.device i = who at hto hfr
    cases hto with
    | reply _ _ hren =>
      rw [← hd] at hfr
      obtain ⟨raws, raw, rfl, hraw, hdesc⟩ := hbytes hren
      refine ⟨[cid, [], packRecords raws], List.mem_append_left _ (List.mem_filter.mpr ⟨hfr, ?_⟩),
        raws, raw, rfl, hraw, hdesc⟩
      simp [sentTo]
  · obtain ⟨frames, hfr, hto⟩ := corresponding_mem (h.down cid) (hletter hdown)
    cases hto with
    | reply _ hren =>
      obtain ⟨raws, raw, rfl, hraw, hdesc⟩ := hbytes hren
      exact ⟨[[], packRecords raws], List.mem_append_right _ hfr, raws, raw, rfl, hraw, hdesc⟩

theorem had_by_client (hb : Beside N i x m f) (hc : OfReader N i cid) (hr : r ∈ obtainedBy f cid) :
    GivenTo N x cid r ∨ InCache N x cid r := by
  rcases List.mem_append.mp hr with hr | hr
  · obtain ⟨raw, hraw, hshows⟩ := corresponding_mem (hb.toMatches.shown hc).flip hr
    exact .inl ⟨raw, hraw, hshows⟩
  · obtain ⟨raw, hraw, hshows⟩ := corresponding_mem (hb.peer cid hc).cache.left.flip hr
    exact .inr ⟨raw, hraw, hshows⟩

end

/-- Of the clients of one reader, only this one makes calls. -/
def CallsAlone (N : Site) (i : Nat) (cid : ConnId) : NetMove → Prop
  | .call c _ _ => OfReader N i c → c = cid
  | .join _ | .forward _ | .serve _ _ | .receive _ | .interrupt _ _ | .enqueue _ _ _ | .sigterm =>
    True

instance (N : Site) (i : Nat) (cid : ConnId) : (m : NetMove) → Decidable (CallsAlone N i cid m)
  | .call c _ _ => inferInstanceAs (Decidable (OfReader N i c → c = cid))
  | .join _ | .forward _ | .serve _ _ | .receive _ | .interrupt _ _ | .enqueue _ _ _ | .sigterm =>
    isTrue trivial

def Undisturbed (N : Site) (i : Nat) (cid : ConnId) (x : NetState) (m : NetMove) : Prop :=
  Punctual N x m ∧ Keeps x m ∧ CallsAlone N i cid m

instance (N : Site) (i : Nat) (cid : ConnId) (x : NetState) (m : NetMove) :
    Decidable (Undisturbed N i cid x m) :=
  inferInstanceAs (Decidable (_ ∧ _ ∧ _))

namespace Sample

/-- Three records are stored, and the only client receives the first batch. -/
def alone : List NetMove :=
  [.join 0, .forward [109, 48],
    .enqueue 0 0 [.recv (record 1) true none, .recv (record 2) true none],
    .enqueue 0 0 [.recv (record 3) true none, .fail atEnd]] ++
  served (calm 5) [0, 0] .start ++ served (calm 5) [0, 0] .recv

end Sample

end Lcap.Proofs
