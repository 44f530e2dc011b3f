import Lcap.Proofs.Filing
import Lcap.Reader.Upstream
import Lcap.Systems.History

namespace Lcap.Proofs
open Reader Systems

/-- What the reader has stored is the log below `re_srec`, and an open stream has
nothing left from there on before its position. -/
structure Caught (s : ReaderEnv) (u : Upstream) : Prop where
  increasing : Increasing u.log
  stored : storedRecords s.trace = u.log.filter (fun r => r.crIndex < s.reSrec)
  srec : s.reSrec = 0 ∨ ∃ r ∈ u.log, s.reSrec = r.crIndex + 1
  stream : s.reClpriv = true → s.terminateSig = false → s.stopped = false →
    u.pos ≤ u.log.length ∧ ∀ r ∈ u.log.take u.pos, r.crIndex < s.reSrec

/-- In an increasing log the records below an index come first. -/
theorem filter_split {a b : List ChangelogRec} (hlog : Increasing (a ++ r :: b))
    (ha : ∀ x ∈ a, x.crIndex < n) (hn : n ≤ r.crIndex) :
    (a ++ r :: b).filter (fun x => x.crIndex < n) = a ∧
      (a ++ r :: b).filter (fun x => x.crIndex < r.crIndex + 1) = a ++ [r] := by
  obtain ⟨_, hrb, _⟩ := List.pairwise_append.mp hlog
  obtain ⟨hb, _⟩ := List.pairwise_cons.mp hrb
  have hkeep : ∀ m, n ≤ m → a.filter (fun x => x.crIndex < m) = a := by
    intro m hm
    refine List.filter_eq_self.mpr fun x hx => ?_
    have := ha x hx
    simp only [decide_eq_true_eq]
    omega
  have hdrop : ∀ m, m ≤ r.crIndex + 1 → b.filter (fun x => x.crIndex < m) = [] := by
    intro m hm
    refine List.filter_eq_nil_iff.mpr fun x hx => ?_
    have := hb x hx
    simp only [decide_eq_true_eq]
    omega
  constructor
  · rw [List.filter_append, hkeep n le_rfl, List.filter_cons_of_neg (by simpa using hn),
      hdrop n (by omega), List.append_nil]
  · rw [List.filter_append, hkeep _ (by omega), List.filter_cons_of_pos (by simp),
      hdrop _ le_rfl]

theorem opened_records (s : ReaderEnv) (b : Nat) :
    storedRecords (openBucket s b).trace = storedRecords s.trace := by
  simp [openBucket, storedRecords, storedRecord]

theorem stored_appends (hs : Stored s r block t) :
    storedRecords (recCounted t r).trace = storedRecords s.trace ++ [r] := by
  cases hs with
  | insert _ _ => exact stored_records_append _ _
  | spill _ _ =>
    rw [← opened_records s (callocBlock s block)]
    exact stored_records_append _ _

/-- What the stream gives next is the log's record at its position. -/
theorem next_in_log {log recs : List ChangelogRec} (h : rec₁ :: recs <+: log.drop pos) :
    pos < log.length ∧ log = log.take pos ++ rec₁ :: log.drop (pos + 1) ∧
      log.take (pos + 1) = log.take pos ++ [rec₁] ∧ recs <+: log.drop (pos + 1) := by
  obtain ⟨rest, hrest⟩ := h
  have hlt : pos < log.length := by
    by_contra hge
    rw [List.drop_eq_nil_of_le (Nat.le_of_not_lt hge)] at hrest
    cases hrest
  have hdrop := List.drop_eq_getElem_cons hlt
  rw [hdrop] at hrest
  obtain ⟨hrec, htail⟩ := List.cons.inj hrest
  refine ⟨hlt, ?_, ?_, rest, htail⟩
  · rw [hrec, ← hdrop, List.take_append_drop]
  · rw [hrec, List.take_append_getElem]

/-- Storing the next record of the log leaves all of the log stored up to it. -/
theorem stored_next {pre post : List ChangelogRec} (hlog : Increasing (pre ++ rec₁ :: post))
    (hstored : storedRecords s.trace = (pre ++ rec₁ :: post).filter (fun r => r.crIndex < s.reSrec))
    (hpre : ∀ r ∈ pre, r.crIndex < s.reSrec) (hnew : s.reSrec ≤ rec₁.crIndex)
    (hs : Stored s rec₁ block t) :
    storedRecords (recCounted t rec₁).trace =
        (pre ++ rec₁ :: post).filter (fun r => r.crIndex < (recCounted t rec₁).reSrec) ∧
      ∀ r ∈ pre ++ [rec₁], r.crIndex < (recCounted t rec₁).reSrec := by
  have hsrec : (recCounted t rec₁).reSrec = rec₁.crIndex + 1 := rfl
  obtain ⟨hold, hnext⟩ := filter_split hlog hpre hnew
  refine ⟨?_, fun r hr => ?_⟩
  · rw [stored_appends hs, hstored, hsrec, hold, hnext]
  · rcases List.mem_append.mp hr with hr | hr
    · have := hpre r hr
      omega
    · rw [List.mem_singleton.mp hr]
      omega

/-- The reading loop follows the log from its position. A record that it takes off
the stream and does not store ends the loop for good: the signal has come, or
its bucket could not be allocated. -/
theorem recv_loop_caught {log : List ChangelogRec} (hlog : Increasing log)
    (hstored : storedRecords s.trace = log.filter (fun r => r.crIndex < s.reSrec))
    (hsrec : s.reSrec = 0 ∨ ∃ r ∈ log, s.reSrec = r.crIndex + 1)
    (hlen : pos ≤ log.length) (hpos : ∀ r ∈ log.take pos, r.crIndex < s.reSrec)
    (hrecv : received script <+: log.drop pos)
    (h : recvLoop s n script = .ok (t, rc, [])) :
    storedRecords t.trace = log.filter (fun r => r.crIndex < t.reSrec) ∧
    (t.reSrec = 0 ∨ ∃ r ∈ log, t.reSrec = r.crIndex + 1) ∧
    (t.terminateSig = false → 0 ≤ rc → pos + (received script).length ≤ log.length ∧
      ∀ r ∈ log.take (pos + (received script).length), r.crIndex < t.reSrec) := by
  induction script generalizing s n pos with
  | nil => simp [recvLoop] at h
  | cons e script ih =>
    cases e with
    | sigterm => exact ih (s := { s with terminateSig := true }) hstored hsrec hlen hpos hrecv h
    | fail r =>
      cases h
      exact ⟨hstored, hsrec, fun _ _ => ⟨hlen, hpos⟩⟩
    | recv rec alloc block =>
      have hcons : received (.recv rec alloc block :: script) = rec :: received script := rfl
      rw [hcons] at hrecv ⊢
      obtain ⟨hlt, hsplit, htake, hrest⟩ := next_in_log hrecv
      have hcount : pos + (rec :: received script).length = pos + 1 + (received script).length := by
        simp only [List.length_cons]
        omega
      rw [hcount]
      simp only [recvLoop, pure, Except.pure] at h
      split at h
      · rename_i hterm
        cases h
        exact ⟨hstored, hsrec, fun hf => absurd hterm (by simp [hf])⟩
      split at h
      · rename_i hold
        refine ih hstored hsrec hlt ?_ hrest h
        rw [htake]
        exact List.forall_mem_append.mpr ⟨hpos, List.forall_mem_singleton.mpr hold⟩
      · rename_i hnew
        have hnew : s.reSrec ≤ rec.crIndex := Nat.le_of_not_lt hnew
        obtain ⟨⟨v, r⟩, hst, hk⟩ := bind_ok h
        rcases store_cases hst with ⟨rfl, rfl, _⟩ | ⟨rfl, hs⟩
        · simp only [ENOMEM] at hk
          cases hk
          exact ⟨hstored, hsrec, fun _ hrc => absurd hrc (Int.not_le.mpr enomem_neg)⟩
        · obtain ⟨hstored', hpos'⟩ := stored_next (hsplit ▸ hlog) (hsplit ▸ hstored) hpos hnew hs
          rw [← hsplit] at hstored'
          rw [← htake] at hpos'
          have hmem : rec ∈ log := by
            rw [hsplit]
            exact List.mem_append_right _ List.mem_cons_self
          have hsrec' : (recCounted v rec).reSrec = 0 ∨
              ∃ r ∈ log, (recCounted v rec).reSrec = r.crIndex + 1 := .inr ⟨rec, hmem, rfl⟩
          simp only [ne_eq, not_true_eq_false, ↓reduceIte] at hk
          split at hk
          · cases hk
            exact ⟨hstored', hsrec', fun _ _ => ⟨hlt, hpos'⟩⟩
          · exact ih hstored' hsrec' hlt hpos' hrest hk

/-! ## The parts of a step of the composed system -/

theorem Caught.append (h : Caught s u) (hnew : ∀ r ∈ u.log, r.crIndex < x.crIndex) :
    Caught s { u with log := u.log ++ [x] } := by
  have hsrec : s.reSrec ≤ x.crIndex := by
    rcases h.srec with h0 | ⟨r, hr, he⟩
    · omega
    · have := hnew r hr
      omega
  refine ⟨?_, ?_, ?_, ?_⟩
  · refine List.pairwise_append.mpr ⟨h.increasing, List.pairwise_singleton _ _, ?_⟩
    intro a ha b hb
    rw [List.mem_singleton.mp hb]
    exact hnew a ha
  · rw [h.stored, List.filter_append, List.filter_cons_of_neg (by simpa using hsrec)]
    simp
  · exact h.srec.imp_right fun ⟨r, hr, he⟩ => ⟨r, List.mem_append_left _ hr, he⟩
  · intro hopen hterm hstop
    obtain ⟨hlen, hpos⟩ := h.stream hopen hterm hstop
    refine ⟨?_, ?_⟩
    · simp only [List.length_append]
      omega
    · rwa [List.take_append_of_le_length hlen]

/-- Serving a request does not touch what the reading depends on. -/
theorem served_reading (hs : Served s req io t rc) :
    t.reClpriv = s.reClpriv ∧ t.terminateSig = s.terminateSig ∧ t.stopped = s.stopped := by
  have hfetch : ∀ {u b}, Fetch s io u b →
      u.reClpriv = s.reClpriv ∧ u.terminateSig = s.terminateSig ∧ u.stopped = s.stopped := by
    intro u b hf
    cases hf <;> exact ⟨rfl, rfl, rfl⟩
  have hseal : ∀ (u : ReaderEnv) (p : Nat), (sealOpen u p io).reClpriv = u.reClpriv ∧
      (sealOpen u p io).terminateSig = u.terminateSig ∧
      (sealOpen u p io).stopped = u.stopped := by
    intro u p
    unfold sealOpen
    split <;> exact ⟨rfl, rfl, rfl⟩
  have hgive : ∀ {u p}, Fetch s io u (some p) → (sealOpen u p io).reClpriv = s.reClpriv ∧
      (sealOpen u p io).terminateSig = s.terminateSig ∧
      (sealOpen u p io).stopped = s.stopped := by
    intro u p hf
    obtain ⟨h1, h2, h3⟩ := hseal u p
    obtain ⟨f1, f2, f3⟩ := hfetch hf
    exact ⟨h1.trans f1, h2.trans f2, h3.trans f3⟩
  have hsent : ∀ (u : ReaderEnv) (cid : ConnId) (p : Nat),
      (sendBucket (assignBucket u cid p) cid p io).reClpriv = u.reClpriv ∧
      (sendBucket (assignBucket u cid p) cid p io).terminateSig = u.terminateSig ∧
      (sendBucket (assignBucket u cid p) cid p io).stopped = u.stopped :=
    fun _ _ _ => ⟨rfl, rfl, rfl⟩
  cases hs with
  | unopened _ _ hf _ _ => exact hfetch hf
  | unpacked _ _ hf _ _ => exact hgive hf
  | delivered _ _ hf _ _ _ =>
    obtain ⟨h1, h2, h3⟩ := hgive hf
    obtain ⟨s1, s2, s3⟩ := hsent _ req.lrForward _
    exact ⟨s1.trans h1, s2.trans h2, s3.trans h3⟩
  | _ => exact ⟨rfl, rfl, rfl⟩

theorem Rests.records (h : Rests B s t) :
    storedRecords t.trace = storedRecords s.trace ∧ t.reSrec = s.reSrec := by
  have hquiet : ∀ {u v : ReaderEnv}, Quiet u v →
      storedRecords v.trace = storedRecords u.trace ∧ v.reSrec = u.reSrec := by
    intro u v hq
    obtain ⟨post, he, hp⟩ := hq.trace
    refine ⟨?_, hq.srec⟩
    rw [he, stored_records_append, stored_records_eq_nil hp, List.append_nil]
  rcases h with hq | ⟨u, b, hu, _, hq⟩
  · exact hquiet hq
  · obtain ⟨h1, h2⟩ := hquiet hu
    obtain ⟨h3, h4⟩ := hquiet hq
    exact ⟨h3.trans ((opened_records u b).trans h1), h4.trans h2⟩

theorem answered_reading (s : ReaderEnv) (req : LcapnetRequest) (io : RpcIo) (rc : Int) :
    (answered s req io rc).reClpriv = s.reClpriv ∧
      (answered s req io rc).terminateSig = s.terminateSig ∧
      (answered s req io rc).stopped = s.stopped := by
  unfold answered
  split <;> exact ⟨rfl, rfl, rfl⟩

theorem Caught.request (hshape : Shape s) (h : Caught s u) (hserved : Served s req io t rc) :
    Caught (answered t req io rc) u := by
  obtain ⟨hrec, hsrec⟩ := ((served_rests hshape hserved).trans (answered_quiet t req io rc)).records
  obtain ⟨h1, h2, h3⟩ := served_reading hserved
  obtain ⟨a1, a2, a3⟩ := answered_reading t req io rc
  refine ⟨h.increasing, ?_, ?_, ?_⟩
  · rw [hrec, hsrec]
    exact h.stored
  · rw [hsrec]
    exact h.srec
  · rw [a1.trans h1, a2.trans h2, a3.trans h3, hsrec]
    exact h.stream

theorem Caught.read (h : Caught s u) (hterm : s.terminateSig = false) (hstop : s.stopped = false)
    (hstart : s.reClpriv = false → StartsBefore s u startPos)
    (hrecv : received script <+: u.log.drop (streamPos s u startPos))
    (he : changelogReaderEnqueue s startRc script = .ok (t, rc, [])) :
    Caught { t with stopped := decide (rc < 0) }
      { u with pos := streamPos s u startPos + (received script).length } := by
  have hpos : streamPos s u startPos ≤ u.log.length ∧
      ∀ r ∈ u.log.take (streamPos s u startPos), r.crIndex < s.reSrec := by
    unfold streamPos
    split
    · rename_i hopen
      exact h.stream hopen hterm hstop
    · rename_i hclosed
      exact hstart (by simpa using hclosed)
  unfold changelogReaderEnqueue at he
  simp only [pure, Except.pure] at he
  split at he
  · cases he
    exact ⟨h.increasing, h.stored, h.srec, fun _ _ _ => by simpa [received] using hpos⟩
  split at he
  · cases he
    exact ⟨h.increasing, h.stored, h.srec, fun _ _ _ => by simpa [received] using hpos⟩
  obtain ⟨⟨v, r, rest⟩, hl, he⟩ := bind_ok he
  simp only [Except.ok.injEq, Prod.mk.injEq] at he
  obtain ⟨rfl, rfl, rfl⟩ := he
  obtain ⟨hstored, hsrec, hstream⟩ :=
    recv_loop_caught (s := { s with reClpriv := true }) h.increasing h.stored h.srec hpos.1
      hpos.2 hrecv hl
  refine ⟨h.increasing, hstored, hsrec, ?_⟩
  intro _ hterm' hrc
  exact hstream hterm' (by simpa using hrc)

/-- What an action is to the reader. -/
def actionLabel : Action → Option Label
  | .append _ => none
  | .read startRc _ script => some (.enqueue startRc script)
  | .request req io => some (.request req io)
  | .sigterm => some .sigterm

/-- A condition on the steps of the reader alone. -/
def OnReading (C : ReaderEnv → Label → Prop) (x : ReaderEnv × Upstream) (a : Action) : Prop :=
  ∀ l ∈ actionLabel a, C x.1 l

instance [∀ s l, Decidable (C s l)] (x : ReaderEnv × Upstream) (a : Action) :
    Decidable (OnReading C x a) :=
  inferInstanceAs (Decidable (∀ l ∈ actionLabel a, C x.1 l))

/-- The reader of the composed system makes runs of its own. -/
theorem reach_reader (h : Reach (caching cfg idx) (OnReading C) (s, u)) :
    Reach (reader cfg idx) C s := by
  refine h.project Prod.fst ?_
  rintro ⟨s, u⟩ l ⟨t, v⟩ hc hstep
  cases l with
  | append rec =>
    simp only [caching, cachingStep] at hstep
    split at hstep
    · cases hstep
      exact .refl
    · cases hstep
  | read startRc startPos script =>
    simp only [caching, cachingStep] at hstep
    split at hstep
    · obtain ⟨t', ht, he⟩ := Option.map_eq_some_iff.mp hstep
      cases he
      have ht : (reader cfg idx).step s (.enqueue startRc script) = some t := ht
      exact .single (hc _ rfl) ht
    · cases hstep
  | request req io =>
    obtain ⟨t', ht, he⟩ := Option.map_eq_some_iff.mp hstep
    cases he
    have ht : (reader cfg idx).step s (.request req io) = some t := ht
    exact .single (hc _ rfl) ht
  | sigterm =>
    cases hstep
    exact .single (l := .sigterm) (hc _ rfl) rfl

theorem Caught.step (hshape : Shape s) (h : Caught s u)
    (hstep : cachingStep (s, u) l = some (t, v)) : Caught t v := by
  cases l with
  | append rec =>
    simp only [cachingStep] at hstep
    split at hstep
    · rename_i hnew
      cases hstep
      exact h.append hnew
    · cases hstep
  | read startRc startPos script =>
    simp only [cachingStep] at hstep
    split at hstep
    · rename_i hok
      obtain ⟨t', ht, he⟩ := Option.map_eq_some_iff.mp hstep
      cases he
      obtain ⟨hstop, hterm, w, rc, henq, rfl⟩ := enqueue_step ht
      exact h.read hterm hstop hok.1 hok.2 henq
    · cases hstep
  | request req io =>
    obtain ⟨t', ht, he⟩ := Option.map_eq_some_iff.mp hstep
    cases he
    obtain ⟨_, hr⟩ := request_step ht
    obtain ⟨v, r, hserved, rfl⟩ := request_served hshape.nodup hr
    exact h.request hshape hserved
  | sigterm =>
    cases hstep
    exact ⟨h.increasing, h.stored, h.srec, fun _ hterm => by cases hterm⟩

theorem reach_caught (h : Reach (caching cfg idx) C (s, u)) : Caught s u := by
  have hparts : Reach (caching cfg idx) Always (s, u) ∧ Caught s u := by
    refine h.always.preserve (P := fun x => Reach (caching cfg idx) Always x ∧ Caught x.1 x.2)
      ⟨.refl, ?_⟩ ?_
    · refine ⟨List.Pairwise.nil, rfl, .inl rfl, ?_⟩
      intro hopen
      cases hopen
    · rintro ⟨s, u⟩ l ⟨t, v⟩ ⟨hr, hc⟩ _ hstep
      have hreader := reach_reader (C := Always) (hr.mono fun _ _ _ _ _ => trivial)
      exact ⟨hr.tail trivial hstep, hc.step (reach_shape hreader) hstep⟩
  exact hparts.2

/-- No bucket grows beyond the batch count. -/
structure BatchBound (cfg : LcapCfg) (s : ReaderEnv) : Prop where
  config : s.reCfg = cfg
  count : ∀ p, lrbRecCount s p ≤ max 0 cfg.ccfRecBatchCount

theorem BatchBound.quiet (h : BatchBound cfg s) (hq : Quiet s t) : BatchBound cfg t := by
  refine ⟨hq.cfg.trans h.config, fun p => ?_⟩
  rw [lrbRecCount, (hq.contents p).1]
  exact h.count p

theorem BatchBound.openBucket (h : BatchBound cfg s) (b : Nat) :
    BatchBound cfg (openBucket s b) := by
  refine ⟨h.config, fun p => ?_⟩
  by_cases he : p = b
  · rw [lrbRecCount, he, open_bucket_new]
    exact Int.le_max_left _ _
  · rw [lrbRecCount, open_bucket_mem he]
    exact h.count p

theorem BatchBound.insert (h : BatchBound cfg s) (hlt : lrbRecCount s p < s.reCfg.ccfRecBatchCount)
    (r : ChangelogRec) : BatchBound cfg (recCounted (recInsert s p r) r) := by
  refine ⟨h.config, fun q => ?_⟩
  by_cases he : q = p
  · subst he
    rw [h.config] at hlt
    simp only [lrbRecCount, recCounted, recInsert, recAppend, ReaderEnv.modify, ReaderEnv.log,
      Function.update_self, List.length_append, List.length_singleton] at hlt ⊢
    omega
  · rw [lrbRecCount, insert_mem_other he]
    exact h.count q

theorem reach_bounded (h : Reach (reader cfg idx) C s) : BatchBound cfg s := by
  apply filed_induct h
  · exact ⟨rfl, fun p => Int.le_max_left _ _⟩
  · exact fun s b c d hs => hs.quiet (.flags s b c d)
  · exact fun s p r hs _ _ hlt => hs.insert hlt r
  · exact fun s b _ hs _ _ _ => hs.openBucket b
  · exact fun s cid ret out hs => hs.quiet (.logAck s cid ret out)
  · exact fun s req io t rc hshape _ hs _ hst =>
      (served_rests hshape hst).preserve (fun _ _ hu hq => hu.quiet hq)
        (fun _ b hu _ => hu.openBucket b) hs

/-! ## The records of a bucket for as long as it is there -/

/-- What has been stored in a bucket before its release. -/
def filedIn (p : Nat) (tr : List Event) : List ChangelogRec :=
  storedIn p (tr.takeWhile fun e => e ≠ .destroyed p)

/-- A record goes into no bucket that has been released. -/
def StoredLive (pre : List Event) : Event → Prop
  | .stored p _ => .destroyed p ∉ pre
  | _ => True

theorem filed_in_eq (h : Justified StoredLive tr) (p : Nat) : filedIn p tr = storedIn p tr := by
  have hsplit := List.takeWhile_append_dropWhile (p := fun e => decide (e ≠ .destroyed p)) (l := tr)
  have hhead := List.head?_dropWhile_not (fun e => decide (e ≠ .destroyed p)) tr
  unfold filedIn
  generalize tr.takeWhile (fun e => decide (e ≠ .destroyed p)) = pre at hsplit ⊢
  generalize tr.dropWhile (fun e => decide (e ≠ .destroyed p)) = post at hsplit hhead
  have hnone : storedIn p post = [] := by
    refine stored_in_eq_nil fun r hr => ?_
    cases post with
    | nil => cases hr
    | cons e rest =>
      have he : e = .destroyed p := by simpa using hhead
      subst he
      obtain ⟨a, b, hab⟩ := List.append_of_mem ((List.mem_cons.mp hr).resolve_left nofun)
      have hlive := h (pre ++ .destroyed p :: a) (.stored p r) b (by rw [← hsplit, hab]; simp)
      exact hlive (by simp)
  rw [← hsplit, stored_in_append, hnone, List.append_nil]

/-- Released buckets lie before the open one, which takes the records. -/
structure Releasing (s : ReaderEnv) : Prop where
  gone : ∀ p, .destroyed p ∈ s.trace → p + 1 < s.reBktIdx
  stored : Justified StoredLive s.trace

theorem Releasing.extend (h : Releasing s) (post : List Event) (hi : s.reBktIdx ≤ t.reBktIdx)
    (ht : t.trace = s.trace ++ post) (hgone : ∀ p, .destroyed p ∈ post → p + 1 < t.reBktIdx)
    (hst : ∀ p r, .stored p r ∉ post) : Releasing t := by
  refine ⟨fun p hp => ?_, ?_⟩
  · rw [ht] at hp
    rcases List.mem_append.mp hp with hp | hp
    · exact Nat.lt_of_lt_of_le (h.gone p hp) hi
    · exact hgone p hp
  · rw [ht]
    refine h.stored.append fun e he _ => ?_
    cases e with
    | stored p r => exact absurd he (hst p r)
    | _ => trivial

/-- Nothing is released. -/
theorem Releasing.keep (h : Releasing s) (post : List Event) (hi : t.reBktIdx = s.reBktIdx)
    (ht : t.trace = s.trace ++ post) (hgone : ∀ p, .destroyed p ∉ post)
    (hst : ∀ p r, .stored p r ∉ post) : Releasing t :=
  h.extend post (Nat.le_of_eq hi.symm) ht (fun p hp => absurd hp (hgone p)) hst

theorem Releasing.logAck (h : Releasing s) (cid : ConnId) (ret : Int) (out : Option Errno) :
    Releasing (logAck s cid ret out) :=
  h.keep [_] rfl rfl (by simp) (by simp)

theorem Releasing.logClear (h : Releasing s) (endrec rc : Int) : Releasing (logClear s endrec rc) :=
  h.keep [_] rfl rfl (by simp) (by simp)

theorem Releasing.openBucket (h : Releasing s) : Releasing (openBucket s s.reBktIdx) :=
  h.extend [.opened s.reBktIdx] (Nat.le_succ _) rfl (by simp) (by simp)

theorem Releasing.fetch (h : Releasing s) (hf : Fetch s io t b) : Releasing t := by
  obtain ⟨hi, _, _, _, ht, _⟩ := fetch_frame hf
  exact h.keep [] hi (ht.trans (List.append_nil _).symm) (by simp) (by simp)

theorem Releasing.assign (h : Releasing s) (cid : ConnId) (p : Nat) :
    Releasing (assignBucket s cid p) :=
  h.keep [_] rfl rfl (by simp) (by simp)

theorem Releasing.acknowledge (h : Releasing s) (cid : ConnId) (p : Nat) :
    Releasing (acknowledgeBucket s cid p) :=
  h.keep [_] rfl rfl (by simp) (by simp)

theorem Releasing.destroy (hsettled : Settled s) (h : Releasing s)
    (hr : (s.mem p).lrbReady = true) : Releasing (recBucketDestroy s p) := by
  refine h.extend [.destroyed (s.mem p).lrbIndex] le_rfl rfl (fun q hq => ?_) (by simp)
  cases List.mem_singleton.mp hq
  rw [hsettled.index]
  exact hsettled.ready p hr

theorem Releasing.insert (h : Releasing s) (hp : (s.mem p).lrbIndex + 1 = s.reBktIdx)
    (r : ChangelogRec) : Releasing (recCounted (recInsert s p r) r) := by
  have hlive : .destroyed (s.mem p).lrbIndex ∉ s.trace := fun hd =>
    absurd (h.gone _ hd) (Nat.not_lt_of_le (Nat.le_of_eq hp.symm))
  refine ⟨fun q hq => ?_, h.stored.snoc hlive⟩
  have hq : .destroyed q ∈ s.trace ++ [.stored (s.mem p).lrbIndex r] := hq
  exact h.gone q (by simpa using hq)

theorem Releasing.served (hsettled : Settled s) (h : Releasing s) (hn : CallocNew s io)
    (hs : Served s req io t rc) : Releasing t := by
  have hgive : ∀ {u p}, Fetch s io u (some p) →
      Releasing (assignBucket (sealOpen u p io) req.lrForward p) := fun {u p} hf =>
    (seal_open_preserve_new (hn.fetch hf) (fun hu => hu.openBucket) (h.fetch hf) p).assign _ p
  cases hs with
  | refused _ _ | eof _ _ _ | vacuous _ _ => exact h
  | registered _ _ =>
    exact Releasing.logAck (s := registerClient s req) ⟨h.gone, h.stored⟩ _ _ _
  | deregistered _ _ =>
    exact Releasing.logAck (s := deregisterClient s req.lrForward) ⟨h.gone, h.stored⟩ _ _ _
  | unopened _ _ hf _ _ => exact h.fetch hf
  | unpacked _ _ hf _ _ => exact hgive hf
  | delivered _ _ hf _ _ _ =>
    exact (hgive hf).keep [_] rfl rfl (by simp) (by simp)
  | pending _ _ _ _ => exact (h.acknowledge _ _).logAck _ _ _
  | failed _ _ _ _ _ _ => exact (h.acknowledge _ _).logClear _ _
  | @purged bkt head endrec _ hh _ hr _ _ hl =>
    have hl' : head ∈ (acknowledgeBucket s req.lrForward bkt).reBuckets := hl
    rw [lrbReady, if_pos hl'] at hr
    exact (((h.acknowledge _ _).logClear _ _).destroy ((hsettled.acknowledge hh).log _) hr).logAck _
      _ _

theorem reach_releasing (h : Reach (reader cfg idx) Unaliased s) : Releasing s := by
  apply settled_filed_induct h fun _ _ hl => hl
  · exact ⟨fun p hp => (nomatch hp), Justified.nil.snoc trivial⟩
  · exact fun s b c d hs => ⟨hs.gone, hs.stored⟩
  · exact fun s p r hsettled hs hp _ _ => hs.insert (by rwa [hsettled.index]) r
  · exact fun s _ hs _ _ => hs.openBucket
  · exact fun s cid ret out hs => hs.logAck cid ret out
  · exact fun s req io t rc hsettled _ hs _ hn hst => hs.served hsettled hn hst

namespace Sample

/-- The log grows while the stream is read, closed and started again with old records. -/
def catchingUp : List Action :=
  [.append (record 3), .append (record 5),
    .read 0 0 [.recv (record 3) true none, .recv (record 5) true none],
    .append (record 6), .read 0 0 [.fail atEnd],
    .read 0 1 [.recv (record 5) true none, .recv (record 6) true none, .fail atEnd]]

/-- The composed system after these actions. -/
def cached (run : List Action) : ReaderEnv × Upstream :=
  replay (caching cfg 0) (caching cfg 0).init run

/-- The released block that the client still holds has become the open bucket, which its
CLEAR destroys. -/
def losing : List Action :=
  [.request (start [1]) (calm 7), .request (dequeue [1]) (calm 7), .request (clear [1]) (calm 8),
    .request (dequeue [1]) (calm 20), .append (record 1), .append (record 2), .append (record 3),
    .append (record 4), .read 0 0 [.recv (record 1) true none, .recv (record 2) true none],
    .read 0 0 [.recv (record 3) true (some 0), .fail atEnd], .request (clear [1]) (calm 21),
    .read 0 3 [.recv (record 4) true none, .fail atEnd]]

end Sample

end Lcap.Proofs
