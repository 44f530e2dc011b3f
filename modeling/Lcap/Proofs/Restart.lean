import Lcap.Proofs.SafeConfig
import Lcap.Reader.Main
import Lcap.Systems.History

namespace Lcap.Proofs
open Reader Systems

/-- A result that closes the stream. -/
def Closes (c : StreamCall) : Prop := ∃ rc, c = .recv rc ∧ closesStream rc = true

def Starts (c : StreamCall) : Prop := ∃ startrec rc, c = .start startrec rc

/-- A record that finds memory, the end of the stream, or one of the two errors. -/
def Scripted : RecvEvent → Prop
  | .recv _ alloc _ => alloc = true
  | .fail rc => rc.val = 1 ∨ rc.val = -EAGAIN ∨ rc.val = -EPROTO
  | .sigterm => False

instance : ∀ e : RecvEvent, Decidable (Scripted e)
  | .recv _ alloc _ => inferInstanceAs (Decidable (alloc = true))
  | .fail rc => inferInstanceAs (Decidable (rc.val = 1 ∨ rc.val = -EAGAIN ∨ rc.val = -EPROTO))
  | .sigterm => isFalse id

/-- Starting the stream works, and nobody asks the reader to stop. -/
def StreamWorks (_ : ReaderEnv × List StreamCall) : Label → Prop
  | .enqueue startRc script => startRc = 0 ∧ ∀ e ∈ script, Scripted e
  | .request _ _ => True
  | .sigterm => False

instance : ∀ (x : ReaderEnv × List StreamCall) (l : Label), Decidable (StreamWorks x l)
  | _, .enqueue startRc script =>
    inferInstanceAs (Decidable (startRc = 0 ∧ ∀ e ∈ script, Scripted e))
  | _, .request _ _ => isTrue trivial
  | _, .sigterm => isFalse id

/-- The reader is in its loop, and its next iteration survives whatever the stream
gives and starts a closed stream again unless the reader is full. -/
structure Restarts (cfg : LcapCfg) (idx : Nat) (x : ReaderEnv × List StreamCall) : Prop where
  stays : x.1.stopped = false ∧ x.1.terminateSig = false
  alive : ∀ script, (∀ e ∈ script, Scripted e) →
    changelogReaderEnqueue x.1 0 script ≠ .error .assertion
  reopens : Standing Closes Starts x.2 → ∀ script y,
    (readerMain cfg idx).step x (.enqueue 0 script) = some y → changelogReaderFull x.1 = false →
    ∃ rest, y.2 = x.2 ++ .start x.1.reSrec 0 :: rest

/-! ## The calls of one iteration -/

/-- The results of a read that ended with `rc`: only the last one is not a record. -/
structure ReadWith (rc : Int) (calls : List StreamCall) : Prop where
  last : rc = 0 ∨ .recv rc ∈ calls ∧ (rc = 1 ∨ rc = -EAGAIN ∨ rc = -EPROTO)
  only : ∀ r, .recv r ∈ calls → r = 0 ∨ r = rc
  started : ∀ c ∈ calls, ¬ Starts c

theorem ReadWith.record (h : ReadWith rc calls) : ReadWith rc (.recv 0 :: calls) := by
  refine ⟨h.last.imp_right fun h => ⟨List.mem_cons_of_mem _ h.1, h.2⟩, ?_, ?_⟩
  · intro r hr
    rcases List.mem_cons.mp hr with he | hr
    · cases he
      exact .inl rfl
    · exact h.only r hr
  · intro c hc
    rcases List.mem_cons.mp hc with rfl | hc
    · intro hnone
      obtain ⟨_, _, he⟩ := hnone
      cases he
    · exact h.started c hc

theorem read_nothing : ReadWith 0 [] :=
  ⟨.inl rfl, by simp, by simp⟩

theorem stored_reading (hs : Stored s r block t) :
    (recCounted t r).reClpriv = s.reClpriv ∧ (recCounted t r).terminateSig = s.terminateSig := by
  cases hs with
  | insert _ _ => exact ⟨rfl, rfl⟩
  | spill _ _ => exact ⟨rfl, rfl⟩

theorem recv_loop_results (hw : ∀ e ∈ script, Scripted e)
    (h : recvLoop s n script = .ok (t, rc, [])) :
    ReadWith rc (script.filterMap recvCall) ∧ t.reClpriv = s.reClpriv ∧
      t.terminateSig = s.terminateSig := by
  induction script generalizing s n with
  | nil => cases h
  | cons e script ih =>
    have hrest := fun e' he' => hw e' (List.mem_cons_of_mem e he')
    have hhead := hw e List.mem_cons_self
    cases e with
    | sigterm => exact absurd hhead id
    | fail r =>
      simp only [recvLoop] at h
      cases h
      refine ⟨⟨.inr ⟨List.mem_cons_self, hhead⟩, ?_, ?_⟩, rfl, rfl⟩
      · intro r' hr'
        simp only [List.filterMap_cons, recvCall, List.filterMap_nil, List.mem_singleton] at hr'
        cases hr'
        exact .inr rfl
      · rintro c hc ⟨_, _, rfl⟩
        simp [recvCall] at hc
    | recv r alloc block =>
      have hcalls : (RecvEvent.recv r alloc block :: script).filterMap recvCall =
          .recv 0 :: script.filterMap recvCall := rfl
      rw [hcalls]
      simp only [recvLoop, pure, Except.pure] at h
      split at h
      · cases h
        exact ⟨read_nothing.record, rfl, rfl⟩
      split at h
      · obtain ⟨hr, hopen, hterm⟩ := ih hrest h
        exact ⟨hr.record, hopen, hterm⟩
      obtain ⟨⟨u, r'⟩, hst, hk⟩ := bind_ok h
      rcases store_cases hst with ⟨_, _, ha⟩ | ⟨rfl, hstored⟩
      · exact absurd (ha.symm.trans hhead) (by decide)
      obtain ⟨hopen', hterm'⟩ := stored_reading hstored
      simp only [ne_eq, not_true_eq_false, ↓reduceIte] at hk
      split at hk
      · cases hk
        exact ⟨read_nothing.record, hopen', hterm'⟩
      · obtain ⟨hr, hopen, hterm⟩ := ih hrest hk
        exact ⟨hr.record, hopen.trans hopen', hterm.trans hterm'⟩

theorem ReadWith.close (h : ReadWith rc calls) :
    ReadWith rc (calls ++ if closesStream rc then [.fini] else []) := by
  have hnew : ∀ {c}, c ∈ calls ++ (if closesStream rc then [.fini] else []) → c ∈ calls ∨
      c = .fini := by
    intro c hc
    rcases List.mem_append.mp hc with hc | hc
    · exact .inl hc
    · split at hc
      · exact .inr (List.mem_singleton.mp hc)
      · cases hc
  refine ⟨h.last.imp_right fun h => ⟨List.mem_append_left _ h.1, h.2⟩, ?_, ?_⟩
  · intro r hr
    rcases hnew hr with hr | he
    · exact h.only r hr
    · cases he
  · intro c hc
    rcases hnew hc with hc | rfl
    · exact h.started c hc
    · intro hnone
      obtain ⟨_, _, he⟩ := hnone
      cases he

/-- The call that opens a closed stream. -/
def opening (s : ReaderEnv) : List StreamCall := if s.reClpriv then [] else [.start s.reSrec 0]

/-- An iteration is refused for capacity, or reads until a result ends its loop. -/
theorem enqueue_calls (hw : ∀ e ∈ script, Scripted e)
    (h : readerStep s (.enqueue 0 script) = some t) :
    s.stopped = false ∧ t.terminateSig = s.terminateSig ∧
    ((changelogReaderFull s = true ∧ streamCalls s (.enqueue 0 script) = [] ∧
        t.reClpriv = s.reClpriv ∧ t.stopped = false) ∨
      (changelogReaderFull s = false ∧ ∃ rc,
        streamCalls s (.enqueue 0 script) = opening s ++ readCalls s script ∧
        ReadWith rc (readCalls s script) ∧ t.reClpriv = !closesStream rc ∧
        t.stopped = decide (rc < 0))) := by
  obtain ⟨hrun, _, u, rc, he, rfl⟩ := enqueue_step h
  refine ⟨hrun, ?_⟩
  unfold changelogReaderEnqueue at he
  simp only [pure, Except.pure] at he
  split at he
  · rename_i hfull
    cases he
    exact ⟨rfl, .inl ⟨hfull, by simp [streamCalls, hfull], rfl, rfl⟩⟩
  rename_i hroom
  have hroom := Bool.eq_false_iff.mpr hroom
  split at he
  · rename_i hstart
    exact absurd rfl hstart.2
  obtain ⟨⟨v, r, rest⟩, hl, he⟩ := bind_ok he
  simp only [Except.ok.injEq, Prod.mk.injEq] at he
  obtain ⟨rfl, rfl, rfl⟩ := he
  obtain ⟨hread, hopen, hterm⟩ := recv_loop_results hw hl
  have hcalls : readCalls s script =
      script.filterMap recvCall ++ if closesStream r then [.fini] else [] := by
    simp only [readCalls, hl]
  refine ⟨hterm, .inr ⟨hroom, r, ?_, hcalls ▸ hread.close, ?_, rfl⟩⟩
  · cases hp : s.reClpriv with
    | true => simp [streamCalls, opening, hroom, hp]
    | false => simp [streamCalls, opening, hroom, hp]
  · simp [hopen]

/-! ## What holds of every run -/

/-- The errors behind which a stream has to be started again. -/
def Transient (rc : Int) : Prop := rc = -EAGAIN ∨ rc = -EPROTO

/-- The stream is open unless it was closed last, and the loop goes on unless one of
the errors was read. -/
structure Streaming (x : ReaderEnv × List StreamCall) : Prop where
  running : x.1.terminateSig = false
  closed : Standing Closes Starts x.2 → x.1.reClpriv = false
  stopped : x.1.stopped = true ↔ ∃ rc, .recv rc ∈ x.2 ∧ Transient rc

theorem ReadWith.closes_of_standing (h : ReadWith rc calls) (hs : Standing Closes Starts calls) :
    closesStream rc = true := by
  obtain ⟨pre, c, post, rfl, ⟨r, rfl, hr⟩, _⟩ := hs
  rcases h.only r (by simp) with rfl | rfl
  · cases hr
  · exact hr

theorem ReadWith.negative (h : ReadWith rc calls) :
    rc < 0 ↔ ∃ r, .recv r ∈ calls ∧ Transient r := by
  constructor
  · intro hneg
    rcases h.last with rfl | ⟨hm, rfl | htr⟩
    · omega
    · omega
    · exact ⟨rc, hm, htr⟩
  · intro hread
    obtain ⟨r, hr, htr⟩ := hread
    have hneg : r < 0 := by
      rcases htr with rfl | rfl
      · decide
      · decide
    rcases h.only r hr with rfl | rfl
    · omega
    · exact hneg

theorem opening_not_standing (s : ReaderEnv) : ¬ Standing Closes Starts (opening s) := by
  intro hstanding
  obtain ⟨pre, c, post, he, ⟨r, rfl, _⟩, _⟩ := hstanding
  have hm : StreamCall.recv r ∈ opening s := he ▸ by simp
  unfold opening at hm
  split at hm
  · cases hm
  · simp at hm

theorem opening_recv {rc : Int} : StreamCall.recv rc ∉ opening s := by
  unfold opening
  split
  · simp
  · simp

theorem Streaming.read (h : Streaming (s, log)) (hstop : s.stopped = false)
    (hr : ReadWith rc calls) (hterm : t.terminateSig = s.terminateSig)
    (hopen : t.reClpriv = !closesStream rc) (ht : t.stopped = decide (rc < 0)) :
    Streaming (t, log ++ (opening s ++ calls)) := by
  have hold : ∀ rc, .recv rc ∈ log → ¬ Transient rc := by
    intro rc hm hneg
    have := h.stopped.mpr ⟨rc, hm, hneg⟩
    simp [hstop] at this
  refine ⟨hterm.trans h.running, ?_, ?_⟩
  · intro hs
    rw [standing_append, standing_append] at hs
    rcases hs with (hs | ⟨hs, _⟩) | ⟨hs, hleft⟩
    · simp [hopen, hr.closes_of_standing hs]
    · exact absurd hs (opening_not_standing s)
    · -- the stream was closed, so it has been opened again
      have hclosed : s.reClpriv = false := h.closed hs
      have hstart : StreamCall.start s.reSrec 0 ∈ opening s ++ calls := by simp [opening, hclosed]
      exact absurd ⟨_, _, rfl⟩ (hleft _ hstart).2
  · simp only [ht, decide_eq_true_eq, hr.negative]
    constructor
    · intro hnegative
      obtain ⟨r, hm, hneg⟩ := hnegative
      exact ⟨r, by simp [hm], hneg⟩
    · intro hnegative
      obtain ⟨r, hm, hneg⟩ := hnegative
      rcases List.mem_append.mp hm with hm | hm
      · exact absurd hneg (hold r hm)
      rcases List.mem_append.mp hm with hm | hm
      · exact absurd hm opening_recv
      · exact ⟨r, hm, hneg⟩

theorem Streaming.same (h : Streaming (s, log)) (hopen : t.reClpriv = s.reClpriv)
    (hterm : t.terminateSig = s.terminateSig) (ht : t.stopped = s.stopped) : Streaming (t, log) :=
  ⟨hterm.trans h.running, fun hs => hopen.trans (h.closed hs), ht ▸ h.stopped⟩

theorem reach_of_main (h : Reach (readerMain cfg idx) C x) : Reach (reader cfg idx) Always x.1 :=
  reach_of_logged (h.mono fun _ _ _ => trivial)

theorem reach_streaming (h : Reach (readerMain cfg idx) StreamWorks x) : Streaming x := by
  induction h with
  | refl =>
    refine ⟨rfl, fun hs => absurd hs not_standing_nil, ?_⟩
    simp [readerMain, logged, reader, initialReader]
  | @tail x l y hx hw hstep ih =>
    obtain ⟨s, log⟩ := x
    obtain ⟨t, log'⟩ := y
    have hs : readerStep s l = some t := (logged_step hstep).1
    obtain rfl : log' = log ++ streamCalls s l := (logged_step hstep).2
    cases l with
    | enqueue startRc script =>
      obtain ⟨rfl, hscript⟩ := hw
      obtain ⟨hstop, hterm, hcase⟩ := enqueue_calls hscript hs
      rcases hcase with ⟨_, hcalls, hopen, ht⟩ | ⟨_, rc, hcalls, hr, hopen, ht⟩
      · rw [hcalls, List.append_nil]
        exact ih.same hopen hterm (ht.trans hstop.symm)
      · rw [hcalls]
        exact ih.read hstop hr hterm hopen ht
    | request req io =>
      have hn := (reach_shape (reach_of_main hx)).nodup
      obtain ⟨rc, he⟩ := request_step hs
      obtain ⟨u, r, hserved, rfl⟩ := request_served hn he
      obtain ⟨h1, h2, h3⟩ := served_reading hserved
      obtain ⟨a1, a2, a3⟩ := answered_reading u req io r
      rw [streamCalls, List.append_nil]
      exact ih.same (a1.trans h1) (a2.trans h2) (a3.trans h3)
    | sigterm => exact absurd hw id

/-! ## When an iteration survives -/

/-- Without a positive batch count no record is ever stored. -/
theorem nothing_stored (hbatch : cfg.ccfRecBatchCount ≤ 0) (h : Reach (reader cfg idx) C s) :
    s.reSrec = 0 ∧ s.reRecCnt = 0 := by
  obtain ⟨_, hsrec, hstray⟩ : s.reCfg = cfg ∧ s.reSrec = 0 ∧ strayRecords s = 0 := by
    apply filed_induct (P := fun s => s.reCfg = cfg ∧ s.reSrec = 0 ∧ strayRecords s = 0) h
    · exact ⟨rfl, rfl, rfl⟩
    · exact fun _ _ _ _ hs => hs
    · intro s p r hs _ _ hlt
      have hpos : 0 ≤ lrbRecCount s p := Int.natCast_nonneg _
      rw [hs.1] at hlt
      omega
    · intro s _ _ hs _ hpos _
      rw [hs.1] at hpos
      omega
    · exact fun s cid ret out hs => ⟨hs.1, hs.2.1, hs.2.2⟩
    · intro s req io t rc hshape _ hs _ hst
      have hb := served_balanced hshape hst
      exact ⟨hb.cfg.trans hs.1, (served_rests hshape hst).records.2.trans hs.2.1,
        hb.stray.trans hs.2.2⟩
  refine ⟨hsrec, ?_⟩
  have hzero : listedRecords s = 0 := by
    refine List.sum_eq_zero fun n hn => ?_
    obtain ⟨p, _, rfl⟩ := List.mem_map.mp hn
    have hle := (reach_bounded h).2 p
    have hpos : 0 ≤ lrbRecCount s p := Int.natCast_nonneg _
    omega
  rw [strayRecords, hzero] at hstray
  omega

theorem alive_iff (h : Reach (reader cfg idx) Always s) (hterm : s.terminateSig = false) :
    (∀ script, (∀ e ∈ script, Scripted e) → changelogReaderEnqueue s 0 script ≠ .error .assertion) ↔
      0 < cfg.ccfRecBatchCount ∨ Int.bmod (cfg.ccfRecBatchCount * cfg.ccfMaxBkt) (2 ^ 32) ≤ 0 := by
  have hcfg := (reach_bounded h).1
  have hlim : slotLimit s = Int.bmod (cfg.ccfRecBatchCount * cfg.ccfMaxBkt) (2 ^ 32) := by
    rw [slotLimit, hcfg]
  constructor
  · intro halive
    by_contra hno
    rw [not_or, Int.not_lt, Int.not_le] at hno
    obtain ⟨hbatch, hpos⟩ := hno
    obtain ⟨hsrec, hcnt⟩ := nothing_stored hbatch h
    have hneg : s.reCfg.ccfRecBatchCount < 0 := by
      rw [hcfg]
      refine lt_of_le_of_ne hbatch ?_
      intro hzero
      rw [hzero, Int.zero_mul] at hpos
      exact absurd hpos (by decide)
    have hroom : changelogReaderFull s = false := not_full_iff.mpr (by omega)
    have hopen : s.reCurrentOpen.isSome = true := by
      obtain ⟨p, ho, _⟩ := (reach_shape h).opened
      rw [ho]
      rfl
    refine halive [.recv ⟨0, 0, 0, by decide⟩ true none] (by simp [Scripted]) ?_
    exact negative_batch_asserts hneg hopen hroom hterm (by simp [hsrec])
  · rintro (hbatch | hle) script _
    · exact (reach_has_open hbatch h).enqueue 0 script
    · have hfull : changelogReaderFull s = true := by
        cases hf : changelogReaderFull s with
        | true => rfl
        | false =>
          have hlt := not_full_iff.mp hf
          have hpos := listed_nonneg s
          have hcounted : listedRecords s ≤ s.reRecCnt :=
            Int.sub_nonneg.mp (reach_accounted h).counted
          omega
      unfold changelogReaderEnqueue
      simp [hfull, pure, Except.pure]

namespace Sample

/-- The stream ends, and gives one more record when it is started again. -/
def twoReads : List Label := [read [record 1], batch [record 2, record 3]]

/-- A transient error behind the first record. -/
def interrupted : List Label :=
  [.enqueue 0 [.recv (record 1) true none, .fail ⟨-EAGAIN, by decide⟩]]

def mainAfter (ls : List Label) : ReaderEnv × List StreamCall :=
  replay (readerMain cfg 0) (readerMain cfg 0).init ls

end Sample

end Lcap.Proofs
