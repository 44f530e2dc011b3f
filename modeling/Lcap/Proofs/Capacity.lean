import Lcap.Proofs.Lifetime
import Lcap.Proofs.Rendering

namespace Lcap.Proofs
open Systems Wire
open Client (PxRequest recvBufferLength)

/-- The counters of a cache and its array: there is an entry for each record counted, or
none is left to take from an array that is not there. -/
structure Fitting (z : PxCache) : Prop where
  cursor : z.recNxt ≤ z.recCnt
  room : ∀ arr, z.records = some arr → z.recCnt ≤ arr.length
  used : z.records = none → z.recNxt = z.recCnt

/-- An ACK that answers a DEQUEUE carries EOF or an error. -/
def RecordsOrError (x : PxContext) : PxMove → Prop
  | .reply (.ack retcode) _ => x.sock = .owed .dequeue → Int.bmod retcode (2 ^ 32) ≠ 0
  | _ => True

/-- Without an array, the batch is larger than the last one, or it does not come through. -/
def GrownFor (z : PxCache) : Progress → ReqSocket → Prop
  | .waiting io .dequeue, .arrived (.enqueue recs) frames =>
    z.records = none → recs ≠ [] → ReceivedWhole io frames → z.recCnt < recs.length
  | _, _ => True

/-- Behind a failed `realloc` no batch is received that fits the array which is gone. -/
def Grown (x : PxContext) : PxMove → Prop
  | .resume => GrownFor x.cache x.progress x.sock
  | _ => True

instance (x : PxContext) : (l : PxMove) → Decidable (RecordsOrError x l)
  | .reply (.ack _) _ => inferInstanceAs (Decidable (_ → _ ≠ _))
  | .reply (.enqueue _) _ | .recv _ | .free | .clear _ _ _ _ | .resume | .interrupt _ =>
    .isTrue trivial

instance (z : PxCache) : (p : Progress) → (sock : ReqSocket) → Decidable (GrownFor z p sock)
  | .waiting _ .dequeue, .arrived (.enqueue _) _ => inferInstanceAs (Decidable (_ → _ → _ → _))
  | .waiting _ .dequeue, .arrived (.ack _) _ | .waiting _ .dequeue, .ready
  | .waiting _ .dequeue, .owed _ | .waiting _ (.start _ _ _), _ | .waiting _ (.clear _ _ _), _
  | .running, _ | .crashed, _ => .isTrue trivial

instance (x : PxContext) : (l : PxMove) → Decidable (Grown x l)
  | .resume => inferInstanceAs (Decidable (GrownFor _ _ _))
  | .recv _ | .free | .clear _ _ _ _ | .reply _ _ | .interrupt _ => .isTrue trivial

/-! ## The accesses of one call -/

theorem Fitting.congr (h : Fitting z) (hn : z'.recNxt = z.recNxt) (hc : z'.recCnt = z.recCnt)
    (hr : z'.records = z.records) : Fitting z' := by
  refine ⟨?_, ?_, ?_⟩
  · rw [hn, hc]
    exact h.cursor
  · rw [hc, hr]
    exact h.room
  · rw [hn, hc, hr]
    exact h.used

theorem init_fitting : Fitting pzdInit :=
  ⟨Nat.le_refl 0, fun _ _ => Nat.zero_le _, nofun⟩

/-- A record that is left to take lies in the array. -/
theorem Fitting.take (h : Fitting z) (hne : z.recNxt ≠ z.recCnt) :
    ∃ z' p, takeNext z = .ok (z', .record p) ∧ Fitting z' := by
  have hcursor := h.cursor
  cases ha : z.records with
  | none => exact absurd (h.used ha) hne
  | some arr =>
    have hlt : z.recNxt < arr.length := by
      have := h.room arr ha
      omega
    refine ⟨{ z with recNxt := z.recNxt + 1 }, arr[z.recNxt], ?_, ?_⟩
    · simp only [takeNext, ha, List.getElem?_eq_getElem hlt]
    · refine ⟨?_, h.room, ?_⟩
      · simp only
        omega
      · intro hn
        cases ha.symm.trans hn

theorem Fitting.of_filled {L : RecLayout} {m : Nat → UInt8} (h : Filled L z m count z') :
    Fitting z' := by
  obtain ⟨rest, hrest⟩ := h.records
  refine ⟨?_, ?_, fun hn => nomatch hrest.symm.trans hn⟩
  · rw [h.nxt]
    exact Nat.zero_le _
  · intro arr ha
    cases hrest.symm.trans ha
    rw [h.cnt, List.length_append, List.length_map, walk_length]
    exact Nat.le_add_right _ _

theorem received_whole_iff (io : DequeueIo) (reply : Parts UInt8) :
    ReceivedWhole io reply ↔ ¬ (clRepRecv recvBufferLength io.frame 0 [] reply).2.1 < 0 := by
  constructor
  · rintro ⟨hio, hfit⟩
    rw [rep_recv_all 0 [] (fun i hi => by rw [Nat.zero_add]; exact hio i hi) (by simpa using hfit)]
    exact Int.not_lt.mpr (Int.natCast_nonneg _)
  · intro h
    have hio := rep_recv_whole (Nat.zero_le _) h
    simpa [ReceivedWhole] using hio

/-- A reply is refused with a code, and the cache goes on as it was, or it is a batch. -/
def Handled (res : Except Crash (PxCache × Int)) : Prop :=
  ∃ z' rc, res = .ok (z', rc) ∧ Fitting z' ∧ (rc = 0 → z'.recNxt ≠ z'.recCnt)

theorem refused_handled {L : RecLayout} (h : Fitting z) (hrc : rc ≠ 0)
    (hr : ∃ m, handleReply L io z reply = .ok ((z.malloc m).free z.nextBuf, rc)) :
    Handled (handleReply L io z reply) := by
  obtain ⟨m, hr⟩ := hr
  exact ⟨_, rc, hr, h.congr rfl rfl rfl, fun h0 => absurd h0 hrc⟩

theorem unreceived_handled {L : RecLayout} (h : Fitting z) (hw : ¬ ReceivedWhole io reply) :
    Handled (handleReply L io z reply) := by
  rw [received_whole_iff, not_not] at hw
  refine refused_handled h (Int.ne_of_lt hw)
    ⟨laid (clRepRecv recvBufferLength io.frame 0 [] reply).1 io.garbage, ?_⟩
  simp only [handleReply, if_pos hw]

theorem whole_received (hw : ReceivedWhole io frames) (hbytes : frames.flatten = bytes) :
    clRepRecv recvBufferLength io.frame 0 [] frames = (bytes, (bytes.length : Int), []) := by
  rw [rep_recv_all 0 [] (fun i hi => by rw [Nat.zero_add]; exact hw.1 i hi) (by simpa using hw.2),
    List.nil_append, hbytes]

theorem ack_handled {L : RecLayout} (h : Fitting z) (hret : Int.bmod retcode (2 ^ 32) ≠ 0)
    (hbytes : frames.flatten = Net.packAck retcode) : Handled (handleReply L io z frames) := by
  by_cases hw : ReceivedWhole io frames
  swap
  · exact unreceived_handled h hw
  exact refused_handled h hret ⟨_, handle_ack hret (whole_received hw hbytes)⟩

/-- A batch is cached, or refused, unless it is to be written where there is no array. -/
theorem enqueue_handled {L : RecLayout} {recs : List (List UInt8)} (h : Fitting z)
    (hempty : z.recNxt = z.recCnt)
    (hans : ∀ r ∈ recs, L.recLen (r.take L.sizeofRec) = r.length ∧ L.sizeofRec ≤ r.length)
    (hbytes : frames.flatten = packRecords recs)
    (hgrown : z.records = none → recs ≠ [] → ReceivedWhole io frames → z.recCnt < recs.length) :
    Handled (handleReply L io z frames) := by
  by_cases hw : ReceivedWhole io frames
  swap
  · exact unreceived_handled h hw
  have hrecv := whole_received hw hbytes
  by_cases hne : recs = []
  · subst hne
    exact refused_handled h (Int.ne_of_lt einval_neg) ⟨_, handle_empty hrecv⟩
  have hfit := hw.2
  rw [hbytes] at hfit
  obtain ⟨hop, hcnt, hlong⟩ := batch_fields hans hne hfit
  by_cases hroom : HasRoom io z (prCount (packRecords recs))
  · obtain ⟨z', hz', hf⟩ := handle_enqueue hrecv hop hlong hroom
    refine ⟨z', 0, hz', .of_filled hf, fun _ => ?_⟩
    rw [hf.nxt, hf.cnt, hcnt]
    exact Nat.ne_of_lt (List.length_pos_iff.mpr hne)
  rcases handle_no_room hrecv (hop ▸ rpc_op_type_code _) hlong hroom with
    ⟨hgt, _, hr⟩ | ⟨hle, _⟩ | ⟨_, hzero, _⟩
  · -- The array is lost, with no record left to take.
    refine ⟨_, -ENOMEM, hr, ?_, fun h0 => absurd h0 (Int.ne_of_lt enomem_neg)⟩
    exact ⟨h.cursor, nofun, fun _ => hempty⟩
  · rw [hcnt] at hle
    cases ha : z.records with
    | none => exact absurd (hgrown ha hne hw) (Nat.not_lt.mpr hle)
    | some arr =>
      have hlen := h.room arr ha
      exact absurd (.inr ⟨hcnt ▸ hle, arr, ha, by omega⟩) hroom
  · rw [hcnt] at hzero
    exact absurd (List.eq_nil_of_length_eq_zero hzero) hne

/-- A batch that fits only the array that is gone is written to nowhere. -/
theorem enqueue_crashes {L : RecLayout} {recs : List (List UInt8)}
    (hans : ∀ r ∈ recs, L.recLen (r.take L.sizeofRec) = r.length ∧ L.sizeofRec ≤ r.length)
    (hbytes : frames.flatten = packRecords recs) (hnone : z.records = none) (hne : recs ≠ [])
    (hw : ReceivedWhole io frames) (hle : recs.length ≤ z.recCnt) :
    ∃ c, handleReply L io z frames = .error c := by
  have hrecv := whole_received hw hbytes
  have hfit := hw.2
  rw [hbytes] at hfit
  obtain ⟨hop, hcnt, hlong⟩ := batch_fields hans hne hfit
  have hroom : ¬ HasRoom io z (prCount (packRecords recs)) := by
    rintro (⟨hgt, _⟩ | ⟨_, arr, ha, _⟩)
    · omega
    · exact nomatch hnone.symm.trans ha
  rcases handle_no_room hrecv (hop ▸ rpc_op_type_code _) hlong hroom with
    ⟨hgt, _⟩ | ⟨_, hc⟩ | ⟨_, hzero, _⟩
  · omega
  · exact hc
  · rw [hcnt] at hzero
    exact absurd (List.eq_nil_of_length_eq_zero hzero) hne

/-! ## One step of a context -/

/-- The reply that waits in the socket answers the request with records or an error. -/
structure Replied (L : RecLayout) (req : PxRequest) (msg : ServerReply)
    (frames : Parts UInt8) : Prop where
  answers : msg.Answers L req
  bytes : frames.flatten = msg.pack
  coded : ∀ retcode, msg = .ack retcode → req = .dequeue → Int.bmod retcode (2 ^ 32) ≠ 0

/-- No access has gone wrong, and none of those to come will. -/
structure InBounds (L : RecLayout) (x : PxContext) : Prop where
  alive : x.progress ≠ .crashed
  fitting : Fitting x.cache
  asked : ∀ io req, x.progress = .waiting io req →
    x.sock = .owed req ∨ ∃ msg frames, x.sock = .arrived msg frames ∧ Replied L req msg frames

section
variable {L : RecLayout} {x y : PxContext}

theorem init_in_bounds : InBounds L (pxContext L).init :=
  ⟨nofun, init_fitting, nofun⟩

theorem running_in_bounds (hz : Fitting z) : InBounds L ⟨z, sock, .running, trace⟩ :=
  ⟨nofun, hz, nofun⟩

/-- A request that is on its way is owed a reply. -/
theorem asking_in_bounds (h : InBounds L x) :
    InBounds L { x.transmit req with progress := .waiting io req } :=
  ⟨nofun, h.fitting, fun _ _ hw => .inl (by cases hw; rfl)⟩

/-- A call that ends with a code, or with a record that is left to take. -/
theorem finish_in_bounds (hz : Fitting z)
    (hres : (∃ rc, res = .ok (z, .code rc)) ∨ res = takeNext z ∧ z.recNxt ≠ z.recCnt) :
    InBounds L (x.finish L res) := by
  rcases hres with ⟨rc, rfl⟩ | ⟨rfl, hne⟩
  · exact ⟨nofun, hz, nofun⟩
  · obtain ⟨z', p, htake, hz'⟩ := hz.take hne
    rw [htake]
    exact ⟨nofun, hz', nofun⟩

theorem Handled.finish {res : Except Crash (PxCache × Int)} (h : Handled res) :
    InBounds L (x.finish L (afterReply res)) := by
  obtain ⟨z', rc, rfl, hz', hleft⟩ := h
  by_cases hrc : rc = 0
  · exact finish_in_bounds hz' (.inr ⟨by rw [afterReply, if_neg (not_not.mpr hrc)], hleft hrc⟩)
  · exact finish_in_bounds hz' (.inl ⟨rc, by rw [afterReply, if_pos hrc]⟩)

theorem InBounds.recv (h : InBounds L x) (io : DequeueIo) : InBounds L (x.recv L io) := by
  rcases recv_cases L (x.sock.gate io) x.cache with
    ⟨hne, htake⟩ | ⟨_, ⟨rc, hcode⟩ | ⟨_, ⟨rc, hleave⟩ | ⟨_, hask⟩⟩⟩
  · rw [PxContext.recv, htake]
    exact finish_in_bounds h.fitting (.inr ⟨rfl, hne⟩)
  · rw [PxContext.recv, hcode]
    exact finish_in_bounds h.fitting (.inl ⟨rc, rfl⟩)
  · rw [PxContext.recv, hleave]
    exact finish_in_bounds h.fitting (.inl ⟨rc, rfl⟩)
  · rw [PxContext.recv, hask]
    exact asking_in_bounds h

theorem InBounds.clear (h : InBounds L x) (req : PxRequest)
    (io : DequeueIo) : InBounds L (x.clear req io) := by
  rcases clear_cases x.cache (x.sock.gate io) with ⟨rc, hret⟩ | ⟨_, _, hask⟩
  · rw [PxContext.clear, hret]
    exact h
  · rw [PxContext.clear, hask]
    exact asking_in_bounds h

theorem InBounds.free (h : InBounds L x) :
    InBounds L { x with cache := pxChangelogFree x.cache } := by
  obtain ⟨hrec, hnxt, hcnt, _⟩ := free_remaining L x.cache
  exact ⟨h.alive, h.fitting.congr hnxt hcnt hrec, h.asked⟩

theorem InBounds.reply (h : InBounds L x) (hd : RecordsOrError x (.reply msg frames))
    (hsock : x.sock = .owed req) (hans : msg.Answers L req) (hbytes : frames.flatten = msg.pack) :
    InBounds L { x with sock := .arrived msg frames, trace := x.trace ++ [.replied msg] } := by
  refine ⟨h.alive, h.fitting, fun io req' hw => .inr ⟨msg, frames, rfl, ?_⟩⟩
  have hreq : req' = req := by
    rcases h.asked io req' hw with ho | ⟨msg', frames', harr, _⟩
    · exact ReqSocket.owed.inj (ho.symm.trans hsock)
    · exact nomatch hsock.symm.trans harr
  subst hreq
  refine ⟨hans, hbytes, fun retcode hm hreq => ?_⟩
  subst hm hreq
  exact hd hsock

/-- Only the reply to a DEQUEUE touches the array, and only a batch that fits one that is
gone goes wrong. -/
theorem InBounds.received (h : InBounds L x) (hwait : x.progress = .waiting io .dequeue)
    (hsock : x.sock = .arrived msg frames) (hempty : x.cache.recNxt = x.cache.recCnt)
    (sock : ReqSocket) :
    (Grown x .resume → InBounds L (({ x with sock := sock } : PxContext).finish L
      (afterReply (handleReply L io x.cache frames)))) ∧
    (¬ Grown x .resume → (({ x with sock := sock } : PxContext).finish L
      (afterReply (handleReply L io x.cache frames))).progress = .crashed) := by
  obtain ho | ⟨msg', frames', harr, hrep⟩ := h.asked io _ hwait
  · cases ho.symm.trans hsock
  cases harr.symm.trans hsock
  simp only [Grown, hwait, hsock]
  cases msg with
  | ack retcode =>
    refine ⟨fun _ => ?_, fun hg => absurd trivial hg⟩
    exact (ack_handled h.fitting (hrep.coded retcode rfl rfl) hrep.bytes).finish
  | enqueue recs =>
    constructor
    · exact fun hg => (enqueue_handled h.fitting hempty hrep.answers.2 hrep.bytes hg).finish
    · intro hg
      simp only [GrownFor, not_forall, Nat.not_lt] at hg
      obtain ⟨hnone, hne, hw, hle⟩ := hg
      obtain ⟨c, hc⟩ := enqueue_crashes hrep.answers.2 hrep.bytes hnone hne hw hle
      rw [hc]
      rfl

theorem grown_answered (hwait : x.progress = .waiting io req) (hreq : req ≠ .dequeue) :
    Grown x .resume := by
  simp only [Grown, hwait]
  cases req with
  | dequeue => exact absurd rfl hreq
  | start _ _ _ => trivial
  | clear _ _ _ => trivial

theorem InBounds.broken (h : InBounds L x) (io : DequeueIo) (e : Errno) : InBounds L (x.finish L
    (afterReply (handleReply L { io with frame := fun _ => { recv := some e } }
      x.cache [[]]))) := by
  have hw : ¬ ReceivedWhole { io with frame := fun _ => { recv := some e } } [[]] := by
    rintro ⟨hio, _⟩
    cases (hio 0 Nat.one_pos).1
  exact (unreceived_handled h.fitting hw).finish

/-- The next step of a context keeps it within its array exactly when it meets the condition. -/
theorem step_in_bounds (h : InBounds L x) (hd : RecordsOrError x l)
    (hs : pxContextStep L x l = some y) :
    (Grown x l → InBounds L y) ∧ (¬ Grown x l → y.progress = .crashed) := by
  -- Every other step meets it.
  have hkept : InBounds L y → Grown x l →
      (Grown x l → InBounds L y) ∧ (¬ Grown x l → y.progress = .crashed) :=
    fun hy hg => ⟨fun _ => hy, fun hn => absurd hg hn⟩
  cases context_moved hs with
  | recv => exact hkept (h.recv _) trivial
  | free => exact hkept h.free trivial
  | clear => exact hkept (h.clear _ _) trivial
  | reply hsock hans _ hbytes => exact hkept (h.reply hd hsock hans hbytes) trivial
  | received hwait hsock hempty => exact h.received hwait hsock hempty _
  | answered hwait hreq hsock =>
    exact hkept (running_in_bounds h.fitting) (grown_answered hwait hreq)
  | broken => exact hkept (h.broken _ _) trivial
  | unanswered => exact hkept (running_in_bounds h.fitting) trivial

/-- Whatever fails in a run, every entry that is written or read lies in the array, as
long as no batch is received that fits an array lost in a failed `realloc`. The
next step keeps to this exactly when it meets the condition. -/
theorem accesses_in_bounds (h : Reach (pxContext L) (fun x l => RecordsOrError x l ∧ Grown x l) x) :
    x.progress ≠ .crashed ∧ ∀ l y, RecordsOrError x l → (pxContext L).step x l = some y →
      (y.progress ≠ .crashed ↔ Grown x l) := by
  have hx : InBounds L x :=
    h.preserve init_in_bounds fun _ _ _ hb hc hs => (step_in_bounds hb hc.1 hs).1 hc.2
  refine ⟨hx.alive, fun l y hd hs => ?_⟩
  obtain ⟨hkeeps, hcrash⟩ := step_in_bounds hx hd hs
  constructor
  · intro hy
    by_contra hg
    exact hy (hcrash hg)
  · exact fun hg => (hkeeps hg).alive

end

namespace Sample

def packed (recs : List (List UInt8)) : PxMove :=
  .reply (.enqueue recs) [(ServerReply.enqueue recs).pack]

/-- A batch of one record is received and freed. The `realloc` for one of two records
fails. The application tries again. -/
def lostArray : List PxMove :=
  [.recv {}, packed [rawRecord 1], .resume, .free,
    .recv { grow := false }, packed [rawRecord 2, rawRecord 3], .resume, .recv {}]

def contextAfter (moves : List PxMove) : PxContext :=
  replay (pxContext layout) (pxContext layout).init moves

end Sample

set_option maxRecDepth 4000 in
theorem accesses_in_bounds_lostArray :
    (Sample.contextAfter Sample.lostArray).progress ≠ .crashed ∧
      ∀ l y, RecordsOrError (Sample.contextAfter Sample.lostArray) l →
        (pxContext Sample.layout).step (Sample.contextAfter Sample.lostArray) l = some y →
          (y.progress ≠ .crashed ↔ Grown (Sample.contextAfter Sample.lostArray) l) :=
  accesses_in_bounds (L := Sample.layout) (steps_of_obeys (by decide +kernel))

set_option maxRecDepth 4000 in
/-- The next batch is of one record, as many as are still counted: it is written through a
null pointer. -/
theorem small_batch_after_failed_realloc :
    Reach (pxContext Sample.layout) RecordsOrError
        (Sample.contextAfter (Sample.lostArray ++ [Sample.packed [Sample.rawRecord 4], .resume])) ∧
      (Sample.contextAfter (Sample.lostArray ++
        [Sample.packed [Sample.rawRecord 4], .resume])).progress =
        .crashed :=
  ⟨steps_of_obeys (by decide +kernel), rfl⟩

end Lcap.Proofs
