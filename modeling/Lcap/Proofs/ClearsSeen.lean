import Lcap.Proofs.RecordRoundTrip
import Lcap.Systems.History
import Lcap.Wire.Context

namespace Lcap.Proofs
open Systems Wire
open Client (PxRequest eoverflow_neg pack_hdr_op recvBufferLength)

/-- The records that the application has been given. -/
def returnedIn (tr : List PxEvent) : List (Option (List UInt8)) :=
  tr.filterMap fun
    | .returned rec => some rec
    | _ => none

/-- A CLEAR leaves when the application has been given each record of the last batch
that the server has sent. -/
def Seen (pre : List PxEvent) : PxEvent → Prop
  | .transmitted (.clear _ _ _) => ∀ a recs b, pre = a ++ .replied (.enqueue recs) :: b →
    (∀ recs', .replied (.enqueue recs') ∉ b) → recs.map some <+: returnedIn b
  | _ => True

/-- Nothing but these records is left to give of the last batch. -/
def Outstanding (tr : List PxEvent) (rest : List (Option (List UInt8))) : Prop :=
  ∀ a recs b, tr = a ++ .replied (.enqueue recs) :: b →
    (∀ recs', .replied (.enqueue recs') ∉ b) → recs.map some <+: returnedIn b ++ rest

theorem Outstanding.snoc (h : Outstanding tr rest) (he : ∀ recs, e ≠ .replied (.enqueue recs))
    (hrest : returnedIn [e] ++ rest' = rest ++ more) : Outstanding (tr ++ [e]) rest' := by
  intro a recs b hs hb
  rcases List.eq_nil_or_concat b with rfl | ⟨b, e', rfl⟩
  · exact absurd (List.append_inj' hs rfl).2 (by simpa using he recs)
  · rw [List.concat_eq_append] at hs hb ⊢
    rw [← List.cons_append, ← List.append_assoc] at hs
    obtain ⟨htr, he'⟩ := List.append_inj' hs rfl
    cases he'
    have hlast := h a recs b htr fun recs' hm => hb recs' (List.mem_append_left _ hm)
    have hsplit : returnedIn (b ++ [e]) ++ rest' = returnedIn b ++ rest ++ more := by
      rw [returnedIn, List.filterMap_append, List.append_assoc]
      exact (congrArg (returnedIn b ++ ·) hrest).trans (List.append_assoc _ _ _).symm
    rw [hsplit]
    exact hlast.trans (List.prefix_append _ _)

theorem Outstanding.quiet (h : Outstanding tr rest) (he : ∀ recs, e ≠ .replied (.enqueue recs))
    (hr : returnedIn [e] = []) : Outstanding (tr ++ [e]) rest :=
  h.snoc he (by rw [hr, List.nil_append, List.append_nil])

theorem Outstanding.returned (h : Outstanding tr (rec₁ :: rest)) :
    Outstanding (tr ++ [.returned rec₁]) rest :=
  h.snoc (fun _ he => nomatch he) (List.append_nil _).symm

/-- What is given beyond the last record of a batch takes nothing from it. -/
theorem Outstanding.beyond (h : Outstanding tr []) (rec₁ : Option (List UInt8)) :
    Outstanding (tr ++ [.returned rec₁]) [] :=
  h.snoc (fun _ he => nomatch he) (show [rec₁] ++ [] = [] ++ [rec₁] from rfl)

theorem Outstanding.replied (tr : List PxEvent) (recs : List (List UInt8)) :
    Outstanding (tr ++ [.replied (.enqueue recs)]) (recs.map some) := by
  intro a recs' b hs hb
  rcases List.eq_nil_or_concat b with rfl | ⟨b, e', rfl⟩
  · cases (List.append_inj' hs rfl).2
    exact List.prefix_refl _
  · rw [List.concat_eq_append] at hs hb
    rw [← List.cons_append, ← List.append_assoc] at hs
    cases (List.append_inj' hs rfl).2
    exact absurd (List.mem_append_right b List.mem_cons_self) (hb recs)

/-! ## What a cache has still to give -/

def remaining (L : RecLayout) (z : PxCache) : List (Option (List UInt8)) :=
  (((z.records.getD []).take z.recCnt).drop z.recNxt).map (recordBytes L z)

theorem remaining_nil {L : RecLayout} (h : z.recCnt ≤ z.recNxt) : remaining L z = [] := by
  rw [remaining, List.drop_eq_nil_of_le, List.map_nil]
  exact Nat.le_trans (List.length_take_le _ _) h

theorem remaining_next {L : RecLayout} (ha : z.records = some arr) (hp : arr[z.recNxt]? = some p)
    (hlt : z.recNxt < z.recCnt) :
    remaining L z = recordBytes L z p :: remaining L { z with recNxt := z.recNxt + 1 } := by
  have hget : (arr.take z.recCnt)[z.recNxt]? = some p := by
    rw [List.getElem?_take, if_pos hlt, hp]
  obtain ⟨hlen, hget⟩ := List.getElem?_eq_some_iff.mp hget
  simp only [remaining, ha, Option.getD_some]
  rw [List.drop_eq_getElem_cons hlen, hget, List.map_cons]
  rfl

/-- A record that is taken is the next of those that remain, if any do. -/
theorem take_next_drawn {L : RecLayout} (hroom : Room z) (hn : takeNext z = .ok (z', res)) :
    ∃ p, res = .record p ∧ Room z' ∧ ∀ tr, Outstanding tr (remaining L z) →
      Outstanding (tr ++ [.returned (recordBytes L z' p)]) (remaining L z') := by
  have hroom' := take_next_room hroom hn
  unfold takeNext at hn
  split at hn
  · cases hn
  rename_i arr ha
  split at hn
  · cases hn
  rename_i p hp
  cases hn
  refine ⟨p, rfl, hroom', fun tr h => ?_⟩
  by_cases hlt : z.recNxt < z.recCnt
  · rw [remaining_next ha hp hlt] at h
    exact h.returned
  · rw [remaining_nil (Nat.le_of_not_lt hlt)] at h
    rw [remaining_nil (Nat.le_succ_of_le (Nat.le_of_not_lt hlt))]
    exact h.beyond _

/-- A batch that has just been cached remains as a whole. -/
theorem filled_remaining {L : RecLayout} {m : Nat → UInt8} {recs : List (List UInt8)}
    (h : Filled L z m recs.length z')
    (hwalk : (walk (L.stepAt m) recs.length sizeofEnqueue).map
      (fun o => slice m o (L.stepAt m o)) = recs) :
    remaining L z' = recs.map some := by
  obtain ⟨rest, hrest⟩ := h.records
  have hlen : ((walk (L.stepAt m) recs.length sizeofEnqueue).map (Ptr.mk z.nextBuf)).length =
      recs.length := by rw [List.length_map, walk_length]
  have hmap := congrArg (List.map some) hwalk
  rw [List.map_map] at hmap
  rw [remaining, hrest, Option.getD_some, h.cnt, h.nxt, List.drop_zero,
    List.take_left' hlen, List.map_map]
  refine Eq.trans (List.map_congr_left fun o _ => ?_) hmap
  simp only [Function.comp_apply, recordBytes, h.heap, Option.map_some]

/-! ## How far a reply has been read -/

/-- A result that is not negative is that of the whole reply. -/
theorem rep_recv_read {buff : List UInt8}
    (h : clRepRecv bufflen io k buff reply = (bytes, rcvd, rest)) (hpos : ¬ rcvd < 0) :
    bytes = buff ++ reply.flatten ∧ rcvd = bytes.length ∧ rest = [] := by
  induction reply generalizing k buff with
  | nil =>
    cases h
    exact ⟨(List.append_nil _).symm, rfl, rfl⟩
  | cons frame frames ih =>
    unfold clRepRecv at h
    split at h
    · rename_i e _
      cases h
      exact absurd (errno_neg e) hpos
    split at h
    · cases h
      exact absurd eoverflow_neg hpos
    split at h
    · rename_i e _
      cases h
      exact absurd (errno_neg e) hpos
    · obtain ⟨hbytes, hrest⟩ := ih h
      exact ⟨by rw [hbytes, List.append_assoc, List.flatten_cons], hrest⟩

/-- The whole reply has then been received, and fits. -/
theorem rep_recv_whole {io : Nat → RepIo} {buff : List UInt8} (hbuff : buff.length ≤ bufflen)
    (h : ¬ (clRepRecv bufflen io k buff reply).2.1 < 0) :
    (∀ i < reply.length, (io (k + i)).recv = none ∧ (io (k + i)).getsockopt = none) ∧
      buff.length + reply.flatten.length ≤ bufflen := by
  induction reply generalizing k buff with
  | nil => exact ⟨fun i hi => absurd hi (Nat.not_lt_zero i), by simpa using hbuff⟩
  | cons frame rest ih =>
    unfold clRepRecv at h
    split at h
    · exact absurd (errno_neg _) h
    rename_i hrecv
    split at h
    · exact absurd eoverflow_neg h
    rename_i hroom
    split at h
    · exact absurd (errno_neg _) h
    rename_i hmore
    have hbuff' : (buff ++ frame).length ≤ bufflen := by
      rw [List.length_append]
      omega
    obtain ⟨hio, hfit⟩ := ih hbuff' h
    refine ⟨?_, ?_⟩
    · intro i hi
      cases i with
      | zero => exact ⟨hrecv, hmore⟩
      | succ i =>
        rw [← Nat.add_assoc, Nat.add_right_comm]
        exact hio i (Nat.lt_of_succ_lt_succ hi)
    · rw [List.length_append] at hfit
      rw [List.flatten_cons, List.length_append]
      omega

/-- No frame of the reply stays in the socket: only the last of them may be too long,
or be followed by a failure. -/
def ReadOff (bufflen : Nat) (io : Nat → RepIo) (frames : Parts UInt8) : Prop :=
  (∀ k < frames.length, (io k).recv = none) ∧ (∀ k < frames.length - 1, (io k).getsockopt = none) ∧
    frames.dropLast.flatten.length ≤ bufflen

theorem rep_recv_to_end {buff : List UInt8} (hbuff : buff.length ≤ bufflen) (hne : frames ≠ [])
    (h : (clRepRecv bufflen io k buff frames).2.2 = []) :
    (∀ i < frames.length, (io (k + i)).recv = none) ∧
      (∀ i < frames.length - 1, (io (k + i)).getsockopt = none) ∧
      buff.length + frames.dropLast.flatten.length ≤ bufflen := by
  induction frames generalizing k buff with
  | nil => exact absurd rfl hne
  | cons frame rest ih =>
    unfold clRepRecv at h
    split at h
    · cases h
    rename_i hrecv
    -- The last frame has only to be received.
    have hlast : rest = [] → (∀ i < (frame :: rest).length, (io (k + i)).recv = none) ∧
        (∀ i < (frame :: rest).length - 1, (io (k + i)).getsockopt = none) ∧
        buff.length + (frame :: rest).dropLast.flatten.length ≤ bufflen := by
      rintro rfl
      refine ⟨fun i hi => ?_, fun i hi => absurd hi (Nat.not_lt_zero i), hbuff⟩
      rw [Nat.lt_one_iff.mp hi]
      exact hrecv
    split at h
    · exact hlast h
    rename_i hroom
    split at h
    · exact hlast h
    rename_i hmore
    by_cases hrest : rest = []
    · exact hlast hrest
    have hbuff' : (buff ++ frame).length ≤ bufflen := by
      rw [List.length_append]
      omega
    obtain ⟨h1, h2, h3⟩ := ih hbuff' hrest h
    refine ⟨fun i hi => ?_, fun i hi => ?_, ?_⟩
    · cases i with
      | zero => exact hrecv
      | succ i =>
        rw [← Nat.add_assoc, Nat.add_right_comm]
        exact h1 i (Nat.lt_of_succ_lt_succ hi)
    · cases i with
      | zero => exact hmore
      | succ i =>
        rw [← Nat.add_assoc, Nat.add_right_comm]
        simp only [List.length_cons] at hi
        exact h2 i (by omega)
    · rw [List.dropLast_cons_of_ne_nil hrest, List.flatten_cons, List.length_append,
        ← Nat.add_assoc, ← List.length_append]
      exact h3

/-- A reply that is not an ENQUEUE message, or has not been received to its last frame,
leaves the cache as it is. -/
theorem handle_reply_kept {L : RecLayout} (h : handleReply L io z reply = .ok (z', rc))
    (hno : leField reply.flatten 0 4 ≠ RpcOpType.enqueue.code ∨
      reply.flatten.length < sizeofEnqueue + L.sizeofRec ∨
      (clRepRecv recvBufferLength io.frame 0 [] reply).2.2 ≠ []) :
    z'.recNxt = z.recNxt ∧ z'.recCnt = z.recCnt ∧ z'.records = z.records := by
  unfold handleReply at h
  simp only at h
  split at h
  · cases h; exact ⟨rfl, rfl, rfl⟩
  rename_i hpos
  obtain ⟨hbytes, hrcvd, hrest⟩ := rep_recv_read rfl hpos
  split at h
  · cases h; exact ⟨rfl, rfl, rfl⟩
  split at h
  · split at h
    · cases h; exact ⟨rfl, rfl, rfl⟩
    split at h
    · cases h; exact ⟨rfl, rfl, rfl⟩
    · cases h; exact ⟨rfl, rfl, rfl⟩
  · rename_i hop
    split at h
    · cases h; exact ⟨rfl, rfl, rfl⟩
    rename_i hlong
    rw [hrcvd, hbytes] at hlong
    rw [hbytes] at hop
    rcases hno with hne | hshort | hleft
    · exact absurd (code_of_rpc_op_type hop) hne
    · rw [List.nil_append] at hlong
      omega
    · exact absurd hrest hleft
  · cases h; exact ⟨rfl, rfl, rfl⟩

/-! ## One step of a context -/

/-- The reply is cached: nothing fails behind its last frame, it fits the buffer, and
the array is grown if it has to be. -/
def Kept (io : DequeueIo) (z : PxCache) (recs : List (List UInt8)) (frames : Parts UInt8) : Prop :=
  (∀ k < frames.length, (io.frame k).getsockopt = none) ∧ frames.flatten.length ≤ recvBufferLength ∧
    (z.recCnt < recs.length → io.grow = true)

def KeptIfRead (z : PxCache) : Progress → ReqSocket → Prop
  | .waiting io .dequeue, .arrived (.enqueue recs) frames =>
    recs ≠ [] → ReadOff recvBufferLength io.frame frames → Kept io z recs frames
  | _, _ => True

/-- A batch that has been read off the socket is cached. -/
def Accepted (x : PxContext) : PxMove → Prop
  | .resume => KeptIfRead x.cache x.progress x.sock
  | _ => True

instance (bufflen : Nat) (io : Nat → RepIo) (frames : Parts UInt8) :
    Decidable (ReadOff bufflen io frames) :=
  inferInstanceAs (Decidable (_ ∧ _ ∧ _))

instance (io : DequeueIo) (z : PxCache) (recs : List (List UInt8)) (frames : Parts UInt8) :
    Decidable (Kept io z recs frames) :=
  inferInstanceAs (Decidable (_ ∧ _ ∧ (_ → _)))

instance (z : PxCache) : (p : Progress) → (sock : ReqSocket) → Decidable (KeptIfRead z p sock)
  | .waiting _ .dequeue, .arrived (.enqueue _) _ => inferInstanceAs (Decidable (_ → _ → _))
  | .waiting _ .dequeue, .arrived (.ack _) _ | .waiting _ .dequeue, .ready
  | .waiting _ .dequeue, .owed _ | .waiting _ (.start _ _ _), _ | .waiting _ (.clear _ _ _), _
  | .running, _ | .crashed, _ => .isTrue trivial

instance (x : PxContext) : (l : PxMove) → Decidable (Accepted x l)
  | .resume => inferInstanceAs (Decidable (KeptIfRead _ _ _))
  | .recv _ | .free | .clear _ _ _ _ | .reply _ _ | .interrupt _ => .isTrue trivial

/-- What is left to give once the reply has been received. -/
def leftBy (L : RecLayout) (z : PxCache) : ServerReply → List (Option (List UInt8))
  | .ack _ => remaining L z
  | .enqueue recs => recs.map some

/-- The reply to a request waits in the socket, in all its frames. -/
structure Arrived (L : RecLayout) (x : PxContext) (req : PxRequest) (msg : ServerReply)
    (frames : Parts UInt8) : Prop where
  sock : x.sock = .arrived msg frames
  answers : msg.Answers L req
  ne_nil : frames ≠ []
  bytes : frames.flatten = msg.pack
  outstanding : Outstanding x.trace (leftBy L x.cache msg)

/-- Unless a reply waits in the socket, nothing of the last batch is outstanding but
what the cache has still to give. -/
structure InHand (L : RecLayout) (x : PxContext) : Prop where
  room : Room x.cache
  settled : (∀ msg frames, x.sock ≠ .arrived msg frames) → Outstanding x.trace (remaining L x.cache)
  asked : ∀ io req, x.progress = .waiting io req →
    x.sock = .owed req ∨ ∃ msg frames, Arrived L x req msg frames

/-- The clears so far, and the batch at hand. -/
def Honest (L : RecLayout) (x : PxContext) : Prop :=
  Justified Seen x.trace ∧ (x.progress = .crashed ∨ InHand L x)

section
variable {L : RecLayout} {x y : PxContext} {z z' : PxCache} {io : DequeueIo}

theorem init_honest : Honest L (pxContext L).init :=
  ⟨Justified.nil, .inr ⟨⟨_, rfl, Nat.zero_le _⟩,
    fun _ a recs b hs => absurd hs (by simp [pxContext]), fun _ _ h => nomatch h⟩⟩

/-- What `px_changelog_recv` makes of the outcome of a reply. -/
def afterReply : Except Crash (PxCache × Int) → Except Crash (PxCache × Wire.Received)
  | .error c => .error c
  | .ok (z, rc) => if rc ≠ 0 then .ok (z, .code rc) else takeNext z

theorem recv_cases (L : RecLayout) (io : DequeueIo) (z : PxCache) :
    (z.recNxt ≠ z.recCnt ∧ pxChangelogRecv L io z = .ret (takeNext z)) ∨
      z.recNxt = z.recCnt ∧ ((∃ rc, pxChangelogRecv L io z = .ret (.ok (z, .code rc))) ∨
        io.send = none ∧ ((∃ rc, pxChangelogRecv L io z = .leave (.ok (z, .code rc))) ∨
          io.alloc = true ∧
            pxChangelogRecv L io z = .ask fun reply => afterReply (handleReply L io z reply))) := by
  by_cases hempty : z.recNxt = z.recCnt
  · simp only [pxChangelogRecv, pxDequeueRecords, if_pos hempty]
    refine .inr ⟨hempty, ?_⟩
    cases hsend : io.send with
    | some e =>
      have hrc : -(e.val : Int) ≠ 0 := Int.ne_of_lt (errno_neg e)
      exact .inl ⟨-(e.val : Int), by simp only [Dequeue.map, if_pos hrc]⟩
    | none =>
      refine .inr ⟨rfl, ?_⟩
      cases io.alloc with
      | false =>
        have hrc : -ENOMEM ≠ 0 := Int.ne_of_lt enomem_neg
        exact .inl ⟨-ENOMEM, by simp only [Bool.false_eq_true, if_false, Dequeue.map, if_pos hrc]⟩
      | true => exact .inr ⟨rfl, rfl⟩
  · exact .inl ⟨hempty, by simp only [pxChangelogRecv, if_neg hempty]⟩

theorem clear_cases (z : PxCache) (io : DequeueIo) :
    (∃ rc, pxChangelogClear z io = .ret rc) ∨
      z.recCnt ≤ z.recNxt ∧ io.send = none ∧ pxChangelogClear z io = .ask (clAckRetcode io) := by
  unfold pxChangelogClear
  split
  · exact .inl ⟨_, rfl⟩
  rename_i hle
  split
  · exact .inl ⟨_, rfl⟩
  split
  · exact .inl ⟨_, rfl⟩
  · exact .inr ⟨Nat.le_of_not_lt hle, ‹_›, rfl⟩

/-- The call that waits goes on: a DEQUEUE with the reply, another one with its code. -/
theorem resume_cases (hs : x.resume L io req frames = some y) :
    (req = .dequeue ∧ x.cache.recNxt = x.cache.recCnt ∧
      y = x.finish L (afterReply (handleReply L io x.cache frames))) ∨
    (req ≠ .dequeue ∧ y = { x with progress := .running }) := by
  unfold PxContext.resume at hs
  split at hs
  · rcases recv_cases L io x.cache with
      ⟨_, htake⟩ | ⟨hempty, ⟨rc, hcode⟩ | ⟨_, ⟨rc, hleave⟩ | ⟨_, hask⟩⟩⟩
    · simp only [htake] at hs; cases hs
    · simp only [hcode] at hs; cases hs
    · simp only [hleave] at hs; cases hs
    · simp only [hask] at hs
      cases hs
      exact .inl ⟨rfl, hempty, rfl⟩
  · rename_i hreq
    cases hs
    exact .inr ⟨hreq, rfl⟩

/-- What a step of a context can be. -/
inductive ContextMoved (L : RecLayout) (x : PxContext) : PxMove → PxContext → Prop
  | recv {io : DequeueIo} (hrun : x.progress = .running) : ContextMoved L x (.recv io) (x.recv L io)
  | free (hrun : x.progress = .running) :
    ContextMoved L x .free { x with cache := pxChangelogFree x.cache }
  | clear {mdtname id : List UInt8} {io : DequeueIo} (hrun : x.progress = .running) :
    ContextMoved L x (.clear mdtname id endrec io) (x.clear (.clear mdtname id endrec) io)
  | reply (hsock : x.sock = .owed req) (hans : msg.Answers L req) (hne : frames ≠ [])
    (hbytes : frames.flatten = msg.pack) : ContextMoved L x (.reply msg frames)
      { x with sock := .arrived msg frames, trace := x.trace ++ [.replied msg] }
  | received {io : DequeueIo} (hwait : x.progress = .waiting io .dequeue)
      (hsock : x.sock = .arrived msg frames)
    (hempty : x.cache.recNxt = x.cache.recCnt) : ContextMoved L x .resume
      (({ x with sock := .left msg (clRepRecv recvBufferLength io.frame 0 [] frames).2.2 } :
        PxContext).finish L (afterReply (handleReply L io x.cache frames)))
  | answered {io : DequeueIo} (hwait : x.progress = .waiting io req) (hreq : req ≠ .dequeue)
    (hsock : x.sock = .arrived msg frames) : ContextMoved L x .resume
      { x with
        sock := .left msg (clRepRecv (replyBufflen req) io.frame 0 [] frames).2.2,
          progress := .running }
  | broken {io : DequeueIo} (hwait : x.progress = .waiting io .dequeue) (hsock : x.sock = .owed req)
    (hempty : x.cache.recNxt = x.cache.recCnt) : ContextMoved L x (.interrupt e)
      (x.finish L
        (afterReply (handleReply L { io with frame := fun _ => { recv := some e } } x.cache [[]])))
  | unanswered {io : DequeueIo} (hwait : x.progress = .waiting io req) (hreq : req ≠ .dequeue)
    (hsock : x.sock = .owed req') : ContextMoved L x (.interrupt e) { x with progress := .running }

theorem context_moved (hs : pxContextStep L x l = some y) : ContextMoved L x l y := by
  cases l with
  | recv io =>
    simp only [pxContextStep] at hs
    split at hs
    · cases hs
      exact .recv ‹_›
    · cases hs
  | free =>
    simp only [pxContextStep] at hs
    split at hs
    · cases hs
      exact .free ‹_›
    · cases hs
  | clear mdtname id endrec io =>
    simp only [pxContextStep] at hs
    split at hs
    · cases hs
      exact .clear ‹_›
    · cases hs
  | reply msg frames =>
    simp only [pxContextStep] at hs
    split at hs
    · split at hs
      · rename_i hsock hok
        cases hs
        exact .reply hsock hok.1 hok.2.1 hok.2.2
      · cases hs
    · cases hs
  | resume =>
    simp only [pxContextStep] at hs
    split at hs
    · rename_i io req msg frames hwait hsock
      rcases resume_cases hs with ⟨rfl, hempty, rfl⟩ | ⟨hreq, rfl⟩
      · exact .received hwait hsock hempty
      · exact .answered hwait hreq hsock
    · cases hs
  | interrupt e =>
    simp only [pxContextStep] at hs
    split at hs
    · rename_i io req _ hwait hsock
      rcases resume_cases hs with ⟨rfl, hempty, rfl⟩ | ⟨hreq, rfl⟩
      · exact .broken hwait hsock hempty
      · exact .unanswered hwait hreq hsock
    · cases hs

/-- A request leaves only through a socket that owes nothing. -/
theorem gate_ready {sock : ReqSocket} (h : (sock.gate io).send = none) : sock = .ready := by
  by_contra hne
  rw [ReqSocket.gate, if_neg hne] at h
  cases h

/-- A call that ends with a code, or with the next record of its cache. -/
theorem finish_honest {res : Except Crash (PxCache × Wire.Received)} (hj : Justified Seen x.trace)
    (hres : res = takeNext z ∨ ∃ rc, res = .ok (z, .code rc)) (hroom : Room z)
    (hout : (∀ msg frames, x.sock ≠ .arrived msg frames) → Outstanding x.trace (remaining L z)) :
    Honest L (x.finish L res) := by
  rcases hres with rfl | ⟨rc, rfl⟩
  · cases hn : takeNext z with
    | error c => exact ⟨hj, .inl rfl⟩
    | ok taken =>
      obtain ⟨z', res⟩ := taken
      obtain ⟨p, rfl, hroom', hdrawn⟩ := take_next_drawn (L := L) hroom hn
      exact ⟨hj.snoc trivial,
        .inr ⟨hroom', fun hsock => hdrawn x.trace (hout hsock), fun _ _ h => nomatch h⟩⟩
  · exact ⟨hj, .inr ⟨hroom, hout, fun _ _ h => nomatch h⟩⟩

theorem InHand.recv (h : InHand L x) (hj : Justified Seen x.trace) (io : DequeueIo) :
    Honest L (x.recv L io) := by
  have hquiet : Outstanding x.trace (remaining L x.cache) →
      Outstanding (x.trace ++ [.transmitted .dequeue]) (remaining L x.cache) :=
    fun h => h.quiet (fun _ he => nomatch he) rfl
  rcases recv_cases L (x.sock.gate io) x.cache with
    ⟨_, htake⟩ | ⟨_, ⟨rc, hcode⟩ | ⟨hsend, ⟨rc, hleave⟩ | ⟨_, hask⟩⟩⟩
  · rw [PxContext.recv, htake]
    exact finish_honest hj (.inl rfl) h.room h.settled
  · rw [PxContext.recv, hcode]
    exact finish_honest hj (.inr ⟨rc, rfl⟩) h.room h.settled
  · have hready := h.settled fun msg frames hs => nomatch (gate_ready hsend).symm.trans hs
    rw [PxContext.recv, hleave]
    exact finish_honest (x := x.transmit .dequeue) (hj.snoc trivial) (.inr ⟨rc, rfl⟩) h.room
      fun _ => hquiet hready
  · have hready := h.settled fun msg frames hs => nomatch (gate_ready hsend).symm.trans hs
    rw [PxContext.recv, hask]
    refine ⟨hj.snoc trivial, .inr ⟨h.room, fun _ => hquiet hready, fun io' req he => ?_⟩⟩
    cases he
    exact .inl rfl

/-- A CLEAR is sent from a cache that has nothing more to give. -/
theorem InHand.clear (h : InHand L x) (hj : Justified Seen x.trace)
    (mdtname id : List UInt8) (endrec : Int) (io : DequeueIo) :
    Honest L (x.clear (.clear mdtname id endrec) io) := by
  rcases clear_cases x.cache (x.sock.gate io) with ⟨rc, hret⟩ | ⟨hle, hsend, hask⟩
  · rw [PxContext.clear, hret]
    exact ⟨hj, .inr h⟩
  · have hready := h.settled fun msg frames hs => nomatch (gate_ready hsend).symm.trans hs
    have hseen : Seen x.trace (.transmitted (.clear mdtname id endrec)) := by
      intro a recs b hs hb
      have hgiven := hready a recs b hs hb
      rwa [remaining_nil hle, List.append_nil] at hgiven
    rw [PxContext.clear, hask]
    refine ⟨hj.snoc hseen, .inr ⟨h.room, fun _ => ?_, fun io' req he => ?_⟩⟩
    · exact hready.quiet (fun _ he => nomatch he) rfl
    · cases he
      exact .inl rfl

theorem free_remaining (L : RecLayout) (z : PxCache) : (pxChangelogFree z).records = z.records ∧
    (pxChangelogFree z).recNxt = z.recNxt ∧ (pxChangelogFree z).recCnt = z.recCnt ∧
    remaining L (pxChangelogFree z) = remaining L z := by
  unfold pxChangelogFree
  split
  · rename_i hend
    split
    · exact ⟨rfl, rfl, rfl, rfl⟩
    · refine ⟨rfl, rfl, rfl, ?_⟩
      rw [remaining_nil (Nat.le_of_eq hend.symm), remaining_nil]
      exact Nat.le_of_eq hend.symm
  · exact ⟨rfl, rfl, rfl, rfl⟩

theorem InHand.free (h : InHand L x) (hj : Justified Seen x.trace) (hrun : x.progress = .running) :
    Honest L { x with cache := pxChangelogFree x.cache } := by
  obtain ⟨hrec, _, hcnt, hrem⟩ := free_remaining L x.cache
  refine ⟨hj, .inr ⟨h.room.congr hrec hcnt, fun hsock => ?_, fun io req he => ?_⟩⟩
  · exact hrem ▸ h.settled hsock
  · exact nomatch hrun.symm.trans he

theorem InHand.reply (h : InHand L x) (hj : Justified Seen x.trace) (hsock : x.sock = .owed req)
    (hans : msg.Answers L req) (hne : frames ≠ []) (hbytes : frames.flatten = msg.pack) :
    Honest L { x with sock := .arrived msg frames, trace := x.trace ++ [.replied msg] } := by
  refine ⟨hj.snoc trivial, .inr ⟨h.room, fun hs => absurd rfl (hs msg frames),
    fun io req' he => ?_⟩⟩
  have hreq : req' = req := by
    rcases h.asked io req' he with ho | ⟨msg', frames', harr⟩
    · exact ReqSocket.owed.inj (ho.symm.trans hsock)
    · exact nomatch hsock.symm.trans harr.sock
  subst hreq
  refine .inr ⟨msg, frames, rfl, hans, hne, hbytes, ?_⟩
  cases msg with
  | ack rc =>
    have hout := h.settled fun msg frames hs => nomatch hsock.symm.trans hs
    exact hout.quiet (fun _ he => nomatch he) rfl
  | enqueue recs => exact Outstanding.replied x.trace recs

/-- The cache after a reply has exactly what is left of it, once the socket has nothing
more of it. -/
theorem reply_handled (hroom : Room z) (hempty : z.recNxt = z.recCnt)
    (hans : msg.Answers L .dequeue) (hne : frames ≠ []) (hbytes : frames.flatten = msg.pack)
    (hout : Outstanding tr (leftBy L z msg))
    (hkept : ∀ recs, msg = .enqueue recs → recs ≠ [] → ReadOff recvBufferLength io.frame frames →
      Kept io z recs frames)
    (hr : handleReply L io z frames = .ok (z', rc)) :
    Room z' ∧ ((clRepRecv recvBufferLength io.frame 0 [] frames).2.2 = [] →
      Outstanding tr (remaining L z')) := by
  have hsame : z'.recNxt = z.recNxt ∧ z'.recCnt = z.recCnt ∧ z'.records = z.records →
      Room z' ∧ remaining L z' = [] ∧ remaining L z = [] := by
    rintro ⟨hnxt, hcnt, hrec⟩
    exact ⟨hroom.congr hrec hcnt, remaining_nil (by omega), remaining_nil (by omega)⟩
  by_cases hleft : (clRepRecv recvBufferLength io.frame 0 [] frames).2.2 = []
  · cases msg with
    | ack ret =>
      have hop : leField frames.flatten 0 4 = RpcOpType.ack.code := by
        rw [hbytes]
        exact pack_hdr_op .ack _
      have hkeep := handle_reply_kept hr (.inl (by rw [hop]; decide))
      obtain ⟨hroom', hnil', hnil⟩ := hsame hkeep
      refine ⟨hroom', fun _ => ?_⟩
      rw [hnil', ← hnil]
      exact hout
    | enqueue recs =>
      have hbytes : frames.flatten = packRecords recs := hbytes
      by_cases hnil : recs = []
      · subst hnil
        have hshort : frames.flatten.length < sizeofEnqueue + L.sizeofRec := by
          rw [hbytes, pack_records_length]
          exact Nat.add_lt_add_left L.sizeofRec_pos sizeofEnqueue
        obtain ⟨hroom', hnil', _⟩ := hsame (handle_reply_kept hr (.inr (.inl hshort)))
        refine ⟨hroom', fun _ => ?_⟩
        rw [hnil']
        exact hout
      · have hread := rep_recv_to_end (Nat.zero_le recvBufferLength) hne hleft
        simp only [Nat.zero_add, List.length_nil] at hread
        obtain ⟨hmore, hfit, hgrow⟩ := hkept recs rfl hnil hread
        have hrecv := @rep_recv_all recvBufferLength io.frame 0 [] frames
          (fun i hi => by rw [Nat.zero_add]; exact ⟨hread.1 i hi, hmore i hi⟩) (by simpa using hfit)
        rw [List.nil_append, hbytes] at hrecv
        rw [hbytes] at hfit
        obtain ⟨z₁, hcached, hfilled⟩ := handle_batch hans.2 hnil hfit hrecv hroom hgrow
        cases hcached.symm.trans hr
        obtain ⟨rest, hrest⟩ := hfilled.records
        refine ⟨⟨_, hrest, ?_⟩, fun _ => ?_⟩
        · rw [hfilled.cnt, List.length_append, List.length_map, walk_length]
          exact Nat.le_add_right _ _
        · rw [filled_remaining hfilled (walk_records io.garbage hans.2)]
          exact hout
  · exact ⟨(hsame (handle_reply_kept hr (.inr (.inr hleft)))).1, fun h => absurd h hleft⟩

theorem left_ready {msg : ServerReply} {frames : Parts UInt8}
    (h : ∀ msg' frames', ReqSocket.left msg frames ≠ .arrived msg' frames') : frames = [] := by
  cases frames with
  | nil => rfl
  | cons frame rest => exact absurd rfl (h msg (frame :: rest))

/-- The reply that waits in the socket is the one to the request that was sent. -/
theorem InHand.arrived (h : InHand L x) (hwait : x.progress = .waiting io req)
    (hsock : x.sock = .arrived msg frames) : Arrived L x req msg frames := by
  obtain ho | ⟨msg', frames', harr⟩ := h.asked io req hwait
  · exact nomatch ho.symm.trans hsock
  · cases harr.sock.symm.trans hsock
    exact harr

theorem InHand.received (h : InHand L x) (hj : Justified Seen x.trace) (hacc : Accepted x .resume)
    (hwait : x.progress = .waiting io .dequeue) (hsock : x.sock = .arrived msg frames)
    (hempty : x.cache.recNxt = x.cache.recCnt) :
    Honest L (({ x with
        sock := .left msg (clRepRecv recvBufferLength io.frame 0 [] frames).2.2 } :
          PxContext).finish
      L (afterReply (handleReply L io x.cache frames))) := by
  have harr := h.arrived hwait hsock
  cases hr : handleReply L io x.cache frames with
  | error c => exact ⟨hj, .inl rfl⟩
  | ok res =>
    obtain ⟨z', rc⟩ := res
    have hkept : ∀ recs, msg = .enqueue recs → recs ≠ [] →
        ReadOff recvBufferLength io.frame frames →
        Kept io x.cache recs frames := by
      rintro recs rfl
      simpa only [Accepted, KeptIfRead, hwait, hsock] using hacc
    obtain ⟨hroom, hout⟩ :=
      reply_handled h.room hempty harr.answers harr.ne_nil harr.bytes harr.outstanding hkept hr
    refine finish_honest hj ?_ hroom fun hready => hout (left_ready hready)
    by_cases hrc : rc = 0
    · exact .inl (by rw [afterReply, if_neg (not_not.mpr hrc)])
    · exact .inr ⟨rc, by rw [afterReply, if_pos hrc]⟩

/-- The answer to a CLEAR carries no records. -/
theorem InHand.answered (h : InHand L x) (hj : Justified Seen x.trace)
    (hwait : x.progress = .waiting io req) (hreq : req ≠ .dequeue)
    (hsock : x.sock = .arrived msg frames) :
    Honest L { x with sock := .left msg rest, progress := .running } := by
  have harr := h.arrived hwait hsock
  have hout := harr.outstanding
  refine ⟨hj, .inr ⟨h.room, fun _ => ?_, fun _ _ h => nomatch h⟩⟩
  cases hm : msg with
  | ack rc =>
    rw [hm] at hout
    exact hout
  | enqueue recs =>
    have hans := harr.answers
    rw [hm] at hans
    exact absurd hans.1 hreq

theorem InHand.owed (h : InHand L x) (hsock : x.sock = .owed req) :
    Outstanding x.trace (remaining L x.cache) := by
  refine h.settled fun msg frames hs => ?_
  cases hsock.symm.trans hs

theorem InHand.broken (h : InHand L x) (hj : Justified Seen x.trace) (hsock : x.sock = .owed req)
    (hempty : x.cache.recNxt = x.cache.recCnt) : Honest L (x.finish L
      (afterReply (handleReply L { io with frame := fun _ => { recv := some e } }
        x.cache [[]]))) := by
  have hr : handleReply L { io with frame := fun _ => { recv := some e } } x.cache [[]] =
      .ok ((x.cache.malloc (laid [] io.garbage)).free x.cache.nextBuf, -(e.val : Int)) := by
    have hrecv : clRepRecv recvBufferLength (fun _ => { recv := some e }) 0 [] [[]] =
        ([], -(e.val : Int), [[]]) := rfl
    simp only [handleReply, hrecv]
    rw [if_pos (errno_neg e)]
  have hout := h.owed hsock
  rw [hr, afterReply, if_pos (Int.ne_of_lt (errno_neg e))]
  refine finish_honest hj (.inr ⟨_, rfl⟩) (h.room.congr rfl rfl) fun _ => ?_
  have hnil : remaining L ((x.cache.malloc (laid [] io.garbage)).free x.cache.nextBuf) = [] :=
    remaining_nil (Nat.le_of_eq hempty.symm)
  rw [remaining_nil (Nat.le_of_eq hempty.symm)] at hout
  rw [hnil]
  exact hout

theorem InHand.unanswered (h : InHand L x) (hj : Justified Seen x.trace)
    (hsock : x.sock = .owed req) :
    Honest L { x with progress := .running } := by
  refine ⟨hj, .inr ⟨h.room, fun _ => h.owed hsock, ?_⟩⟩
  intro io req h
  cases h

/-- Nothing but a late reply happens after a crash. -/
theorem crashed_honest (hj : Justified Seen x.trace) (hcrash : x.progress = .crashed)
    (hs : ContextMoved L x l y) : Honest L y := by
  cases hs with
  | reply hsock hans hne hbytes => exact ⟨hj.snoc trivial, .inl hcrash⟩
  | recv hrun | free hrun | clear hrun => exact nomatch hcrash.symm.trans hrun
  | received hwait _ _ | answered hwait _ _ | broken hwait _ _ | unanswered hwait _ _ =>
    exact nomatch hcrash.symm.trans hwait

theorem step_honest (h : Honest L x) (hacc : Accepted x l) (hs : pxContextStep L x l = some y) :
    Honest L y := by
  obtain ⟨hj, hcrash | hhand⟩ := h
  · exact crashed_honest hj hcrash (context_moved hs)
  · cases context_moved hs with
    | recv => exact hhand.recv hj _
    | free hrun => exact hhand.free hj hrun
    | clear => exact hhand.clear hj _ _ _ _
    | reply hsock hans hne hbytes => exact hhand.reply hj hsock hans hne hbytes
    | received hwait hsock hempty => exact hhand.received hj hacc hwait hsock hempty
    | answered hwait hreq hsock => exact hhand.answered hj hwait hreq hsock
    | broken hwait hsock hempty => exact hhand.broken hj hsock hempty
    | unanswered hwait hreq hsock => exact hhand.unanswered hj hsock

/-- As long as every batch that is read off the socket is cached, a CLEAR is sent only
when the application has been given the whole last batch. -/
theorem clears_follow_receipt (h : Reach (pxContext L) Accepted x) : Justified Seen x.trace :=
  (h.preserve init_honest fun _ _ _ hh hacc hs => step_honest hh hacc hs).1

end

namespace Sample

/-- A batch of one record is asked for and received, and cleared whatever came of it. -/
def batchAndClear (io : DequeueIo) : List PxMove :=
  [.recv io, .reply (.enqueue [rawRecord 1]) [(ServerReply.enqueue [rawRecord 1]).pack], .resume,
    .clear [] [] 1 {}]

def afterClear (io : DequeueIo) : PxContext :=
  replay (pxContext layout) (pxContext layout).init (batchAndClear io)

end Sample

set_option maxRecDepth 2000 in
theorem clears_follow_receipt_one : Justified Seen (Sample.afterClear {}).trace :=
  clears_follow_receipt (L := Sample.layout) (steps_of_obeys (by decide +kernel))

set_option maxRecDepth 2000 in
/-- After a failed `realloc` both counters are as they were, and the batch is cleared
though none of it has been given to the application. -/
theorem lost_batch_cleared :
    ∃ x, Reach (pxContext Sample.layout) Always x ∧ ¬ Justified Seen x.trace := by
  refine ⟨Sample.afterClear { grow := false }, steps_of_obeys (by decide +kernel), fun h => ?_⟩
  have htr : (Sample.afterClear { grow := false }).trace = [.transmitted .dequeue,
      .replied (.enqueue [Sample.rawRecord 1])] ++ .transmitted (.clear [] [] 1) :: [] := by
    decide +kernel
  have hseen := h _ _ _ htr [.transmitted .dequeue] [Sample.rawRecord 1] [] rfl (by simp)
  simp [returnedIn] at hseen

end Lcap.Proofs
