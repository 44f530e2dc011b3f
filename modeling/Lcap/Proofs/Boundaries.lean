import Lcap.Net.Queue
import Lcap.Proofs.Framing

namespace Lcap.Proofs
open Net Systems

/-- The handler got one whole message, from its first frame on. -/
def Whole (inv : Invocation) : Prop :=
  inv.source.taken = 0 ∧
    inv.req = recompose (hasFlag inv.flags lcapRecvNoEnvelope) inv.source.message

/-- The frame cannot be received, or finds no memory. -/
def FrameFails (io : FrameIo) (frame : List UInt8) : Prop :=
  io.init ≠ none ∨ io.recv ≠ none ∨ (io.alloc = false ∧ frame ≠ [])

instance (io : FrameIo) (frame : List UInt8) : Decidable (FrameFails io frame) :=
  inferInstanceAs (Decidable (_ ∨ _ ∨ _))

/-- One of the frames fails. -/
def FramesFail (io : Nat → FrameIo) : Nat → Parts UInt8 → Prop
  | _, [] => False
  | k, frame :: rest => FrameFails (io k) frame ∨ FramesFail io (k + 1) rest

instance : ∀ (io : Nat → FrameIo) (k : Nat) (parts : Parts UInt8), Decidable (FramesFail io k parts)
  | _, _, [] => isFalse id
  | io, k, frame :: rest =>
    have := instDecidableFramesFail io (k + 1) rest
    inferInstanceAs (Decidable (FrameFails (io k) frame ∨ FramesFail io (k + 1) rest))

/-- No call takes the rest of an abandoned message for a request: what is left has no
body when its roles are assigned anew, or this call fails as well. -/
def NoLeftover (x : Socket) : SocketMove → Prop
  | .arrive _ => True
  | .receive flags reqAlloc io _ => ∀ q ∈ x.inbox.head?, 0 < q.taken →
    (recompose (hasFlag flags lcapRecvNoEnvelope) q.rest).lrBody = [] ∨ reqAlloc = false ∨
      FramesFail io 0 q.rest

instance : ∀ (x : Socket) (move : SocketMove), Decidable (NoLeftover x move)
  | _, .arrive _ => isTrue trivial
  | x, .receive flags reqAlloc io _ =>
    inferInstanceAs (Decidable (∀ q ∈ x.inbox.head?, 0 < q.taken →
      (recompose (hasFlag flags lcapRecvNoEnvelope) q.rest).lrBody = [] ∨ reqAlloc = false ∨
        FramesFail io 0 q.rest))

/-! ## The loop over the frames -/

theorem update_fails (h : alloc = false ∧ frame ≠ []) (req : NetRequest) :
    (lcapnetReqUpdate req frame alloc).2 < 0 := by
  obtain ⟨rfl, hne⟩ := h
  unfold lcapnetReqUpdate
  rw [if_neg hne]
  split
  · exact enomem_neg
  split
  · exact enomem_neg
  · exact enomem_neg

theorem update_works (h : ¬ (alloc = false ∧ frame ≠ [])) (req : NetRequest) :
    lcapnetReqUpdate req frame alloc = (absorb req frame, 0) := by
  have hsame : lcapnetReqUpdate req frame alloc = lcapnetReqUpdate req frame true := by
    by_cases hf : frame = []
    · simp [lcapnetReqUpdate, hf]
    · have ha : alloc = true := by
        cases alloc with
        | true => rfl
        | false => exact absurd ⟨rfl, hf⟩ h
      rw [ha]
  rw [hsame, absorb, ← update_no_error req frame]

theorem recv_frames_fail (h : FramesFail io k parts) (req : NetRequest) :
    (recvFrames io k req parts).2.1 < 0 := by
  induction parts generalizing k req with
  | nil => exact absurd h id
  | cons frame rest ih =>
    unfold recvFrames
    cases hinit : (io k).init with
    | some e => exact errno_neg e
    | none =>
      cases hrecv : (io k).recv with
      | some e => exact errno_neg e
      | none =>
        simp only
        by_cases ha : (io k).alloc = false ∧ frame ≠ []
        · have hneg := update_fails ha req
          rw [if_pos hneg]
          exact hneg
        · rw [update_works ha, if_neg (Int.lt_irrefl 0)]
          refine ih (h.resolve_left ?_) _
          rintro (hi | hr | hal)
          · exact hi hinit
          · exact hr hrecv
          · exact ha hal

theorem recv_frames_whole (h : ¬ FramesFail io k parts) (req : NetRequest) :
    recvFrames io k req parts = (parts.foldl absorb req, 0, []) := by
  induction parts generalizing k req with
  | nil => rfl
  | cons frame rest ih =>
    simp only [FramesFail, FrameFails, not_or, ne_eq, not_not] at h
    obtain ⟨⟨hinit, hrecv, ha⟩, hrest⟩ := h
    unfold recvFrames
    simp only [hinit, hrecv]
    rw [update_works ha, if_neg (Int.lt_irrefl 0), ih hrest]
    rfl

/-! ## One call -/

theorem receive_none (hnil : x.inbox = [])
    (h : socketStep x (.receive flags reqAlloc io hdl) = some y) : y.handled = x.handled := by
  obtain ⟨res, _, rfl⟩ := Option.map_eq_some_iff.mp h
  simp [hnil]

/-- A call that fails does not get as far as the handler. -/
theorem receive_fails (hq : x.inbox = q :: later)
    (hfail : reqAlloc = false ∨ FramesFail io 0 q.rest)
    (h : socketStep x (.receive flags reqAlloc io hdl) = some y) : y.handled = x.handled := by
  obtain ⟨⟨reqs, rc, rests⟩, hr, rfl⟩ := Option.map_eq_some_iff.mp h
  have hnone : reqs = [] := by
    rw [hq, List.map_cons] at hr
    unfold lcapRpcRecvOnce at hr
    split at hr
    · cases hr
      rfl
    rename_i ha
    have hneg := recv_frames_fail (hfail.resolve_left (by simpa using ha))
      { lrNoEnvelope := hasFlag flags lcapRecvNoEnvelope }
    simp only at hr
    rw [if_neg (fun hb => Int.not_le.mpr hneg hb.1)] at hr
    cases hr
    rfl
  simp [hnone]

/-- A call that does not fail hands over what it finds, if that has a body. -/
theorem receive_works (hq : x.inbox = q :: later) (halloc : reqAlloc = true)
    (hok : ¬ FramesFail io 0 q.rest)
    (h : socketStep x (.receive flags reqAlloc io hdl) = some y) :
    y.handled = x.handled ++
      if (recompose (hasFlag flags lcapRecvNoEnvelope) q.rest).lrBody = [] then []
      else [⟨flags, q, recompose (hasFlag flags lcapRecvNoEnvelope) q.rest⟩] := by
  obtain ⟨⟨reqs, rc, rests⟩, hr, rfl⟩ := Option.map_eq_some_iff.mp h
  subst halloc
  rw [hq, List.map_cons] at hr
  simp only [lcapRpcRecvOnce, recv_frames_whole hok, fold_absorb, Bool.not_true, Bool.false_eq_true,
    ↓reduceIte] at hr
  by_cases hb : (recompose (hasFlag flags lcapRecvNoEnvelope) q.rest).lrBody = []
  · simp only [hb, List.length_nil, Nat.lt_irrefl, and_false, ↓reduceIte] at hr
    cases hr
    simp [hb]
  · have hpos : 0 < (recompose (hasFlag flags lcapRecvNoEnvelope) q.rest).lrBody.length :=
      List.length_pos_iff.mpr hb
    simp only [hpos, ge_iff_le, Int.le_refl, and_self, ↓reduceIte] at hr
    cases hr
    simp [hq, hb]

/-! ## What is left is what the code finds next -/

theorem recv_frames_suffix (io : Nat → FrameIo) (k : Nat) (req : NetRequest) (parts : Parts UInt8) :
    (recvFrames io k req parts).2.2 <:+ parts := by
  induction parts generalizing k req with
  | nil => exact List.suffix_rfl
  | cons frame rest ih =>
    unfold recvFrames
    split
    · exact List.suffix_rfl
    · exact List.suffix_rfl
    · simp only
      split
      · exact List.suffix_cons frame rest
      · exact (ih _ _).trans (List.suffix_cons frame rest)

theorem recv_once_rests {σ : Type} {cb : σ → NetRequest → σ × Int} {st st' : σ} (hne : message ≠ [])
    (h : lcapRpcRecvOnce flags reqAlloc io cb st (message :: inbox) = some (st', rc, rests)) :
    rests = inbox ∨ ∃ rest, rest ≠ [] ∧ rest <:+ message ∧ rests = rest :: inbox := by
  have hqueue : ∀ rest, rest <:+ message → requeue rest inbox = inbox ∨
      ∃ rest', rest' ≠ [] ∧ rest' <:+ message ∧ requeue rest inbox = rest' :: inbox := by
    intro rest hrest
    cases rest with
    | nil => exact .inl rfl
    | cons frame rest => exact .inr ⟨frame :: rest, List.cons_ne_nil _ _, hrest, rfl⟩
  have hsuffix := recv_frames_suffix io 0
    { lrNoEnvelope := hasFlag flags lcapRecvNoEnvelope } message
  unfold lcapRpcRecvOnce at h
  split at h
  · cases h
    exact .inr ⟨message, hne, List.suffix_rfl, rfl⟩
  · simp only at h
    split at h
    · cases h
      exact hqueue _ hsuffix
    · cases h
      exact hqueue _ hsuffix

/-- Taking more frames of a message leaves the rest that the code has left. -/
theorem rest_of_suffix {q : Queued} (h : rest <:+ q.rest) :
    ({ q with taken := q.message.length - rest.length } : Queued).rest = rest := by
  obtain ⟨pre, hpre⟩ := h.trans (List.drop_suffix q.taken q.message)
  simp only [Queued.rest, ← hpre, List.length_append, Nat.add_sub_cancel, List.drop_left]

theorem resume_rests {q : Queued} {later : List Queued}
    (h : rests = later.map Queued.rest ∨
      ∃ rest, rest ≠ [] ∧ rest <:+ q.rest ∧ rests = rest :: later.map Queued.rest) :
    (resume (q :: later) rests).map Queued.rest = rests := by
  rcases h with rfl | ⟨rest, _, hrest, rfl⟩
  · cases later with
    | nil => rfl
    | cons q' later => simp [resume]
  · simp [resume, rest_of_suffix hrest]

/-- Every message on the socket still has a frame to give. -/
theorem reach_pending (h : Reach socket C x) : ∀ q ∈ x.inbox, q.rest ≠ [] := by
  apply h.preserve (P := fun x => ∀ q ∈ x.inbox, q.rest ≠ [])
  · intro q hq
    cases hq
  · intro x move y hx _ hstep
    cases move with
    | arrive message =>
      have hstep : socketStep x (.arrive message) = some y := hstep
      simp only [socketStep] at hstep
      split at hstep
      · cases hstep
      · rename_i hne
        cases hstep
        intro q hq
        rcases List.mem_append.mp hq with hq | hq
        · exact hx q hq
        · rw [List.mem_singleton.mp hq]
          exact hne
    | receive flags reqAlloc io hdl =>
      obtain ⟨⟨reqs, rc, rests⟩, hr, rfl⟩ := Option.map_eq_some_iff.mp hstep
      cases hq : x.inbox with
      | nil => simp [resume]
      | cons q later =>
        rw [hq] at hx
        rw [hq, List.map_cons] at hr
        have hrests := recv_once_rests (hx q List.mem_cons_self) hr
        have hagree := resume_rests hrests
        intro q' hq'
        have hm : q'.rest ∈ rests := hagree ▸ List.mem_map_of_mem hq'
        have hlater : ∀ rest ∈ later.map Queued.rest, rest ≠ [] := by
          intro rest hrest
          obtain ⟨q'', hq'', rfl⟩ := List.mem_map.mp hrest
          exact hx q'' (List.mem_cons_of_mem q hq'')
        rcases hrests with rfl | ⟨rest, hne, _, rfl⟩
        · exact hlater _ hm
        · rcases List.mem_cons.mp hm with he | hm
          · rw [he]
            exact hne
          · exact hlater _ hm

/-- The frames kept track of are those that the code leaves on the socket. -/
theorem socket_agrees (h : Reach socket C x)
    (hs : socketStep x (.receive flags reqAlloc io hdl) = some y) :
    ∃ reqs rc, lcapRpcRecvOnce flags reqAlloc io (fun reqs req => (reqs ++ [req], hdl req)) []
      (x.inbox.map Queued.rest) = some (reqs, rc, y.inbox.map Queued.rest) := by
  obtain ⟨⟨reqs, rc, rests⟩, hr, rfl⟩ := Option.map_eq_some_iff.mp hs
  refine ⟨reqs, rc, ?_⟩
  cases hq : x.inbox with
  | nil =>
    have hnil : rests = [] := by
      rw [hq] at hr
      simp only [lcapRpcRecvOnce, List.map_nil] at hr
      split at hr
      · cases hr; rfl
      split at hr
      · cases hr; rfl
      · cases hr; rfl
      · split at hr
        · cases hr; rfl
        · cases hr
    rw [hq, hnil] at hr
    exact hr
  | cons q later =>
    have hne := reach_pending h q (by simp [hq])
    rw [hq, List.map_cons] at hr
    rw [resume_rests (recv_once_rests hne hr), List.map_cons]
    exact hr

/-! ## Which calls of the handler are for a whole message -/

theorem step_handled (hx : ∀ inv ∈ x.handled, Whole inv) (hstep : socketStep x move = some y) :
    (∀ inv ∈ y.handled, Whole inv) ↔ NoLeftover x move := by
  cases move with
  | arrive message =>
    simp only [socketStep] at hstep
    split at hstep
    · cases hstep
    · cases hstep
      exact iff_of_true hx trivial
  | receive flags reqAlloc io hdl =>
    cases hq : x.inbox with
    | nil =>
      rw [receive_none hq hstep]
      exact iff_of_true hx (by simp [NoLeftover, hq])
    | cons q later =>
      have hcond : NoLeftover x (.receive flags reqAlloc io hdl) ↔ (0 < q.taken →
          (recompose (hasFlag flags lcapRecvNoEnvelope) q.rest).lrBody = [] ∨ reqAlloc = false ∨
            FramesFail io 0 q.rest) := by
        simp [NoLeftover, hq]
      rw [hcond]
      by_cases hfail : reqAlloc = false ∨ FramesFail io 0 q.rest
      · rw [receive_fails hq hfail hstep]
        exact iff_of_true hx (fun _ => .inr hfail)
      have hok := hfail
      rw [not_or, Bool.not_eq_false] at hok
      rw [receive_works hq hok.1 hok.2 hstep]
      by_cases hb : (recompose (hasFlag flags lcapRecvNoEnvelope) q.rest).lrBody = []
      · rw [if_pos hb, List.append_nil]
        exact iff_of_true hx (fun _ => .inl hb)
      rw [if_neg hb]
      constructor
      · intro hall htaken
        have hw := hall _ (List.mem_append_right _ (List.mem_singleton_self _))
        exact absurd hw.1 (Nat.ne_of_gt htaken)
      · intro hc inv hinv
        rcases List.mem_append.mp hinv with hinv | hinv
        · exact hx inv hinv
        cases List.mem_singleton.mp hinv
        have htaken : q.taken = 0 := by
          by_contra hne
          exact (hc (Nat.pos_of_ne_zero hne)).elim hb hfail
        exact ⟨htaken, by simp [Queued.rest, htaken]⟩

/-- Every call of the handler is for a whole message, in every run in which no call takes
the rest of an abandoned message for a request. The first call that does breaks it. -/
theorem handled_whole (h : Reach socket NoLeftover x) :
    (∀ inv ∈ x.handled, Whole inv) ∧
      ∀ move y, socket.step x move = some y →
        ((∀ inv ∈ y.handled, Whole inv) ↔ NoLeftover x move) := by
  have hx : ∀ inv ∈ x.handled, Whole inv := by
    apply h.preserve (P := fun x => ∀ inv ∈ x.handled, Whole inv)
    · intro inv hinv
      cases hinv
    · exact fun x move y hx hc hstep => (step_handled hx hstep).mpr hc
  exact ⟨hx, fun move y hstep => step_handled hx hstep⟩

namespace Sample

/-- An envelope for client 1 and reader 2, and a body of two frames. -/
def twoFrames : Parts UInt8 := [[1], [], [2], [], [3], [4]]

def receive (io : Nat → FrameIo) : SocketMove :=
  .receive lcapRecvNonblock true io (fun _ => 0)

/-- No memory for the first identity. -/
def abandoned : List SocketMove :=
  [.arrive twoFrames, receive (fun _ => { alloc := false }), receive (fun _ => {})]

def socketAfter (moves : List SocketMove) : Socket := replay socket socket.init moves

end Sample

theorem handled_whole_twoFrames :
    (∀ inv ∈ (Sample.socketAfter [.arrive Sample.twoFrames, Sample.receive (fun _ => {})]).handled,
        Whole inv) ∧
      ∀ move y, socket.step
          (Sample.socketAfter [.arrive Sample.twoFrames, Sample.receive (fun _ => {})])
          move = some y →
        ((∀ inv ∈ y.handled, Whole inv) ↔ NoLeftover
          (Sample.socketAfter [.arrive Sample.twoFrames, Sample.receive (fun _ => {})]) move) :=
  handled_whole (steps_of_obeys (by decide +kernel))

/-- Behind the failed allocation the reader's identity is taken for the client's, the
first body frame for the reader's, and the second for the whole body. -/
theorem leftover_handled_as_request :
    Reach socket Always (Sample.socketAfter Sample.abandoned) ∧
      (Sample.socketAfter Sample.abandoned).handled =
        [⟨lcapRecvNonblock, ⟨Sample.twoFrames, 1⟩, ⟨false, some [2], some [3], [4]⟩⟩] ∧
      ¬ ∀ inv ∈ (Sample.socketAfter Sample.abandoned).handled, Whole inv := by
  have hhandled : (Sample.socketAfter Sample.abandoned).handled =
      [⟨lcapRecvNonblock, ⟨Sample.twoFrames, 1⟩, ⟨false, some [2], some [3], [4]⟩⟩] := rfl
  refine ⟨steps_of_obeys (by decide +kernel), hhandled, ?_⟩
  intro h
  rw [hhandled] at h
  exact absurd (h _ (List.mem_singleton_self _)).1 (by decide)

end Lcap.Proofs
