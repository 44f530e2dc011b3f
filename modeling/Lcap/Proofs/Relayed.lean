import Lcap.Proofs.Beside
import Lcap.Proofs.Sendable

namespace Lcap.Proofs
open Reader Net Wire Network Systems
open Client (WireRequest Fleet FleetMove IsOther fleet fleetStep repliesTo)

/-! ## The moves of the readers -/

section
variable {N : Site} {x y : NetState} {m : Mail} {f : Fleet} {i j : Nat} {who cid : ConnId}
  {letters : List Letter} {rest : List (Parts UInt8)}

/-- What the history of a reader grows by in a step. -/
theorem step_trace (hshape : Shape s) (hs : readerStep s l = some t) :
    t.trace = s.trace ++ t.trace.drop s.trace.length := by
  obtain ⟨post, hpost⟩ := step_grows hshape hs
  rw [hpost, List.drop_left]

/-- A request is answered to nobody else. -/
theorem sent_to_requester (hshape : Shape s) (hs : readerStep s (.request req io) = some t)
    (hm : (dst, msg) ∈ messages (t.trace.drop s.trace.length)) : dst = req.lrForward := by
  by_contra hne
  have hother : IsOther dst (.request req io) := Ne.symm hne
  have hseen := (Unseen.step hshape hother hs).replies
  rw [step_trace hshape hs, replies_to_append, List.append_right_eq_self] at hseen
  have hmem : msg ∈ repliesTo dst (t.trace.drop s.trace.length) :=
    List.mem_filterMap.mpr ⟨(dst, msg), hm, if_pos rfl⟩
  rw [hseen] at hmem
  exact List.not_mem_nil hmem

/-- The messages of a reader, as it hands them to its socket. -/
def replyLetters (sent : List (ConnId × Reply)) : List Letter := sent.map fun p => .reply p.1 p.2

theorem reply_letters_of (cid : ConnId) (tr : List Event) :
    (replyLetters (messages tr)).filterMap (Letter.replyOf cid) = repliesTo cid tr := by
  simp only [replyLetters, List.filterMap_map, repliesTo]
  rfl

theorem request_letters_of (cid : ConnId) (sent : List (ConnId × Reply)) :
    (replyLetters sent).filterMap (Letter.requestOf cid) = [] := by
  simp [replyLetters, List.filterMap_map, Letter.requestOf, Function.comp_def]

theorem sent_upward (hj : j < N.config.ccfMdt.length) (hc : OfReader N j cid)
    {sent : List (ConnId × Reply)}
    (hsent : ∀ p ∈ sent, p.1 = cid ∧ ∃ bytes, N.packReply j p.2 = some bytes ∧
      Renders N.layout p.2 bytes)
    (hout : sent.mapM (fun p => (N.packReply j p.2).map (peerFrames none p.1)) = some out) :
    List.Forall₂ (Upward N (N.device j)) (replyLetters sent) out := by
  induction sent generalizing out with
  | nil =>
    cases hout
    exact .nil
  | cons p sent ih =>
    obtain ⟨hto, bytes, hbytes, hrep⟩ := hsent p List.mem_cons_self
    rw [List.mapM_cons, hbytes] at hout
    obtain ⟨outs, houts, rfl⟩ : ∃ outs, sent.mapM
      (fun p => (N.packReply j p.2).map (peerFrames none p.1)) = some outs ∧
        peerFrames none p.1 bytes :: outs = out := by
      simpa [Option.bind_eq_some_iff] using hout
    refine .cons ?_ (ih (fun q hq => hsent q (List.mem_cons_of_mem p hq)) houts)
    have hfirst : Upward N (N.device j) (.reply p.1 p.2) (peerFrames none p.1 bytes) := by
      rw [hto]
      exact .reply hj hc hrep
    exact hfirst

theorem Mailed.advance (h : Mailed N x m) (j : Nat) (env : ReaderEnv) :
    Mailed N (x.advance j env) m :=
  ⟨h.up, h.down, h.known, h.owed, h.waits⟩

/-- Nothing that this reader or its clients see has changed. -/
theorem Beside.advance_unseen (h : Beside N i x m f) (hij : j ≠ i) (env : ReaderEnv) :
    Beside N i (x.advance j env) m f := by
  refine ⟨⟨?_, h.peer, ?_⟩, h.asked, h.answered⟩
  · simpa only [NetState.advance, Function.update_of_ne hij.symm] using h.env
  · have hnone : ((env.trace.drop (x.readers j).trace.length).map (NetEvent.reader j)).filter
        (concerns N i) = [] := by
      rw [List.filter_eq_nil_iff]
      intro e he
      obtain ⟨_, _, rfl⟩ := List.mem_map.mp he
      simp [concerns, hij]
    simp only [NetState.advance, List.filter_append, hnone, List.append_nil]
    exact h.hist

theorem advance_hist (h : Matches N i x f) (rpc : Option WireRequest) (env : ReaderEnv) :
    List.Forall₂ (SameEvent N) ((x.advance i env).hist.filter (concerns N i))
      (f.advance rpc env).hist := by
  have hall : ((env.trace.drop (x.readers i).trace.length).map (NetEvent.reader i)).filter
      (concerns N i) =
      (env.trace.drop (x.readers i).trace.length).map (NetEvent.reader i) := by
    rw [List.filter_eq_self]
    intro e he
    obtain ⟨_, _, rfl⟩ := List.mem_map.mp he
    simp [concerns]
  simp only [NetState.advance, Fleet.advance, List.filter_append, hall, h.env]
  refine List.rel_append h.hist ?_
  rw [List.forall₂_map_left_iff, List.forall₂_map_right_iff, List.forall₂_same]
  exact fun _ _ => .reader

/-- What the reader takes off its connection. -/
theorem Mailed.serves (h : Mailed N x m) (hj : j < N.config.ccfMdt.length)
    (hdown : x.down (N.device j) = message :: rest) :
    (∃ cid req letters, OfReader N j cid ∧ m.down (N.device j) = .request cid req :: letters ∧
      message = [[], cid, [], (req.pack cid).lrBody] ∧
        List.Forall₂ (Downward N (N.device j)) letters rest) ∨
    ∃ ret letters, m.down (N.device j) = .notice :: letters ∧ message = [[], packAck ret] ∧
      List.Forall₂ (Downward N (N.device j)) letters rest := by
  obtain ⟨letter, letters, hm, hl, hrest⟩ := h.receiver hdown
  generalize hd : N.device j = who at hl
  cases hl with
  | @request i' cid req hi hc =>
    obtain rfl := device_injective hj hi hd
    exact .inl ⟨cid, req, letters, hc, hm, rfl, hrest⟩
  | reply hg _ => exact absurd hd.symm (generated_ne_device hg hj)
  | refusal hi =>
    obtain rfl := device_injective hj hi hd
    exact .inr ⟨_, letters, hm, rfl, hrest⟩

theorem pack_eq (cid : ConnId) (req : WireRequest) :
    (⟨cid, (req.pack cid).lrBody⟩ : LcapnetRequest) = req.pack cid := by
  cases req with
  | fini => rfl
  | px req => cases req <;> rfl

/-- The reader has sent what its network sends for it, to the client that it serves. -/
theorem served_letters {req : WireRequest} (hj : j < N.config.ccfMdt.length) (hc : OfReader N j cid)
    (hr : Reach (reader N.config.lcapCfg j) (Lawful N j) s)
    (hl : Lawful N j s (.request (req.pack cid) io))
    (hs : readerStep s (.request (req.pack cid) io) = some t) (hout : sentBy N j s t = some out) :
    List.Forall₂ (Upward N (N.device j))
      (replyLetters (messages (t.trace.drop s.trace.length))) out := by
  have hshape := reach_shape hr
  refine sent_upward hj hc (fun p hp => ⟨?_, ?_⟩) hout
  · have hto := sent_to_requester hshape hs hp
    rwa [pack_forward] at hto
  · obtain ⟨e, he, hp⟩ := List.mem_filterMap.mp hp
    have hmem : e ∈ t.trace := List.mem_of_mem_drop he
    unfold messageOf at hp
    split at hp
    · split at hp
      · cases hp
        exact message_renders (hr.tail hl hs) hmem
      · cases hp
    · cases hp

/-- The one request of a client that is on its way. -/
theorem only_request (hb : Beside N i x m f) (htok : Tokened f cid) (hc : OfReader N i cid)
    (hm : m.down (N.device i) = .request cid req :: letters) :
    (f.peers cid).wire = some req ∧
      found (Letter.requestOf cid) (m.hand (N.device i) letters) cid (N.device i) = [] := by
  have hsub := (found_hand hm (Letter.requestOf cid) cid (N.device i)).symm.subperm.trans
    (hb.asked cid hc)
  have hone := htok.token.one
  have hlen := hsub.length_le
  simp only [if_pos, Letter.requestOf, Option.toList_some, List.singleton_append,
    List.length_cons] at hlen
  have hrest : found (Letter.requestOf cid) (m.hand (N.device i) letters) cid (N.device i) = [] :=
    List.eq_nil_of_length_eq_zero (by omega)
  refine ⟨?_, hrest⟩
  have hmem : req ∈ (f.peers cid).wire.toList := hsub.subset (by simp [Letter.requestOf])
  simpa using hmem

theorem Matches.unwired (h : Matches N i x f) (cid : ConnId) :
    Matches N i x (f.set cid { f.peers cid with wire := none }) := by
  refine ⟨h.env, fun cid' hc => ?_, h.hist⟩
  have hsame := h.peer cid' hc
  by_cases he : cid' = cid
  · subst he
    rw [set_self]
    exact ⟨hsame.stage, hsame.cache, hsame.waiting, hsame.owed⟩
  · rwa [set_other (Ne.symm he)]

theorem Beside.serve {req : WireRequest} (h : Beside N i x m f) (htok : ∀ cid, Tokened f cid)
    (hc : OfReader N i cid) (hm : m.down (N.device i) = .request cid req :: letters)
    (hshape : Shape (x.readers i))
    (hs : readerStep (x.readers i) (.request (req.pack cid) io) = some env)
    (out : List (Parts UInt8)) (rpc : Option WireRequest) :
    Beside N i
      ((({ x with down := Function.update x.down (N.device i) rest } : NetState).advance i env).post
        (N.device i) out)
      ((m.hand (N.device i) letters).post (N.device i)
        (replyLetters (messages (env.trace.drop (x.readers i).trace.length))))
      ((f.set cid { f.peers cid with wire := none }).advance rpc env) := by
  have htrace := step_trace hshape hs
  have hpeers : ∀ cid', ((f.set cid { f.peers cid with wire := none }).advance rpc env).peers cid' =
      (f.set cid { f.peers cid with wire := none }).peers cid' := fun _ => rfl
  have hset := h.toMatches.unwired cid
  refine ⟨⟨?_, hset.peer, ?_⟩, fun cid' hc' => ?_, fun cid' hc' => ?_⟩
  · simp only [NetState.post, NetState.advance, Function.update_self]
    rfl
  · exact advance_hist (x := { x with down := Function.update x.down (N.device i) rest })
      ⟨hset.env, hset.peer, hset.hist⟩ rpc env
  · refine (found_post _ _ _ _ _ _).subperm.trans ?_
    rw [hpeers, request_letters_of, ite_self, List.nil_append]
    by_cases he : cid' = cid
    · subst he
      rw [(only_request h (htok cid') hc' hm).2, set_self]
      exact List.nil_subperm
    · have hperm := found_hand hm (Letter.requestOf cid') cid' (N.device i)
      simp only [Letter.requestOf, if_neg (Ne.symm he), Option.toList_none, ite_self,
        List.nil_append] at hperm
      rw [set_other (Ne.symm he)]
      exact hperm.symm.subperm.trans (h.asked cid' hc')
  · have hreplies : unread ((f.set cid { f.peers cid with wire := none }).advance rpc env) cid' =
        unread f cid' ++ repliesTo cid' (env.trace.drop (x.readers i).trace.length) := by
      have htaken : ((f.set cid { f.peers cid with wire := none }).peers cid').taken =
          (f.peers cid').taken := by
        by_cases he : cid' = cid
        · subst he
          rw [set_self]
        · rw [set_other (Ne.symm he)]
      have hcounted := (htok cid').counted
      rw [h.env] at hcounted
      rw [unread, hpeers, htaken, unread, h.env, ← List.drop_append_of_le_length hcounted,
        ← replies_to_append, ← htrace]
      rfl
    have hperm := found_hand hm (Letter.replyOf cid') (N.device i) cid'
    simp only [Letter.replyOf, Option.toList_none, ite_self, List.nil_append] at hperm
    refine (found_post _ _ _ _ _ _).trans ?_
    rw [if_pos rfl, reply_letters_of, hreplies]
    exact (List.perm_append_comm).trans ((hperm.symm.trans (h.answered cid' hc')).append_right _)

theorem advance_same (x : NetState) (j : Nat) : x.advance j (x.readers j) = x := by
  simp [NetState.advance]

theorem refusal_beside (h : Mailed N x m) (hb : Beside N i x m f) (hj : j < N.config.ccfMdt.length)
    (hdown : x.down (N.device j) = [[], packAck ret] :: rest)
    (hm : m.down (N.device j) = .notice :: letters)
    (hrest : List.Forall₂ (Downward N (N.device j)) letters rest)
    (hs : readerTurn N x j io = some y) :
    ∃ m', Mailed N y m' ∧ Beside N i y m' f := by
  have hsent : sentBy N j (x.readers j) (x.readers j) = some [] := by simp [sentBy, messages]
  rw [reader_takes_refusal hdown, hsent] at hs
  have hsame := advance_same
    ({ x with down := Function.update x.down (N.device j) rest } : NetState) j
  obtain rfl := Option.some.inj hs
  rw [hsame]
  refine ⟨_, (h.hand hrest).post (.inr ⟨j, hj, rfl⟩) .nil,
    notice_moved hb rfl rfl rfl fun g hg src dst => ?_⟩
  have hpost := found_post g (m.hand (N.device j) letters) src dst (N.device j) []
  have hhand := found_hand hm g src dst
  rw [List.filterMap_nil, ite_self, List.nil_append] at hpost
  rw [hg, Option.toList_none, ite_self, List.nil_append] at hhand
  exact hpost.trans hhand.symm

theorem serve_followed {D : Fleet → FleetMove → Prop} (h : Mailed N x m) (hb : Beside N i x m f)
    (hi : i < N.config.ccfMdt.length) (htok : ∀ cid, Tokened f cid)
    (hr : Reach (reader N.config.lcapCfg i) (Lawful N i) (x.readers i))
    (hsend : FitsInt (sendRc io.send))
    (hclear : FitsInt (io.clearRc 0)) (hd : ∀ cid, OfReader N i cid → D f (.deliver cid io))
    (hs : netStep N x (.serve i io) = some y) : CanFollow N i D f y := by
  simp only [netStep, if_neg (Nat.not_le.mpr hi)] at hs
  cases hdown : x.down (N.device i) with
  | nil => simp [readerTurn, hdown] at hs
  | cons message rest =>
    rcases h.serves hi hdown with ⟨cid, req, letters, hc, hm, rfl, hrest⟩ | ⟨ret, letters,
      hm, rfl, hrest⟩
    · have hbody : (req.pack cid).lrBody ≠ [] := by
        obtain ⟨_, _, hwf⟩ := request_for_reader cid req
        exact ne_nil_of_length hwf.1
      rw [reader_takes_request hdown (generated_ne_nil hc.1) hbody, pack_eq] at hs
      obtain ⟨env, henv, hs⟩ := Option.bind_eq_some_iff.mp hs
      obtain ⟨out, hout, rfl⟩ := Option.map_eq_some_iff.mp hs
      have hlawful : Lawful N i (x.readers i) (.request (req.pack cid) io) := ⟨hsend, hclear⟩
      have hwire := (only_request hb (htok cid) hc hm).1
      refine .step (hd cid hc) (g := (f.set cid { f.peers cid with wire := none }).advance
        (some req) env) ?_
        (((h.hand hrest).advance i env).post (.inr ⟨i, hi, rfl⟩)
          (served_letters hi hc hr hlawful henv hout))
        (hb.serve htok hc hm (reach_shape hr) henv out (some req))
      simp only [fleetStep, hwire, hb.env, henv, Option.map_some]
    · obtain ⟨m', hm', hb'⟩ := refusal_beside h hb hi hdown hm hrest hs
      exact .stand hm' hb'

theorem serve_unseen {D : Fleet → FleetMove → Prop} (h : Mailed N x m) (hb : Beside N i x m f)
    (hi : i < N.config.ccfMdt.length) (hij : j ≠ i)
    (hr : Reach (reader N.config.lcapCfg j) (Lawful N j) (x.readers j))
    (hsend : FitsInt (sendRc io.send))
    (hclear : FitsInt (io.clearRc 0)) (hs : netStep N x (.serve j io) = some y) :
    CanFollow N i D f y := by
  simp only [netStep] at hs
  split at hs
  · cases hs
  rename_i hguard
  have hj : j < N.config.ccfMdt.length := Nat.lt_of_not_le hguard
  have hdev : N.device j ≠ N.device i := fun he => hij (device_injective hj hi he)
  cases hdown : x.down (N.device j) with
  | nil => simp [readerTurn, hdown] at hs
  | cons message rest =>
    rcases h.serves hj hdown with ⟨cid, req, letters, hc, hm, rfl, hrest⟩ | ⟨ret, letters,
      hm, rfl, hrest⟩
    · have hbody : (req.pack cid).lrBody ≠ [] := by
        obtain ⟨_, _, hwf⟩ := request_for_reader cid req
        exact ne_nil_of_length hwf.1
      rw [reader_takes_request hdown (generated_ne_nil hc.1) hbody, pack_eq] at hs
      obtain ⟨env, henv, hs⟩ := Option.bind_eq_some_iff.mp hs
      obtain ⟨out, hout, rfl⟩ := Option.map_eq_some_iff.mp hs
      have hlawful : Lawful N j (x.readers j) (.request (req.pack cid) io) := ⟨hsend, hclear⟩
      refine .stand (((h.hand hrest).advance j env).post (.inr ⟨j, hj, rfl⟩)
        (served_letters hj hc hr hlawful henv hout)) ?_
      have hmoved : Beside N i
          ({ x with down := Function.update x.down (N.device j) rest } : NetState)
          (m.hand (N.device j) letters) f := by
        refine hb.moved rfl rfl rfl (fun cid' hc' => ?_) fun cid' hc' => ?_
        · have hperm := found_hand hm (Letter.requestOf cid') cid' (N.device i)
          rw [if_neg hdev, List.nil_append] at hperm
          exact hperm.symm.subperm
        · have hperm := found_hand hm (Letter.replyOf cid') (N.device i) cid'
          rw [if_neg (generated_ne_device hc'.1 hj).symm, List.nil_append] at hperm
          exact hperm.symm
      refine (hmoved.advance_unseen hij env).moved rfl rfl rfl (fun cid' hc' => ?_)
        fun cid' hc' => ?_
      · refine (found_post _ _ _ _ _ _).subperm.trans ?_
        rw [if_neg (generated_ne_device hc'.1 hj).symm, List.nil_append]
      · refine (found_post _ _ _ _ _ _).trans ?_
        rw [if_neg hdev, List.nil_append]
    · obtain ⟨m', hm', hb'⟩ := refusal_beside h hb hj hdown hm hrest hs
      exact .stand hm' hb'

/-- What a reader says about itself is not for its clients. -/
theorem Beside.signalled (h : Beside N i x m f) (hj : j < N.config.ccfMdt.length)
    (hm : Mailed N x m) (rc : Int) :
    ∃ m',
      Mailed N (x.post (N.device j) (changelogReaderSignal {} rc (N.device j) fun _ => none).1.sent)
      m' ∧
      Beside N i (x.post (N.device j) (changelogReaderSignal {} rc (N.device j) fun _ =>
          none).1.sent) m' f :=
  ⟨_, hm.post (.inr ⟨j, hj, rfl⟩) (.cons (.signal hj) .nil),
    notice_moved h rfl rfl rfl fun g hg src dst => by
    simpa [hg] using found_post g m src dst (N.device j) [.notice]⟩

theorem Beside.advance (h : Beside N i x m f) (hshape : Shape (x.readers i))
    (hl : ∀ cid, IsOther cid l) (hs : readerStep (x.readers i) l = some env)
    (rpc : Option WireRequest) :
    Beside N i (x.advance i env) m (f.advance rpc env) := by
  refine ⟨⟨?_, h.peer, advance_hist h.toMatches rpc env⟩, h.asked, fun cid hc => ?_⟩
  · simp only [NetState.advance, Function.update_self]
    rfl
  · have hseen := (Unseen.step hshape (hl cid) hs).replies
    rw [← h.env] at hseen
    refine (h.answered cid hc).trans (.of_eq ?_)
    rw [unread, ← hseen]
    rfl

theorem enqueue_followed {D : Fleet → FleetMove → Prop} (h : Mailed N x m) (hb : Beside N i x m f)
    (hi : i < N.config.ccfMdt.length) (hshape : Shape (x.readers i))
    (hd : D f (.enqueue startRc script))
    (hs : netStep N x (.enqueue i startRc script) = some y) : CanFollow N i D f y := by
  simp only [netStep] at hs
  split at hs
  · cases hs
  unfold enqueueTurn at hs
  split at hs
  case h_2 => cases hs
  rename_i env u rc rest henv _
  have hstep : fleetStep N.layout.sizeofRec N.args f (.enqueue startRc script) =
      some (f.advance none env) := by
    simp only [fleetStep, hb.env, henv, Option.map_some]
  have hadv := hb.advance hshape (l := .enqueue startRc script) (fun _ => trivial) henv none
  obtain rfl := Option.some.inj hs
  split
  · obtain ⟨m', hm', hb'⟩ := hadv.signalled hi (h.advance i env) rc
    exact .step hd hstep hm' hb'
  · exact .step hd hstep (h.advance i env) hadv

theorem enqueue_unseen {D : Fleet → FleetMove → Prop} (h : Mailed N x m)
    (hb : Beside N i x m f) (hij : j ≠ i)
    (hs : netStep N x (.enqueue j startRc script) = some y) : CanFollow N i D f y := by
  simp only [netStep] at hs
  split at hs
  · cases hs
  rename_i hguard
  have hj : j < N.config.ccfMdt.length := Nat.lt_of_not_le fun hle => hguard (.inr hle)
  unfold enqueueTurn at hs
  split at hs
  case h_2 => cases hs
  rename_i env u rc rest henv _
  have hadv := hb.advance_unseen hij env
  obtain rfl := Option.some.inj hs
  split
  · obtain ⟨m', hm', hb'⟩ := hadv.signalled hj (h.advance j env) rc
    exact .stand hm' hb'
  · exact .stand (h.advance j env) hadv

theorem sigterm_followed {D : Fleet → FleetMove → Prop} (h : Mailed N x m) (hb : Beside N i x m f)
    (hd : D f .sigterm) (hs : netStep N x .sigterm = some y) : CanFollow N i D f y := by
  obtain rfl := Option.some.inj hs
  refine .step hd (g := f.advance none { f.env with terminateSig := true }) rfl
    ⟨h.up, h.down, h.known, h.owed, h.waits⟩ ⟨⟨?_, hb.peer, ?_⟩, hb.asked, hb.answered⟩
  · change { f.env with terminateSig := true } = { x.readers i with terminateSig := true }
    rw [hb.env]
  · have hnone : f.env.trace.drop f.env.trace.length = [] := List.drop_length
    simp only [Fleet.advance, hnone, List.map_nil, List.append_nil]
    exact hb.hist

end

/-! ## Runs -/

/-- What the readers are given makes sense: records that are in memory, and the codes of C
functions. -/
def LawfulMove (N : Site) : NetState → NetMove → Prop
  | _, .enqueue i _ script => ∀ e ∈ script, Described N i e
  | _, .serve _ io => FitsInt (sendRc io.send) ∧ FitsInt (io.clearRc 0)
  | _, .join _ | _, .call _ _ _ | _, .forward _ | _, .receive _ | _, .interrupt _ _ | _, .sigterm =>
    True

instance (N : Site) (x : NetState) : (l : NetMove) → Decidable (LawfulMove N x l)
  | .enqueue i _ script => inferInstanceAs (Decidable (∀ e ∈ script, Described N i e))
  | .serve _ io => inferInstanceAs (Decidable (FitsInt (sendRc io.send) ∧ FitsInt (io.clearRc 0)))
  | .join _ | .call _ _ _ | .forward _ | .receive _ | .interrupt _ _ | .sigterm => .isTrue trivial

section
variable {N : Site} {x y : NetState} {i : Nat} {C : NetState → NetMove → Prop}
  {D : Fleet → FleetMove → Prop}

theorem finish_call_readers (hs : finishCall L x cid c r = some y) : y.readers = x.readers := by
  cases r with
  | error _ => cases hs
  | ok d =>
    obtain rfl := Option.some.inj hs
    rfl

theorem route_readers (x : NetState) (parts : Parts UInt8) :
    (x.route parts).readers = x.readers := by
  unfold NetState.route
  split
  · rfl
  · split <;> rfl

theorem broker_turn_readers (hs : brokerTurn x who = some y) : y.readers = x.readers := by
  cases hup : x.up who with
  | nil => simp [brokerTurn, hup] at hs
  | cons message rest =>
    simp only [brokerTurn, hup] at hs
    obtain ⟨⟨ctx, rc, inbox⟩, _, rfl⟩ := Option.map_eq_some_iff.mp hs
    have hfold : ∀ (sent : List (Parts UInt8)) (z : NetState), z.readers = x.readers →
        (sent.foldl NetState.route z).readers = x.readers := by
      intro sent
      induction sent with
      | nil => exact fun _ hz => hz
      | cons parts sent ih => exact fun z hz => ih _ ((route_readers z parts).trans hz)
    exact hfold _ _ rfl

/-- Taking a message, the reader stays as it is or serves a request. -/
theorem reader_turn_reader (hs : readerTurn N x i io = some y) (j : Nat) :
    y.readers j = x.readers j ∨
      j = i ∧ ∃ req, readerStep (x.readers i) (.request req io) = some (y.readers i) := by
  cases hdown : x.down (N.device i) with
  | nil => simp [readerTurn, hdown] at hs
  | cons message rest =>
    simp only [readerTurn, hdown] at hs
    rw [recv_once_calm (fun _ => rfl)] at hs
    obtain ⟨⟨env, rc, inbox⟩, hrecv, hs⟩ := Option.bind_eq_some_iff.mp hs
    obtain ⟨env, henv, hs⟩ := Option.bind_eq_some_iff.mp hs
    obtain ⟨out, hout, rfl⟩ := Option.map_eq_some_iff.mp hs
    by_cases hj : j = i
    · subst hj
      simp only [NetState.post, NetState.advance, Function.update_self]
      simp only at hrecv
      split at hrecv
      · cases hrecv
        exact .inl (Option.some.inj henv).symm
      · cases hrecv
        exact .inr ⟨trivial, _, henv⟩
    · refine .inl ?_
      simp only [NetState.post, NetState.advance, Function.update_of_ne hj]

/-- What a move does to one reader. -/
inductive ReaderTurn (j : Nat) (s : ReaderEnv) : NetMove → ReaderEnv → Prop
  | stays (hl : ∀ startRc script, l ≠ .enqueue j startRc script) : ReaderTurn j s l s
  | serves (hs : readerStep s (.request req io) = some t) : ReaderTurn j s (.serve j io) t
  | reads (hs : readerStep s (.enqueue startRc script) = some t) : ReaderTurn j s
      (.enqueue j startRc script) t
  | signalled : ReaderTurn j s .sigterm { s with terminateSig := true }

theorem net_step_reader (hs : netStep N x l = some y) (j : Nat) :
    ReaderTurn j (x.readers j) l (y.readers j) := by
  have hstay : y.readers = x.readers → (∀ startRc script, l ≠ .enqueue j startRc script) →
      ReaderTurn j (x.readers j) l (y.readers j) := by
    intro h hl
    rw [h]
    exact .stays hl
  cases l with
  | join i =>
    simp only [netStep] at hs
    split at hs
    · cases hs
    · obtain rfl := Option.some.inj hs
      exact .stays (by simp)
  | call cid call io =>
    simp only [netStep] at hs
    split at hs
    · cases hs
    split at hs
    · cases hs
    · exact hstay (finish_call_readers hs) (by simp)
    · exact hstay ((finish_call_readers hs).trans rfl) (by simp)
    · obtain rfl := Option.some.inj hs
      exact .stays (by simp)
  | forward who => exact hstay (broker_turn_readers hs) (by simp)
  | serve i io =>
    simp only [netStep] at hs
    split at hs
    · cases hs
    rcases reader_turn_reader hs j with hsame | ⟨rfl, req, henv⟩
    · rw [hsame]
      exact .stays (by simp)
    · exact .serves henv
  | receive cid =>
    simp only [netStep] at hs
    split at hs
    · split at hs
      · exact hstay ((finish_call_readers hs).trans rfl) (by simp)
      · cases hs
    · cases hs
  | interrupt cid e =>
    simp only [netStep] at hs
    split at hs
    · split at hs
      · exact hstay (finish_call_readers hs) (by simp)
      · cases hs
    · cases hs
  | enqueue i startRc script =>
    simp only [netStep] at hs
    split at hs
    · cases hs
    unfold enqueueTurn at hs
    split at hs
    case h_2 => cases hs
    rename_i env _ _ _ henv _
    have hreaders : y.readers = Function.update x.readers i env := by
      obtain rfl := Option.some.inj hs
      split <;> rfl
    rw [hreaders]
    by_cases hj : j = i
    · subst hj
      rw [Function.update_self]
      exact .reads henv
    · rw [Function.update_of_ne hj]
      exact .stays fun startRc script he => hj (NetMove.enqueue.inj he).1.symm
  | sigterm =>
    obtain rfl := Option.some.inj hs
    exact .signalled

/-- The readers run by their own steps. -/
theorem net_step_readers (hl : LawfulMove N x l) (hs : netStep N x l = some y) (j : Nat) :
    Steps (reader N.config.lcapCfg j) (Lawful N j) (x.readers j) (y.readers j) := by
  have hturn := net_step_reader hs j
  generalize y.readers j = t at hturn ⊢
  cases hturn with
  | stays _ => exact .refl
  | @serves req io _ henv =>
    have hlaw : Lawful N j (x.readers j) (.request req io) := hl
    exact .single hlaw henv
  | @reads startRc script _ henv =>
    have hlaw : Lawful N j (x.readers j) (.enqueue startRc script) := hl
    exact .single hlaw henv
  | signalled =>
    have hlaw : Lawful N j (x.readers j) .sigterm := trivial
    exact .single hlaw rfl

theorem reach_readers (h : Reach (network N) (LawfulMove N) x) (j : Nat) :
    Reach (reader N.config.lcapCfg j) (Lawful N j) (x.readers j) :=
  Steps.project (fun x => x.readers j) h fun _ _ _ hl hs => net_step_readers hl hs j

theorem init_beside (N : Site) (hi : i < N.config.ccfMdt.length) :
    Mailed N (network N).init {} ∧
      Beside N i (network N).init {} (fleet N.layout.sizeofRec N.args N.config.lcapCfg i).init := by
  refine ⟨⟨fun _ => .nil, fun _ => .nil, ?_, ?_, ?_⟩, ⟨rfl, fun cid _ => ?_, ?_⟩, fun _ _ => ?_,
    fun _ _ => ?_⟩
  · intro who hk
    cases hk
  · intro cid ho
    cases ho
  · intro cid hw
    cases hw
  · exact ⟨rfl, init_mirrors, rfl, rfl⟩
  · have hown : ((network N).init.hist.filter (concerns N i)) = [.reader i (.opened 0)] := by
      have hcomp : (concerns N i ∘ fun j => NetEvent.reader j (.opened 0)) = (· == i) := by
        funext j
        simp [concerns, beq_eq_decide]
      simp only [network, List.filter_map, hcomp]
      rw [List.filter_beq, List.count_eq_one_of_mem List.nodup_range (List.mem_range.mpr hi)]
      rfl
    rw [hown]
    exact .cons .reader .nil
  · exact List.nil_subperm
  · exact .refl _

/-- Each move of the network is one of the reader's fleet, or none. -/
theorem net_step_followed {m : Mail} {f : Fleet} (hi : i < N.config.ccfMdt.length)
    (hr : ∀ j, Reach (reader N.config.lcapCfg j) (Lawful N j) (x.readers j))
    (htok : ∀ cid, Tokened f cid)
    (h : Mailed N x m) (hb : Beside N i x m f) (hl : LawfulMove N x l)
    (hd : ∀ fm, Follows N i l fm → D f fm) (hs : netStep N x l = some y) : CanFollow N i D f y := by
  have hstand : (∃ m', Mailed N y m' ∧ Beside N i y m' f) → CanFollow N i D f y := by
    rintro ⟨m', hm', hb'⟩
    exact .stand hm' hb'
  cases l with
  | join j => exact hstand (join_beside h hb hs)
  | call cid call io =>
    by_cases hc : OfReader N i cid
    · exact call_followed h hb hi (htok cid) hc (hd _ (.call hc)) hs
    · exact call_unseen h hb hi hc hs
  | forward who => exact hstand (forward_beside h hb htok hi hs)
  | serve j io =>
    by_cases hij : j = i
    · subst hij
      exact serve_followed h hb hi htok (hr j) hl.1 hl.2 (fun cid hc => hd _ (.serve hc)) hs
    · exact serve_unseen h hb hi hij (hr j) hl.1 hl.2 hs
  | receive cid =>
    by_cases hc : OfReader N i cid
    · exact receive_followed h hb hi (htok cid) hc (hd _ (.receive hc)) hs
    · exact receive_unseen h hb hi hc hs
  | interrupt cid e =>
    by_cases hc : OfReader N i cid
    · exact interrupt_followed h hb hc (hd _ (.interrupt hc)) hs
    · exact interrupt_unseen h hb hc hs
  | enqueue j startRc script =>
    by_cases hij : j = i
    · subst hij
      exact enqueue_followed h hb hi (reach_shape (hr j)) (hd _ .enqueue) hs
    · exact enqueue_unseen h hb hij hs
  | sigterm => exact sigterm_followed h hb (hd _ .sigterm) hs

/-- Every run of the network is, for each reader, one of a fleet, whose moves are under
any condition that those of the network imply where they are made. -/
theorem reach_along (h : Reach (network N) C x) (hi : i < N.config.ccfMdt.length)
    (hl : ∀ x l, C x l → LawfulMove N x l)
    (hd : ∀ x l y m f fm, Mailed N x m → Beside N i x m f → (∀ cid, Tokened f cid) → C x l →
      netStep N x l = some y → Follows N i l fm → D f fm) :
    ∃ f, Reach (fleet N.layout.sizeofRec N.args N.config.lcapCfg i) D f ∧ ∃ m, Mailed N x m ∧
      Beside N i x m f := by
  refine Reach.simulate (R := fun x f => ∃ m, Mailed N x m ∧ Beside N i x m f)
    (P := fun x => ∀ j, Reach (reader N.config.lcapCfg j) (Lawful N j) (x.readers j))
    (Q := fun f => ∀ cid, Tokened f cid) h ?_ ?_ ⟨{}, init_beside N hi⟩ ?_
  · exact fun x hx => reach_readers (hx.mono hl)
  · exact fun f hf cid => reach_tokened hf cid
  · rintro x l y f hr htok ⟨m, hm, hb⟩ hc hs
    exact net_step_followed hi hr htok hm hb (hl x l hc)
      (fun fm hfm => hd x l y m f fm hm hb htok hc hs hfm) hs

theorem reach_beside (h : Reach (network N) C x) (hi : i < N.config.ccfMdt.length)
    (hl : ∀ x l, C x l → LawfulMove N x l)
    (hd : ∀ x f l fm, Matches N i x f → C x l → Follows N i l fm → D f fm) :
    ∃ f, Reach (fleet N.layout.sizeofRec N.args N.config.lcapCfg i) D f ∧ ∃ m, Mailed N x m ∧
      Beside N i x m f :=
  reach_along h hi hl fun x l _ _ f fm _ hb _ hc _ hf => hd x f l fm hb.toMatches hc hf

/-- The whole server, on bytes, does for each reader and its clients what that reader and
any number of clients do that are connected to it directly, on records: no request or
reply is lost, made twice or taken for another one by what is between them, as far as
their states and histories can tell. -/
theorem network_refines_fleet (h : Reach (network N) (LawfulMove N) x)
    (hi : i < N.config.ccfMdt.length) :
    ∃ f, Reach (fleet N.layout.sizeofRec N.args N.config.lcapCfg i) Always f ∧ f.env = x.readers i ∧
      (∀ cid, OfReader N i cid → Same N.layout (x.clients cid) (f.peers cid)) ∧
      List.Forall₂ (SameEvent N) (x.hist.filter (concerns N i)) f.hist := by
  obtain ⟨f, hf, _, _, hb⟩ := reach_beside h hi (fun _ _ hl => hl) fun _ _ _ _ _ _ _ => trivial
  exact ⟨f, hf, hb.env, hb.peer, hb.hist⟩

end

namespace Sample

def serverCfg : Config.ParsedCfg where
  ccfMdt := [[109, 48], [109, 49]]
  ccfMaxBkt := 4
  ccfRecBatchCount := 2

/-- The second byte of a client's identity tells the device that it asks for. -/
def deviceOf (cid : ConnId) : List UInt8 := if cid.getD 1 0 = 0 then [109, 48] else [109, 49]

theorem devices_distinct : serverCfg.ccfMdt.Nodup := by decide

theorem devices_named : ∀ dev ∈ serverCfg.ccfMdt, dev ≠ [] ∧ 0 ∉ dev := by decide

theorem device_of_named (cid : ConnId) : 0 ∉ deviceOf cid := by
  unfold deviceOf
  split <;> decide

def site : Site where
  layout := layout
  raw _ rec := rawRecord rec.crIndex
  config := serverCfg
  args cid := { mdtname := deviceOf cid }
  distinct := devices_distinct
  named := devices_named
  asked := device_of_named

/-- A reader joins, and a client starts and receives the reader's first record. -/
def relayedRecord : List NetMove :=
  [.join 0, .forward [109, 48], .call [0, 0] .start {}, .forward [0, 0], .serve 0 (calm 5),
    .forward [109, 48],
    .receive [0, 0], .enqueue 0 0 [.recv (record 1) true none, .fail atEnd], .call [0, 0] .recv {},
      .forward [0, 0],
    .serve 0 (calm 5), .forward [109, 48], .receive [0, 0]]

def netAfter (ms : List NetMove) : NetState := replay (network site) (network site).init ms

end Sample

set_option maxRecDepth 4000 in
theorem network_refines_fleet_record :
    ∃ f, Reach (fleet 64 Sample.site.args Sample.serverCfg.lcapCfg 0) Always f ∧
      List.Forall₂ (SameEvent Sample.site)
        [.reader 0 (.opened 0), .reader 0 (.sent [0, 0] none (.ack 0) 0),
          .reader 0 (.stored 0 (Sample.record 1)),
          .reader 0 (.opened 1), .reader 0 (.assigned [0, 0] 0),
          .reader 0 (.sent [0, 0] (some 0) (.enqueue 80 1 [Sample.record 1]) 0),
          .returned [0, 0] (.record (some (Sample.rawRecord 1)))] f.hist := by
  have hr : Reach (network Sample.site) (LawfulMove Sample.site)
      (Sample.netAfter Sample.relayedRecord) :=
    steps_of_obeys (by decide +kernel)
  obtain ⟨f, hf, _, _, hhist⟩ := network_refines_fleet (i := 0) hr (by decide)
  have hown : (Sample.netAfter Sample.relayedRecord).hist.filter (concerns Sample.site 0) =
      [.reader 0 (.opened 0), .reader 0 (.sent [0, 0] none (.ack 0) 0),
        .reader 0 (.stored 0 (Sample.record 1)),
        .reader 0 (.opened 1), .reader 0 (.assigned [0, 0] 0),
        .reader 0 (.sent [0, 0] (some 0) (.enqueue 80 1 [Sample.record 1]) 0),
        .returned [0, 0] (.record (some (Sample.rawRecord 1)))] := by
    decide +kernel
  rw [hown] at hhist
  exact ⟨f, hf, hhist⟩

end Lcap.Proofs
