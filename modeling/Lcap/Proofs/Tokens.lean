import Lcap.Proofs.Fleet

namespace Lcap.Proofs
open Reader Client Systems

/-! ## The reader sends one reply at most -/

/-- At most one message to the client, which `P` admits. -/
def AnswersOnce (cid : ConnId) (P : Reply → Prop) (s t : ReaderEnv) : Prop :=
  repliesTo cid t.trace = repliesTo cid s.trace ∨
    ∃ rep, repliesTo cid t.trace = repliesTo cid s.trace ++ [rep] ∧ P rep

section
variable {P : Reply → Prop} {s t u : ReaderEnv} {req : LcapnetRequest} {io : RpcIo}

/-- A handler that has sent nothing leaves the reply to the dispatcher. -/
theorem once_dispatched (hr : repliesTo req.lrForward t.trace = repliesTo req.lrForward s.trace)
    (hp : rc < 0 ∨ rc = 1 → P (.ack rc)) :
    AnswersOnce req.lrForward P s (answered t req io rc) := by
  unfold answered
  split
  · rename_i hrc
    rcases replies_to_send req.lrForward t.trace none (.ack rc) io.ackSend with ⟨_, h⟩ | ⟨_, h⟩
    · exact .inr ⟨.ack rc, h.trans (by rw [hr]), hp hrc⟩
    · exact .inl (h.trans hr)
  · exact .inl hr

/-- Where its own reply fails, the dispatcher sends one. -/
theorem once_sent (hr : repliesTo req.lrForward u.trace = repliesTo req.lrForward s.trace)
    (ht : t.trace = u.trace ++ [.sent req.lrForward bkt msg (sendRc io.send)]) (hmsg : P msg)
    (herr : ∀ rc, rc < 0 → P (.ack rc)) :
    AnswersOnce req.lrForward P s (answered t req io (sendRc io.send)) := by
  rcases replies_to_send req.lrForward u.trace bkt msg io.send with ⟨hrc, h⟩ | ⟨hrc, h⟩
  · have hself : answered t req io (sendRc io.send) = t := by
      rw [hrc]
      simp [answered]
    rw [hself]
    exact .inr ⟨msg, by rw [ht, h, hr], hmsg⟩
  · refine once_dispatched (by rw [ht, h, hr]) fun h => ?_
    exact herr _ (h.elim id fun he => absurd hrc (by rw [he]; decide))

/-- A DEQUEUE is never answered by an ACK of code 0, and nothing else but by an ACK. -/
structure Truthful (req : LcapnetRequest) (rep : Reply) : Prop where
  dequeue : req.WellFormed .dequeue → rep ≠ .ack 0
  other : ¬ req.WellFormed .dequeue → ∃ rc, rep = .ack rc

theorem truthful_code (req : LcapnetRequest) (hrc : rc ≠ 0) : Truthful req (.ack rc) := by
  refine ⟨fun _ he => ?_, fun _ => ⟨rc, rfl⟩⟩
  exact hrc (Reply.ack.inj he)

theorem truthful_other (hop : req.WellFormed op) (hne : op ≠ .dequeue) (rc : Int) :
    Truthful req (.ack rc) :=
  ⟨fun hd => absurd (hop.unique hd) hne, fun _ => ⟨rc, rfl⟩⟩

theorem acknowledge_replies (s : ReaderEnv) (cid : ConnId) (bkt : Nat) :
    repliesTo cid (acknowledgeBucket s cid bkt).trace = repliesTo cid s.trace :=
  replies_to_silent rfl cid s.trace

theorem served_once (hs : Served s req io t rc) :
    AnswersOnce req.lrForward (Truthful req) s (answered t req io rc) := by
  have herr : ∀ rc, rc < 0 → Truthful req (.ack rc) :=
    fun _ hrc => truthful_code req (Int.ne_of_lt hrc)
  cases hs with
  | refused hrc _ => exact once_dispatched rfl fun _ => herr _ hrc
  | registered hop _ =>
    have hr : repliesTo req.lrForward (registerClient s req).trace =
        repliesTo req.lrForward s.trace := rfl
    exact once_sent hr rfl (truthful_other hop (by simp) _) herr
  | deregistered hop _ =>
    have hr : repliesTo req.lrForward (deregisterClient s req.lrForward).trace =
        repliesTo req.lrForward s.trace := rfl
    exact once_sent hr rfl (truthful_other hop (by simp) _) herr
  | eof _ _ _ => exact once_dispatched rfl fun _ => truthful_code req (by simp)
  | unopened _ _ hf _ _ =>
    exact once_dispatched (replies_to_congr (fetch_messages hf) _) fun _ => herr _ enomem_neg
  | unpacked _ _ hf _ _ =>
    exact once_dispatched (replies_to_congr (give_messages hf _) _) fun _ => herr _ enomem_neg
  | delivered hop _ hf _ _ _ =>
    exact once_sent (replies_to_congr (give_messages hf _) _) rfl
      ⟨by simp [packEnqueue], absurd hop⟩ herr
  | vacuous hop _ =>
    exact once_dispatched rfl fun _ => truthful_other hop (by simp) _
  | pending hop _ _ _ =>
    exact once_sent (acknowledge_replies s _ _) rfl (truthful_other hop (by simp) _) herr
  | failed hop _ _ _ _ _ =>
    exact once_dispatched ((Unseen.logClear _ _ _ _).replies.trans (acknowledge_replies s _ _))
      fun _ => truthful_other hop (by simp) _
  | purged hop _ _ _ _ _ _ =>
    refine once_sent ?_ rfl (truthful_other hop (by simp) _) herr
    exact ((Unseen.logClear _ _ _ _).trans (.destroy _ _ _)).replies.trans
      (acknowledge_replies s _ _)

theorem request_once (hshape : Shape s) (hr : readerStep s (.request req io) = some t) :
    AnswersOnce req.lrForward (Truthful req) s t := by
  obtain ⟨_, hhdl⟩ := request_step hr
  obtain ⟨u, rc, hs, rfl⟩ := request_served hshape.nodup hhdl
  exact served_once hs

end

/-! ## One request or reply of a client on its way -/

/-- The replies that the client has not received. -/
def unread (x : Fleet) (cid : ConnId) : List Reply :=
  (repliesTo cid x.env.trace).drop (x.peers cid).taken

/-- There is at most one request or reply of a client, none if its socket is not owed a
reply, and none but a DEQUEUE or the answer to it while it waits for records, or an answer
of the other kind while it waits for that. -/
structure OneToken (c : Peer) (unread : List Reply) : Prop where
  one : c.wire.toList.length + unread.length ≤ 1
  ready : c.owed = false → c.wire = none ∧ unread = []
  dequeue : ∀ io, c.waiting = some (.recv, io) → (∀ req ∈ c.wire, req = .px .dequeue) ∧
    .ack 0 ∉ unread
  other : ∀ call io, c.waiting = some (call, io) → call ≠ .recv →
    (∀ req ∈ c.wire, req ≠ .px .dequeue) ∧ ∀ rep ∈ unread, ∃ rc, rep = .ack rc

section
variable {recSize : Nat} {args : ConnId → StartArgs} {x y : Fleet} {cid : ConnId}

theorem pack_forward (cid : ConnId) (req : WireRequest) : (req.pack cid).lrForward = cid := by
  cases req with
  | fini => rfl
  | px req => cases req <;> rfl

/-- A request that the reader takes for a DEQUEUE is one. -/
theorem dequeue_of_well_formed {req : WireRequest} (h : (req.pack cid).WellFormed .dequeue) :
    req = .px .dequeue := by
  cases req with
  | fini => cases h.unique (fini_well_formed cid)
  | px req =>
    cases req with
    | start flags mdtname startrec => cases h.unique (start_well_formed cid flags mdtname startrec)
    | dequeue => rfl
    | clear mdtname id endrec => cases h.unique (clear_well_formed cid mdtname id endrec)

theorem gated (h : (Peer.gate c io).send = none) : c.owed = false := by
  unfold Peer.gate at h
  split at h
  · cases h
  · rename_i ho
    exact Bool.eq_false_iff.mpr ho

/-- What a call sends, it sends where its socket lets it, and it asks for records with a
DEQUEUE and for nothing else. -/
theorem outcome_sends {args : StartArgs} {c : Peer} (h : c.outcome recSize args io call = some o) :
    (∀ req d, o = .leave req d → io.send = none) ∧
      ∀ req resume, o = .ask req resume → io.send = none ∧ (call = .recv ↔ req = .px .dequeue) := by
  cases call with
  | start =>
    simp only [Peer.outcome, pxChangelogStart] at h
    split at h
    · cases h
    cases h
    split
    · simp [Call.outcome]
    cases io.setup with
    | some e => simp [Call.outcome]
    | none =>
      cases hsend : io.send with
      | some e => simp [Call.outcome]
      | none => simp [Call.outcome]
  | recv =>
    simp only [Peer.outcome, pxChangelogRecv, pxDequeueRecords] at h
    split at h
    · cases h
    cases h
    split
    · cases hsend : io.send with
      | some e => simp [Call.map, Call.outcome]
      | none =>
        cases io.alloc with
        | true => simp [Call.map, Call.outcome, eq_comm]
        | false => simp [Call.map, Call.outcome]
    · simp [Call.outcome]
  | free =>
    simp only [Peer.outcome] at h
    split at h
    · cases h
    · cases h
      simp
  | clear mdtname id endrec =>
    simp only [Peer.outcome, pxChangelogClear] at h
    split at h
    · cases h
    cases h
    split
    · simp [Call.outcome]
    split
    · simp [Call.outcome]
    cases hsend : io.send with
    | some e => simp [Call.outcome]
    | none => simp [Call.outcome]
  | fini =>
    simp only [Peer.outcome, pxChangelogFini] at h
    split at h
    · cases h
    cases h
    cases hsend : io.send with
    | some e => simp
    | none => simp

/-- What a client's socket has had, and what is still to come on it. -/
structure Tokened (x : Fleet) (cid : ConnId) : Prop where
  counted : (x.peers cid).taken ≤ (repliesTo cid x.env.trace).length
  token : OneToken (x.peers cid) (unread x cid)

theorem Tokened.congr (h : Tokened x cid) (hpeer : y.peers cid = x.peers cid)
    (hreplies : repliesTo cid y.env.trace = repliesTo cid x.env.trace) : Tokened y cid := by
  have hunread : unread y cid = unread x cid := by rw [unread, unread, hpeer, hreplies]
  refine ⟨?_, ?_⟩
  · rw [hpeer, hreplies]
    exact h.counted
  · rw [hpeer, hunread]
    exact h.token

theorem set_self (x : Fleet) (cid : ConnId) (c : Peer) : (x.set cid c).peers cid = c :=
  Function.update_self _ _ _

theorem set_other (h : cid' ≠ cid) (x : Fleet) (c : Peer) :
    (x.set cid' c).peers cid = x.peers cid :=
  Function.update_of_ne h.symm _ _

theorem finish_self (x : Fleet) (cid : ConnId) (c : Peer) (d : Done) :
    (x.finish cid c d).peers cid = { c with stage := d.stage, pzd := d.pzd, waiting := none } :=
  Function.update_self _ _ _

theorem finish_other (h : cid' ≠ cid) (x : Fleet) (c : Peer) (d : Done) :
    (x.finish cid' c d).peers cid = x.peers cid := Function.update_of_ne h.symm _ _

/-- A call that ends keeps what is on its way. -/
theorem OneToken.ended {c : Peer} (h : OneToken c rest) (stage : Stage) (pzd : PxZmqData) :
    OneToken { c with stage := stage, pzd := pzd, waiting := none } rest :=
  ⟨h.one, h.ready, fun _ hw => (nomatch hw), fun _ _ hw => (nomatch hw)⟩

/-- A request leaves where nothing is on its way. -/
theorem OneToken.sent {c : Peer} (h : OneToken c rest) (ho : c.owed = false) (req : WireRequest)
    (waiting : Option (ApiCall × PxIo))
    (hreq : ∀ call io, waiting = some (call, io) → (call = .recv ↔ req = .px .dequeue)) :
    OneToken { c.sent req with waiting := waiting } rest := by
  obtain ⟨_, rfl⟩ := h.ready ho
  refine ⟨Nat.le_refl 1, fun he => ?_, fun io hw => ⟨fun req' hm => ?_, List.not_mem_nil⟩,
    fun call io hw hne =>
    ⟨fun req' hm he => ?_, by simp⟩⟩
  · cases he
  · cases Option.mem_some_iff.mp hm
    exact (hreq _ io hw).mp rfl
  · cases Option.mem_some_iff.mp hm
    exact hne ((hreq call io hw).mpr he)

theorem tokened_set (hcount : c.taken ≤ (repliesTo cid x.env.trace).length)
    (htoken : OneToken c ((repliesTo cid x.env.trace).drop c.taken)) :
    Tokened (x.set cid c) cid := by
  refine ⟨?_, ?_⟩
  · rw [set_self]
    exact hcount
  · rw [unread, set_self]
    exact htoken

theorem tokened_finish (hcount : c.taken ≤ (repliesTo cid x.env.trace).length)
    (htoken : OneToken c ((repliesTo cid x.env.trace).drop c.taken)) (d : Done) :
    Tokened (x.finish cid c d) cid := by
  refine ⟨?_, ?_⟩
  · rw [finish_self]
    exact hcount
  · rw [unread, finish_self]
    exact htoken.ended d.stage d.pzd

theorem Tokened.called (h : Tokened x cid)
    (hs : fleetStep recSize args x (.call cid' call io) = some y) : Tokened y cid := by
  simp only [fleetStep] at hs
  split at hs
  · cases hs
  split at hs
  · cases hs
  · cases hs
    by_cases hc : cid' = cid
    · subst hc
      exact tokened_finish h.counted h.token _
    · exact h.congr (finish_other hc _ _ _) rfl
  · rename_i hidle _ req d ho
    cases hs
    by_cases hc : cid' = cid
    · subst hc
      have htoken : OneToken ((x.peers cid').sent req) (unread x cid') :=
        h.token.sent (gated ((outcome_sends ho).1 _ _ rfl)) req (x.peers cid').waiting
          fun _ _ hw => by
          simp [hw] at hidle
      exact tokened_finish (c := (x.peers cid').sent req) h.counted htoken d
    · exact h.congr (finish_other hc _ _ _) rfl
  · rename_i ho
    cases hs
    by_cases hc : cid' = cid
    · subst hc
      obtain ⟨hsend, hreq⟩ := (outcome_sends ho).2 _ _ rfl
      refine tokened_set h.counted (h.token.sent (gated hsend) _ _ fun call' io' hw => ?_)
      cases hw
      exact hreq
    · exact h.congr (set_other hc _ _) rfl

/-- The reader takes a step that is not for this client. -/
theorem Tokened.unseen (h : Tokened x cid) (hr : Reach (reader cfg idx) Always x.env)
    (ho : IsOther cid l) (hs : readerStep x.env l = some env) (henv : y.env = env)
    (hpeer : y.peers cid = x.peers cid) : Tokened y cid := by
  refine h.congr hpeer ?_
  rw [henv]
  exact (Unseen.step (reach_shape hr) ho hs).replies

theorem Tokened.delivered (h : Tokened x cid) (hr : Reach (reader cfg idx) Always x.env)
    (hs : fleetStep recSize args x (.deliver cid' io) = some y) : Tokened y cid := by
  simp only [fleetStep] at hs
  split at hs
  · cases hs
  rename_i req hwire
  obtain ⟨env, henv, rfl⟩ := Option.map_eq_some_iff.mp hs
  by_cases hc : cid' = cid
  · subst hc
    have hone := request_once (reach_shape hr) henv
    rw [pack_forward, AnswersOnce] at hone
    -- the request is the one token, so that no reply is there yet
    have hnone : unread x cid' = [] := by
      have := h.token.one
      rw [hwire] at this
      simp only [Option.toList_some, List.length_singleton] at this
      exact List.eq_nil_of_length_eq_zero (by omega)
    have hwf : ∀ io, (x.peers cid').waiting = some (.recv, io) →
        (req.pack cid').WellFormed .dequeue := by
      intro io' hw
      rw [(h.token.dequeue io' hw).1 req hwire]
      exact dequeue_well_formed cid'
    have hother : ∀ call io, (x.peers cid').waiting = some (call, io) → call ≠ .recv →
        ¬ (req.pack cid').WellFormed .dequeue :=
      fun _ io' hw hne hop => (h.token.other _ io' hw hne).1 req hwire (dequeue_of_well_formed hop)
    have howed : (x.peers cid').owed = true := by
      rw [← Bool.not_eq_false]
      intro ho
      rw [(h.token.ready ho).1] at hwire
      cases hwire
    have hfin : ∀ fresh : List Reply, fresh.length ≤ 1 →
        (∀ io, (x.peers cid').waiting = some (.recv, io) → .ack 0 ∉ fresh) →
        (∀ call io, (x.peers cid').waiting = some (call, io) → call ≠ .recv → ∀ rep ∈ fresh, ∃ rc,
          rep = .ack rc) →
        repliesTo cid' env.trace = repliesTo cid' x.env.trace ++ fresh →
        Tokened ((x.set cid' { x.peers cid' with wire := none }).advance (some req) env) cid' := by
      intro fresh hfresh hack hacks htr
      have hpeer : ((x.set cid' { x.peers cid' with wire := none }).advance (some req) env).peers
          cid' =
          { x.peers cid' with wire := none } := set_self x cid' _
      have hunread : unread ((x.set cid' { x.peers cid' with wire := none }).advance (some req) env)
          cid' =
          fresh := by
        rw [unread, hpeer]
        change (repliesTo cid' env.trace).drop _ = fresh
        rw [htr, List.drop_append_of_le_length h.counted]
        change unread x cid' ++ fresh = fresh
        rw [hnone, List.nil_append]
      refine ⟨?_, ?_⟩
      · rw [hpeer]
        change _ ≤ (repliesTo cid' env.trace).length
        rw [htr, List.length_append]
        exact Nat.le_add_right_of_le h.counted
      · rw [hunread, hpeer]
        refine ⟨by simpa using hfresh, fun ho => ?_, fun io' hw => ⟨by simp, hack io' hw⟩,
          fun call io' hw hne => ⟨by simp, hacks call io' hw hne⟩⟩
        rw [howed] at ho
        cases ho
    rcases hone with htr | ⟨rep, htr, htruth⟩
    · exact hfin [] (Nat.zero_le 1) (fun _ _ => List.not_mem_nil) (by simp)
        (by rw [htr, List.append_nil])
    · refine hfin [rep] (Nat.le_refl 1) (fun io' hw hm => ?_)
        (fun call io' hw hne rep' hm => ?_) htr
      · exact htruth.dequeue (hwf io' hw) (List.mem_singleton.mp hm).symm
      · rw [List.mem_singleton.mp hm]
        exact htruth.other (hother call io' hw hne)
  · have ho : IsOther cid (.request (req.pack cid') io) := by
      simpa [IsOther, pack_forward] using hc
    exact h.unseen hr ho henv rfl (set_other hc x _)

theorem Tokened.received (h : Tokened x cid)
    (hs : fleetStep recSize args x (.receive cid') = some y) : Tokened y cid := by
  simp only [fleetStep] at hs
  split at hs
  · rename_i rep rest _ hpend
    split at hs
    · cases hs
      by_cases hc : cid' = cid
      · subst hc
        have hunread : unread x cid' = rep :: rest := hpend
        have hone := h.token.one
        rw [hunread, List.length_cons] at hone
        have hwire : (x.peers cid').wire = none := Option.toList_eq_nil_iff.mp
          (List.eq_nil_of_length_eq_zero (by omega))
        obtain rfl : rest = [] := List.eq_nil_of_length_eq_zero (by omega)
        have hrest : (repliesTo cid' x.env.trace).drop ((x.peers cid').taken + 1) = [] := by
          rw [← List.drop_drop, hpend]
          rfl
        have hlt : (x.peers cid').taken < (repliesTo cid' x.env.trace).length := by
          rw [← Nat.not_le, ← List.drop_eq_nil_iff, hpend]
          simp
        have htoken : OneToken { x.peers cid' with
            owed := false, taken := (x.peers cid').taken + 1 }
            ((repliesTo cid' x.env.trace).drop ((x.peers cid').taken + 1)) := by
          rw [hrest]
          refine ⟨?_, fun _ => ⟨hwire, rfl⟩,
            fun io' hw => ⟨(h.token.dequeue io' hw).1, List.not_mem_nil⟩,
            fun call io' hw hne => ⟨(h.token.other call io' hw hne).1, by simp⟩⟩
          simp [hwire]
        exact tokened_finish (c := { x.peers cid' with owed := false, taken := _ }) hlt htoken _
      · exact h.congr (finish_other hc _ _ _) rfl
    · cases hs
  · cases hs

theorem Tokened.interrupted (h : Tokened x cid)
    (hs : fleetStep recSize args x (.interrupt cid' e) = some y) : Tokened y cid := by
  simp only [fleetStep] at hs
  split at hs
  · split at hs
    · cases hs
      by_cases hc : cid' = cid
      · subst hc
        exact tokened_finish h.counted h.token _
      · exact h.congr (finish_other hc _ _ _) rfl
    · cases hs
  · cases hs

theorem Tokened.step (h : Tokened x cid) (hr : Reach (reader cfg idx) Always x.env)
    (hs : fleetStep recSize args x m = some y) : Tokened y cid := by
  have hother : ∀ {l : Label}, IsOther cid l → (readerStep x.env l).map (x.advance none) = some y →
      Tokened y cid := by
    intro l ho hl
    obtain ⟨env, henv, rfl⟩ := Option.map_eq_some_iff.mp hl
    exact h.unseen hr ho henv rfl rfl
  cases m with
  | call cid' call io => exact h.called hs
  | deliver cid' io => exact h.delivered hr hs
  | receive cid' => exact h.received hs
  | interrupt cid' e => exact h.interrupted hs
  | enqueue startRc script => exact hother (l := .enqueue startRc script) trivial hs
  | sigterm => exact hother (l := .sigterm) trivial hs

theorem init_tokened (recSize : Nat) (args : ConnId → StartArgs) (cfg : LcapCfg) (idx : Nat)
    (cid : ConnId) :
    Tokened (fleet recSize args cfg idx).init cid :=
  ⟨Nat.le_refl 0, ⟨Nat.zero_le 1, fun _ => ⟨rfl, rfl⟩, fun _ hw => (nomatch hw),
    fun _ _ hw => (nomatch hw)⟩⟩

theorem reach_tokened (h : Reach (fleet recSize args cfg idx) C x) (cid : ConnId) : Tokened x cid :=
  h.induct (P := (Tokened · cid)) (Q := fun x => Reach (reader cfg idx) Always x.env)
    (fun _ hx => reach_fleet_always hx) (init_tokened recSize args cfg idx cid)
    fun _ _ _ hr hx _ hs => hx.step hr hs

end

end Lcap.Proofs
