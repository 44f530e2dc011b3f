import Lcap.Proofs.Mail
import Lcap.Proofs.Tokens
import Lcap.Proofs.Turns
import Lcap.Systems.Simulation
import Mathlib.Data.List.Perm.Subperm

namespace Lcap.Proofs
open Reader Net Wire Network Systems
open Client (ApiCall StartArgs WireRequest Peer Outcome Done Fleet FleetMove FleetEvent IsOther
  fleet fleetStep repliesTo)

/-! ## The messages of one client on two connections -/

def Letter.requestOf (cid : ConnId) : Letter → Option WireRequest
  | .request c req => if c = cid then some req else none
  | .reply _ _ | .notice => none

def Letter.replyOf (cid : ConnId) : Letter → Option Reply
  | .reply c rep => if c = cid then some rep else none
  | .request _ _ | .notice => none

/-- What is on its way up from one peer and down to another one. -/
def found (f : Letter → Option α) (m : Mail) (src dst : ConnId) : List α :=
  (m.up src).filterMap f ++ (m.down dst).filterMap f

section
variable {α : Type} {f : Letter → Option α} {m : Mail} {src dst who : ConnId}

theorem found_post (f : Letter → Option α) (m : Mail) (src dst who : ConnId)
    (letters : List Letter) :
    (found f (m.post who letters) src dst).Perm
      ((if who = src then letters.filterMap f else []) ++ found f m src dst) := by
  by_cases h : who = src
  · subst h
    simp only [found, Mail.post, Function.update_self, if_pos, List.filterMap_append,
      ← List.append_assoc]
    exact List.perm_append_comm.append_right _
  · simp only [found, Mail.post, Function.update_of_ne (Ne.symm h), if_neg h, List.nil_append]
    exact .refl _

theorem found_pick (hm : m.up who = letter :: letters) (f : Letter → Option α) (src dst : ConnId) :
    found f m src dst =
      (if who = src then (f letter).toList else []) ++ found f (m.pick who letters) src dst := by
  by_cases h : who = src
  · subst h
    simp only [found, Mail.pick, Function.update_self, if_pos, hm, ← List.append_assoc]
    cases hf : f letter with
    | none => simp [List.filterMap_cons_none hf]
    | some a => simp [List.filterMap_cons_some hf]
  · simp only [found, Mail.pick, Function.update_of_ne (Ne.symm h), if_neg h, List.nil_append]

theorem found_route (f : Letter → Option α) (m : Mail) (src dst who : ConnId) (letter : Letter) :
    found f (m.route who letter) src dst =
      found f m src dst ++ if who = dst then (f letter).toList else [] := by
  by_cases h : who = dst
  · subst h
    simp only [found, Mail.route, Function.update_self, if_pos, List.filterMap_append,
      List.append_assoc]
    cases hf : f letter with
    | none => simp [List.filterMap_cons_none hf]
    | some a => simp [List.filterMap_cons_some hf]
  · simp only [found, Mail.route, Function.update_of_ne (Ne.symm h), if_neg h, List.append_nil]

theorem found_hand (hm : m.down who = letter :: letters) (f : Letter → Option α)
    (src dst : ConnId) :
    (found f m src dst).Perm
      ((if who = dst then (f letter).toList else []) ++ found f (m.hand who letters) src dst) := by
  by_cases h : who = dst
  · subst h
    simp only [found, Mail.hand, Function.update_self, if_pos, hm]
    cases hf : f letter with
    | none => simp [List.filterMap_cons_none hf]
    | some a =>
      simp only [List.filterMap_cons_some hf, Option.toList_some, List.singleton_append]
      exact List.perm_middle
  · simp only [found, Mail.hand, Function.update_of_ne (Ne.symm h), if_neg h, List.nil_append]
    exact .refl _

end

/-! ## A network beside the fleet of one of its readers -/

/-- The events of one reader and its clients. -/
def concerns (N : Site) (i : Nat) : NetEvent → Bool
  | .reader j _ => j = i
  | .returned cid _ => OfReader N i cid

/-- The same event, where a record is told by its bytes. -/
inductive SameEvent (N : Site) : NetEvent → FleetEvent → Prop
  | reader {rpc : Option WireRequest} : SameEvent N (.reader i e) (.reader e rpc)
  | record (h : Shows N.layout raw rec) :
    SameEvent N (.returned cid (.record raw)) (.returned cid (.record rec))
  | code : SameEvent N (.returned cid (.code rc)) (.returned cid (.code rc))

/-- The reader, its clients and their history are the same. -/
structure Matches (N : Site) (i : Nat) (x : NetState) (f : Fleet) : Prop where
  env : f.env = x.readers i
  peer : ∀ cid, OfReader N i cid → Same N.layout (x.clients cid) (f.peers cid)
  hist : List.Forall₂ (SameEvent N) (x.hist.filter (concerns N i)) f.hist

/-- So are the messages that are on their way, except that a request may have been lost
before the reader was known to the broker. -/
structure Beside (N : Site) (i : Nat) (x : NetState) (m : Mail) (f : Fleet) : Prop
    extends Matches N i x f where
  asked : ∀ cid, OfReader N i cid →
    (found (Letter.requestOf cid) m cid (N.device i)).Subperm (f.peers cid).wire.toList
  answered : ∀ cid, OfReader N i cid →
    (found (Letter.replyOf cid) m (N.device i) cid).Perm (unread f cid)

/-- The move of a fleet that a move of the network is. -/
inductive Follows (N : Site) (i : Nat) : NetMove → FleetMove → Prop
  | call (hc : OfReader N i cid) : Follows N i (.call cid call io) (.call cid call (io.px none))
  | serve (hc : OfReader N i cid) : Follows N i (.serve i io) (.deliver cid io)
  | receive (hc : OfReader N i cid) : Follows N i (.receive cid) (.receive cid)
  | interrupt (hc : OfReader N i cid) : Follows N i (.interrupt cid e) (.interrupt cid e)
  | enqueue : Follows N i (.enqueue i startRc script) (.enqueue startRc script)
  | sigterm : Follows N i .sigterm .sigterm

section
variable {N : Site} {x y : NetState} {m : Mail} {f : Fleet} {i j : Nat} {who cid : ConnId}
  {letters : List Letter} {rest : List (Parts UInt8)}

/-- Only messages have moved. -/
theorem Beside.moved {m' : Mail} (h : Beside N i x m f) (henv : y.readers = x.readers)
    (hclients : y.clients = x.clients) (hhist : y.hist = x.hist)
    (hasked : ∀ cid, OfReader N i cid → (found (Letter.requestOf cid) m' cid (N.device i)).Subperm
      (found (Letter.requestOf cid) m cid (N.device i)))
    (hanswered : ∀ cid, OfReader N i cid → (found (Letter.replyOf cid) m' (N.device i) cid).Perm
      (found (Letter.replyOf cid) m (N.device i) cid)) : Beside N i y m' f := by
  refine ⟨⟨?_, fun cid hc => ?_, ?_⟩, fun cid hc => ?_, fun cid hc => ?_⟩
  · rw [henv]
    exact h.env
  · rw [hclients]
    exact h.peer cid hc
  · rw [hhist]
    exact h.hist
  · exact (hasked cid hc).trans (h.asked cid hc)
  · exact (hanswered cid hc).trans (h.answered cid hc)

/-- A client is only sent a reply that its socket waits for. -/
theorem replied_known (h : Mailed N x m) (ht : Beside N i x m f) (htok : Tokened f cid)
    (hc : OfReader N i cid)
    (hm : rep ∈ found (Letter.replyOf cid) m (N.device i) cid) : x.known cid = true := by
  refine h.owed cid ?_
  rw [(ht.peer cid hc).owed, ← Bool.not_eq_false]
  intro ho
  have hmem := (ht.answered cid hc).mem_iff.mp hm
  rw [(htok.token.ready ho).2] at hmem
  exact List.not_mem_nil hmem

theorem forward_request (h : Mailed N x m) (ht : Beside N i x m f)
    (hup : x.up who = message :: rest)
    (hm : m.up who = .request who req :: letters) (hrest : List.Forall₂ (Upward N who) letters rest)
    (hc : generated who = true) (hmsg : message = [[], (N.args who).mdtname, (req.pack who).lrBody])
    (hs : brokerTurn x who = some y) : ∃ m', Mailed N y m' ∧ Beside N i y m' f := by
  subst hmsg
  have hpicked := h.pick hrest x.ctx
  have hlost : Beside N i (taken x who rest x.ctx) (m.pick who letters) f := by
    refine ht.moved rfl rfl rfl (fun cid hc => ?_) fun cid hc => ?_
    · rw [found_pick hm (Letter.requestOf cid)]
      exact (List.sublist_append_right _ _).subperm
    · rw [found_pick hm (Letter.replyOf cid)]
      simp [Letter.replyOf]
  by_cases hname : (N.args who).mdtname = []
  · rw [hname] at hup
    rw [broker_drops_request hup (generated_ne_nil hc)] at hs
    cases hs
    exact ⟨_, hpicked, hlost⟩
  rw [broker_takes_request hup (generated_ne_nil hc) hname] at hs
  obtain rfl := Option.some.inj hs
  cases hk : x.known (N.args who).mdtname with
  | false =>
    have hroute := route_unknown (x := taken x who rest x.ctx) hk
    exact ⟨_, by rwa [hroute], by rwa [hroute]⟩
  | true =>
    obtain ⟨j, hj, hdev⟩ := (h.known _ hk).device
    rw [← hdev]
    have hkd : (taken x who rest x.ctx).known (N.device j) = true := hdev ▸ hk
    refine ⟨_, hpicked.route (.request hj ⟨hc, hdev.symm⟩) hkd, ?_⟩
    rw [route_known hkd]
    refine ht.moved rfl rfl rfl (fun cid hc' => ?_) fun cid hc' => ?_
    · rw [found_pick hm (Letter.requestOf cid), found_route]
      by_cases he : who = cid
      · subst he
        rw [if_pos rfl, if_pos (hdev.trans hc'.2)]
        exact List.perm_append_comm.subperm
      · simp [Letter.requestOf, he, List.Subperm.refl]
    · rw [found_pick hm (Letter.replyOf cid), found_route]
      simp [Letter.replyOf]

theorem forward_reply (h : Mailed N x m) (ht : Beside N i x m f) (htok : ∀ cid, Tokened f cid)
    (hi : i < N.config.ccfMdt.length) (hj : j < N.config.ccfMdt.length)
    (hup : x.up (N.device j) = [cid, [], bytes] :: rest)
    (hm : m.up (N.device j) = .reply cid rep :: letters)
    (hrest : List.Forall₂ (Upward N (N.device j)) letters rest) (hc : OfReader N j cid)
    (hrep : Renders N.layout rep bytes) (hs : brokerTurn x (N.device j) = some y) :
    ∃ m', Mailed N y m' ∧ Beside N i y m' f := by
  have hpicked := h.pick hrest x.ctx
  rw [broker_takes_reply hup (device_named hj).1 (generated_ne_nil hc.1) hrep] at hs
  obtain rfl := Option.some.inj hs
  cases hk : x.known cid with
  | false =>
    have hrk := route_unknown (x := taken x (N.device j) rest x.ctx) hk [[], bytes]
    rw [hrk]
    have hij : N.device j ≠ N.device i := by
      intro he
      obtain rfl := device_injective hj hi he
      have hmem : rep ∈ found (Letter.replyOf cid) m (N.device j) cid := by
        rw [found_pick hm]
        simp [Letter.replyOf]
      rw [replied_known h ht (htok cid) hc hmem] at hk
      cases hk
    refine ⟨_, hpicked, ht.moved rfl rfl rfl (fun cid' _ => ?_) fun cid' _ => ?_⟩
    · rw [found_pick hm (Letter.requestOf cid')]
      simp [Letter.requestOf, List.Subperm.refl]
    · rw [found_pick hm (Letter.replyOf cid'), if_neg hij]
      exact .refl _
  | true =>
    have hkt : (taken x (N.device j) rest x.ctx).known cid = true := hk
    refine ⟨_, hpicked.route (.reply hc.1 hrep) hkt, ?_⟩
    rw [route_known hkt]
    refine ht.moved rfl rfl rfl (fun cid' _ => ?_) fun cid' hc' => ?_
    · rw [found_pick hm (Letter.requestOf cid'), found_route]
      simp [Letter.requestOf, List.Subperm.refl]
    · rw [found_pick hm (Letter.replyOf cid'), found_route]
      by_cases he : cid = cid'
      · subst he
        rw [if_pos rfl, if_pos (hc.2.symm.trans hc'.2)]
        exact List.perm_append_comm
      · simp [Letter.replyOf, he]

theorem notice_moved {m' : Mail} (ht : Beside N i x m f) (henv : y.readers = x.readers)
    (hclients : y.clients = x.clients) (hhist : y.hist = x.hist)
    (hm' : ∀ {α : Type} (g : Letter → Option α), g .notice = none → ∀ src dst,
      (found g m' src dst).Perm (found g m src dst)) : Beside N i y m' f :=
  ht.moved henv hclients hhist (fun _ _ => (hm' _ rfl _ _).subperm) fun _ _ => hm' _ rfl _ _

theorem forward_notice (h : Mailed N x m) (ht : Beside N i x m f) (hj : j < N.config.ccfMdt.length)
    (hup : x.up (N.device j) = signalFrames errcode (N.device j) :: rest)
    (hm : m.up (N.device j) = .notice :: letters)
    (hrest : List.Forall₂ (Upward N (N.device j)) letters rest)
    (hs : brokerTurn x (N.device j) = some y) :
    ∃ m', Mailed N y m' ∧ Beside N i y m' f := by
  obtain ⟨ctx, hturn⟩ := broker_takes_signal hup (device_named hj).1
  have hpicked := h.pick hrest ctx
  have hpick : ∀ {α : Type} (g : Letter → Option α), g .notice = none → ∀ src dst,
      found g (m.pick (N.device j) letters) src dst = found g m src dst := by
    intro α g hg src dst
    rw [found_pick hm g, hg]
    simp
  have hdone : ∃ m', Mailed N (taken x (N.device j) rest ctx) m' ∧
      Beside N i (taken x (N.device j) rest ctx) m' f :=
    ⟨_, hpicked, notice_moved ht rfl rfl rfl fun g hg src dst => .of_eq (hpick g hg src dst)⟩
  rcases hturn with hturn | ⟨ret, hturn⟩
  · cases hturn.symm.trans hs
    exact hdone
  · cases hturn.symm.trans hs
    cases hk : x.known (N.device j) with
    | false => rwa [route_unknown (x := taken x (N.device j) rest ctx) hk]
    | true =>
      have hkt : (taken x (N.device j) rest ctx).known (N.device j) = true := hk
      refine ⟨_, hpicked.route (.refusal hj) hkt, ?_⟩
      rw [route_known hkt]
      refine notice_moved ht rfl rfl rfl fun g hg src dst => .of_eq ?_
      rw [found_route, hg, hpick g hg]
      simp

/-- The broker's turns change nothing but where messages are. -/
theorem forward_beside (h : Mailed N x m) (ht : Beside N i x m f) (htok : ∀ cid, Tokened f cid)
    (hi : i < N.config.ccfMdt.length) (hs : brokerTurn x who = some y) :
    ∃ m', Mailed N y m' ∧ Beside N i y m' f := by
  cases hup : x.up who with
  | nil => simp [brokerTurn, hup] at hs
  | cons message rest =>
    obtain ⟨letter, letters, hm, hl, hrest⟩ := h.sender hup
    cases hl with
    | request hc => exact forward_request h ht hup hm hrest hc rfl hs
    | reply hj hc hrep => exact forward_reply h ht htok hi hj hup hm hrest hc hrep hs
    | signal hj => exact forward_notice h ht hj hup hm hrest hs

theorem join_beside (h : Mailed N x m) (ht : Beside N i x m f)
    (hs : netStep N x (.join j) = some y) :
    ∃ m', Mailed N y m' ∧ Beside N i y m' f := by
  simp only [netStep] at hs
  split at hs
  · cases hs
  rename_i hguard
  have hj : j < N.config.ccfMdt.length := Nat.lt_of_not_le fun hle => hguard (.inr hle)
  obtain rfl := Option.some.inj hs
  exact ⟨_, h.post (.inr ⟨j, hj, rfl⟩) (.cons (.signal hj) .nil),
    notice_moved ht rfl rfl rfl fun g hg src dst => by
    simpa [hg] using found_post g m src dst (N.device j) [.notice]⟩

/-! ## The calls of a client -/

theorem same_given (hres : Option.Rel (SameResult N.layout z) res res') (cid : ConnId) :
    List.Forall₂ (SameEvent N) (res.toList.map fun r => .returned cid (given N.layout z r))
      (res'.toList.map (.returned cid)) := by
  cases hres with
  | none => exact .nil
  | some hr =>
    refine .cons ?_ .nil
    cases hr with
    | record h => exact .record h
    | code rc => exact .code

/-- A call of a client of this reader ends on both sides. -/
theorem Beside.finish {c : Proc} {q : Peer} (h : Beside N i (x.set cid c) m (f.set cid q))
    (hc : OfReader N i cid) {d : Left} {d' : Done} (hleft : SameLeft N.layout (.ok d) d') :
    Beside N i (x.finish N.layout cid c d) m (f.finish cid q d') := by
  obtain ⟨hstage, hcache, hres⟩ := hleft
  have hsame := h.peer cid hc
  simp only [NetState.set, Fleet.set, Function.update_self] at hsame
  have hpeer : ∀ cid', cid' ≠ cid → (f.finish cid q d').peers cid' = (f.set cid q).peers cid' := by
    intro cid' he
    rw [finish_other he.symm, set_other he.symm]
  have hself : (f.finish cid q d').peers cid = { q with
      stage := d'.stage, pzd := d'.pzd, waiting := none } :=
    finish_self _ _ _ _
  refine ⟨⟨h.env, fun cid' hc' => ?_, ?_⟩, fun cid' hc' => ?_, fun cid' hc' => ?_⟩
  · by_cases he : cid' = cid
    · subst he
      rw [hself]
      simp only [NetState.finish, NetState.set, Function.update_self]
      exact ⟨hstage, hcache, rfl, hsame.owed⟩
    · rw [hpeer cid' he]
      have hother := h.peer cid' hc'
      simpa only [NetState.finish, NetState.set, Function.update_of_ne he] using hother
  · simp only [NetState.finish, List.filter_append]
    refine List.rel_append h.hist ?_
    rw [List.filter_eq_self.mpr]
    · exact same_given hres cid
    · simp [concerns, hc]
  · have hasked := h.asked cid' hc'
    by_cases he : cid' = cid
    · subst he
      rw [hself]
      simpa only [set_self] using hasked
    · rwa [hpeer cid' he]
  · have hanswered := h.answered cid' hc'
    refine hanswered.trans (.of_eq ?_)
    by_cases he : cid' = cid
    · subst he
      rw [unread, unread, hself, set_self]
      rfl
    · rw [unread, unread, hpeer cid' he]
      rfl

/-- One of a client of another reader is not seen. -/
theorem Beside.other {c : Proc} (h : Beside N i x m f) (hc : ¬ OfReader N i cid) :
    Beside N i (x.set cid c) m f := by
  refine ⟨⟨h.env, fun cid' hc' => ?_, h.hist⟩, h.asked, h.answered⟩
  have he : cid' ≠ cid := fun he => hc (he ▸ hc')
  simpa only [NetState.set, Function.update_of_ne he] using h.peer cid' hc'

theorem Beside.finish_unseen {c : Proc} (h : Beside N i x m f)
    (hc : ¬ OfReader N i cid) (d : Left) :
    Beside N i (x.finish N.layout cid c d) m f := by
  have hset := h.other (c := { c with stage := d.stage, cache := d.cache, waiting := none }) hc
  refine ⟨⟨hset.env, hset.peer, ?_⟩, hset.asked, hset.answered⟩
  have hnone : (d.res.toList.map fun r => NetEvent.returned cid (given N.layout d.cache r)).filter
      (concerns N i) = [] := by
    simp [List.filter_eq_nil_iff, concerns, hc]
  simp only [NetState.finish, List.filter_append, hnone, List.append_nil]
  exact hset.hist

theorem Beside.request (h : Beside N i x m f) (hi : i < N.config.ccfMdt.length)
    (htok : Tokened f cid)
    (hc : OfReader N i cid) (ho : (f.peers cid).owed = false) {c : Proc} {q : Peer}
    (hsame : Same N.layout c q)
    (hwire : q.wire = some req) (htaken : q.taken = (f.peers cid).taken) :
    Beside N i ((sendRequest N x cid req).set cid c) (m.post cid [.request cid req])
      (f.set cid q) := by
  refine ⟨⟨h.env, fun cid' hc' => ?_, h.hist⟩, fun cid' hc' => ?_, fun cid' hc' => ?_⟩
  · by_cases he : cid' = cid
    · subst he
      simpa only [NetState.set, Fleet.set, Function.update_self] using hsame
    · simp only [NetState.set, Fleet.set, Function.update_of_ne he]
      exact h.peer cid' hc'
  · have hasked := h.asked cid' hc'
    refine (found_post _ _ _ _ _ _).subperm.trans ?_
    by_cases he : cid' = cid
    · subst he
      rw [(htok.token.ready ho).1, Option.toList_none, List.subperm_nil] at hasked
      rw [hasked, set_self, hwire]
      simp [Letter.requestOf, List.Subperm.refl]
    · rw [if_neg (Ne.symm he), List.nil_append, set_other (Ne.symm he)]
      exact hasked
  · have hanswered := h.answered cid' hc'
    refine ((found_post _ _ _ _ _ _).trans ?_).trans (hanswered.trans (.of_eq ?_))
    · rw [if_neg (generated_ne_device hc.1 hi), List.nil_append]
    · by_cases he : cid' = cid
      · subst he
        rw [unread, unread, set_self, htaken]
        rfl
      · rw [unread, unread, set_other (Ne.symm he)]
        rfl

theorem Beside.request_unseen (h : Beside N i x m f) (hi : i < N.config.ccfMdt.length)
    (hg : generated cid = true) (hc : ¬ OfReader N i cid) (req : WireRequest) :
    Beside N i (sendRequest N x cid req) (m.post cid [.request cid req]) f := by
  refine h.moved rfl rfl rfl (fun cid' hc' => ?_) fun cid' hc' => ?_
  · refine (found_post _ _ _ _ _ _).subperm.trans ?_
    have he : cid ≠ cid' := fun he => hc (he ▸ hc')
    rw [if_neg he, List.nil_append]
  · refine (found_post _ _ _ _ _ _).trans ?_
    rw [if_neg (generated_ne_device hg hi), List.nil_append]

/-- The fleet can go on so that it is still beside the network. -/
def CanFollow (N : Site) (i : Nat) (D : Fleet → FleetMove → Prop) (f : Fleet)
    (y : NetState) : Prop :=
  ∃ g, Steps (fleet N.layout.sizeofRec N.args N.config.lcapCfg i) D f g ∧
    ∃ m, Mailed N y m ∧ Beside N i y m g

theorem CanFollow.stand {D : Fleet → FleetMove → Prop} (h : Mailed N y m) (hb : Beside N i y m f) :
    CanFollow N i D f y := Steps.stutter ⟨m, h, hb⟩

theorem CanFollow.step {D : Fleet → FleetMove → Prop} {g : Fleet} (hd : D f fm)
    (hs : fleetStep N.layout.sizeofRec N.args f fm = some g) (h : Mailed N y m)
    (hb : Beside N i y m g) :
    CanFollow N i D f y := Steps.follow hd hs ⟨m, h, hb⟩

theorem gate_px {c : Proc} {q : Peer} (h : c.owed = q.owed) (io : CallIo) (recv : Option Errno) :
    (c.gate io).px recv = q.gate (io.px recv) := by
  unfold Proc.gate Peer.gate
  rw [h]
  split <;> rfl

theorem same_waiting {c : Proc} {q : Peer} (h : Same L c q) (hw : c.waiting = some (call, io)) :
    q.waiting = some (call, io.px none) := by
  rw [← h.waiting, hw]
  rfl

theorem same_idle {c : Proc} {q : Peer} (h : Same L c q) (hw : ¬ c.waiting.isSome = true) :
    ¬ q.waiting.isSome = true := by
  rw [← h.waiting, Option.isSome_map]
  exact hw

/-- What a process does that is on both sides. -/
theorem set_peer (f : Fleet) (cid : ConnId) : f.set cid (f.peers cid) = f := by
  simp [Fleet.set]

theorem set_client (x : NetState) (cid : ConnId) : x.set cid (x.clients cid) = x := by
  simp [NetState.set]

theorem call_followed {D : Fleet → FleetMove → Prop} (h : Mailed N x m) (hb : Beside N i x m f)
    (hi : i < N.config.ccfMdt.length) (htok : Tokened f cid) (hc : OfReader N i cid)
    (hd : D f (.call cid call (io.px none)))
    (hs : netStep N x (.call cid call io) = some y) : CanFollow N i D f y := by
  have hsame := hb.peer cid hc
  simp only [netStep] at hs
  split at hs
  · cases hs
  rename_i hguard
  have hidle : ¬ (f.peers cid).waiting.isSome = true := same_idle hsame fun hw => hguard (.inl hw)
  have hfleet : ∀ {o}, (f.peers cid).outcome N.layout.sizeofRec (N.args cid)
      (((x.clients cid).gate io).px none) call = some o →
      (f.peers cid).outcome N.layout.sizeofRec (N.args cid) ((f.peers cid).gate (io.px none))
        call = some o := by
    intro o ho
    rwa [← gate_px hsame.owed]
  rcases turn_alike hsame.stage hsame.cache (N.args cid) ((x.clients cid).gate io) none call with
    ⟨hnone, _⟩ | ⟨t, o, ht, ho, halike⟩
  · rw [hnone] at hs
    cases hs
  have hout := hfleet ho
  rw [ht] at hs
  cases halike with
  | @ret r d' hleft =>
    cases r with
    | error _ => cases hs
    | ok d =>
      obtain rfl := Option.some.inj hs
      refine .step hd (g := f.finish cid (f.peers cid) d') ?_ (h.finish (h.owed cid) d) ?_
      · simp only [fleetStep, if_neg hidle, hout]
      · refine Beside.finish ?_ hc hleft
        rwa [set_client, set_peer]
  | @leave r d' req hleft =>
    cases r with
    | error _ => cases hs
    | ok d =>
      obtain rfl := Option.some.inj hs
      have howed := gated ((outcome_sends hout).1 _ _ rfl)
      refine .step hd (g := f.finish cid ((f.peers cid).sent req) d') ?_
        ((h.request hc.1 req).finish (fun _ => request_known N x cid req) d) ?_
      · simp only [fleetStep, if_neg hidle, hout]
      · exact (hb.request (c := { x.clients cid with owed := true }) (q := (f.peers cid).sent req)
          hi htok hc howed ⟨hsame.stage, hsame.cache, hsame.waiting, rfl⟩ rfl rfl).finish hc hleft
  | @ask req _ _ _ =>
    obtain rfl := Option.some.inj hs
    have howed := gated ((outcome_sends hout).2 _ _ rfl).1
    refine .step hd (g :=
      f.set cid { (f.peers cid).sent req with waiting := some (call, io.px none) }) ?_
      ((h.request hc.1 req).set (fun _ => request_known N x cid req) fun _ => hc.1) ?_
    · simp only [fleetStep, if_neg hidle, hout]
    · exact hb.request hi htok hc howed ⟨hsame.stage, hsame.cache, rfl, rfl⟩ rfl rfl

theorem call_unseen {D : Fleet → FleetMove → Prop} (h : Mailed N x m) (hb : Beside N i x m f)
    (hi : i < N.config.ccfMdt.length) (hc : ¬ OfReader N i cid)
    (hs : netStep N x (.call cid call io) = some y) : CanFollow N i D f y := by
  simp only [netStep] at hs
  split at hs
  · cases hs
  rename_i hguard
  have hg : generated cid = true := by simpa using fun he => hguard (.inr he)
  split at hs
  · cases hs
  · rename_i r _
    cases r with
    | error _ => cases hs
    | ok d =>
      obtain rfl := Option.some.inj hs
      exact .stand (h.finish (h.owed cid) d) (hb.finish_unseen hc d)
  · rename_i req r _
    cases r with
    | error _ => cases hs
    | ok d =>
      obtain rfl := Option.some.inj hs
      exact .stand ((h.request hg req).finish (fun _ => request_known N x cid req) d)
        ((hb.request_unseen hi hg hc req).finish_unseen hc d)
  · rename_i req _ _
    obtain rfl := Option.some.inj hs
    exact .stand ((h.request hg req).set (fun _ => request_known N x cid req) fun _ => hg)
      ((hb.request_unseen hi hg hc req).other hc)

/-- Only `lcap_changelog_recv` asks for records. -/
theorem outcome_dequeue {args : StartArgs} {q : Peer} {io : Client.PxIo} {resume : Reply → Done}
    (h : q.outcome recSize args io call = some (.ask (.px .dequeue) resume)) : call = .recv := by
  cases call with
  | recv => rfl
  | start =>
    simp only [Peer.outcome, Client.pxChangelogStart] at h
    split at h
    · cases h
    split at h
    · cases h
    split at h <;> cases h
  | free =>
    simp only [Peer.outcome] at h
    split at h <;> cases h
  | clear mdtname id endrec =>
    simp only [Peer.outcome, Client.pxChangelogClear] at h
    split at h
    · cases h
    split at h
    · cases h
    split at h
    · cases h
    split at h <;> cases h
  | fini =>
    simp only [Peer.outcome, Client.pxChangelogFini] at h
    split at h
    · cases h
    split at h <;> cases h

/-- The one reply that is on its way to a client. -/
theorem only_reply (hb : Beside N i x m f) (htok : Tokened f cid) (hc : OfReader N i cid)
    (hm : m.down cid = .reply cid rep :: letters) :
    unread f cid = [rep] ∧ found (Letter.replyOf cid) (m.hand cid letters)
      (N.device i) cid = [] := by
  have hperm := (found_hand hm (Letter.replyOf cid) (N.device i) cid).symm.trans
    (hb.answered cid hc)
  have hone := htok.token.one
  have hlen := hperm.length_eq
  simp only [if_pos, Letter.replyOf, Option.toList_some, List.singleton_append,
    List.length_cons] at hlen
  have hrest : found (Letter.replyOf cid) (m.hand cid letters) (N.device i) cid = [] :=
    List.eq_nil_of_length_eq_zero (by omega)
  refine ⟨?_, hrest⟩
  rw [hrest] at hperm
  simpa [Letter.replyOf] using hperm.symm

theorem Beside.receive (h : Beside N i x m f) (hi : i < N.config.ccfMdt.length)
    (htok : Tokened f cid) (hc : OfReader N i cid) (hm : m.down cid = .reply cid rep :: letters) :
    Beside N i (({ x with down := Function.update x.down cid rest } : NetState).set cid
        { x.clients cid with owed := false }) (m.hand cid letters)
      (f.set cid { f.peers cid with owed := false, taken := (f.peers cid).taken + 1 }) := by
  obtain ⟨hunread, hrest⟩ := only_reply h htok hc hm
  have hsame := h.peer cid hc
  refine ⟨⟨h.env, fun cid' hc' => ?_, h.hist⟩, fun cid' hc' => ?_, fun cid' hc' => ?_⟩
  · by_cases he : cid' = cid
    · subst he
      simp only [NetState.set, Fleet.set, Function.update_self]
      exact ⟨hsame.stage, hsame.cache, hsame.waiting, rfl⟩
    · simp only [NetState.set, Fleet.set, Function.update_of_ne he]
      exact h.peer cid' hc'
  · have hasked := h.asked cid' hc'
    have hperm := found_hand hm (Letter.requestOf cid') cid' (N.device i)
    rw [if_neg (generated_ne_device hc.1 hi), List.nil_append] at hperm
    refine hperm.symm.subperm.trans ?_
    by_cases he : cid' = cid
    · subst he
      rw [set_self]
      exact hasked
    · rw [set_other (Ne.symm he)]
      exact hasked
  · by_cases he : cid' = cid
    · subst he
      rw [hrest, unread, set_self, ← List.drop_drop]
      change List.Perm [] ((unread f cid').drop 1)
      rw [hunread]
      exact .refl _
    · have hperm := found_hand hm (Letter.replyOf cid') (N.device i) cid'
      rw [if_neg (Ne.symm he), List.nil_append] at hperm
      refine hperm.symm.trans ((h.answered cid' hc').trans (.of_eq ?_))
      rw [unread, unread, set_other (Ne.symm he)]
      rfl

/-- A client takes nothing but a reply off its connection. -/
theorem Mailed.reply (h : Mailed N x m) (hg : generated cid = true)
    (hdown : x.down cid = message :: rest) :
    ∃ rep bytes letters, m.down cid = .reply cid rep :: letters ∧ message = [[], bytes] ∧
      Renders N.layout rep bytes ∧ List.Forall₂ (Downward N cid) letters rest := by
  obtain ⟨letter, letters, hm, hl, hrest⟩ := h.receiver hdown
  cases hl with
  | request hj _ => exact absurd rfl (generated_ne_device hg hj)
  | refusal hj => exact absurd rfl (generated_ne_device hg hj)
  | reply _ hrep => exact ⟨_, _, letters, hm, rfl, hrep, hrest⟩

theorem receive_followed {D : Fleet → FleetMove → Prop} (h : Mailed N x m) (hb : Beside N i x m f)
    (hi : i < N.config.ccfMdt.length) (htok : Tokened f cid) (hc : OfReader N i cid)
    (hd : D f (.receive cid))
    (hs : netStep N x (.receive cid) = some y) : CanFollow N i D f y := by
  have hsame := hb.peer cid hc
  simp only [netStep] at hs
  split at hs
  case h_2 => cases hs
  rename_i call io message rest hw hdown
  split at hs
  case h_2 => cases hs
  rename_i req resume reply ht hr
  obtain ⟨rep, bytes, letters, hm, rfl, hrep, hrest⟩ := h.reply hc.1 hdown
  obtain rfl : [bytes] = reply := Option.some.inj hr
  rcases turn_alike hsame.stage hsame.cache (N.args cid) io none call with
    ⟨hnone, _⟩ | ⟨t, o, ht', ho, halike⟩
  · cases hnone.symm.trans ht
  cases ht'.symm.trans ht
  cases halike with
  | @ask _ _ resume' hask =>
    obtain ⟨hunread, _⟩ := only_reply hb htok hc hm
    have hleft := hask bytes rep fun _ => ⟨hrep, fun hreq => ?_⟩
    · cases hres : resume [bytes] with
      | error _ =>
        rw [hres] at hs
        cases hs
      | ok d =>
        rw [hres] at hs hleft
        obtain rfl := Option.some.inj hs
        refine .step hd (g := f.finish cid
            { f.peers cid with owed := false, taken := (f.peers cid).taken + 1 } (resume' rep)) ?_
          ((h.hand hrest).finish (fun ho => by cases ho) d)
            ((hb.receive hi htok hc hm).finish hc hleft)
        have hpend : (repliesTo cid f.env.trace).drop (f.peers cid).taken = [rep] := hunread
        simp only [fleetStep, same_waiting hsame hw, hpend, ho]
    · subst hreq
      rintro rfl
      obtain rfl := outcome_dequeue ho
      refine (htok.token.dequeue _ (same_waiting hsame hw)).2 ?_
      rw [hunread]
      exact List.mem_singleton_self _

theorem receive_unseen {D : Fleet → FleetMove → Prop} (h : Mailed N x m) (hb : Beside N i x m f)
    (hi : i < N.config.ccfMdt.length) (hc : ¬ OfReader N i cid)
    (hs : netStep N x (.receive cid) = some y) : CanFollow N i D f y := by
  simp only [netStep] at hs
  split at hs
  case h_2 => cases hs
  rename_i call io message rest hw hdown
  have hg : generated cid = true := h.waits cid (by rw [hw]; rfl)
  obtain ⟨rep, bytes, letters, hm, _, _, hrest⟩ := h.reply hg hdown
  split at hs
  case h_2 => cases hs
  rename_i req resume reply _ _
  cases hres : resume reply with
  | error _ =>
    rw [hres] at hs
    cases hs
  | ok d =>
    rw [hres] at hs
    obtain rfl := Option.some.inj hs
    refine .stand ((h.hand hrest).finish (fun ho => by cases ho) d) (Beside.finish_unseen ?_ hc d)
    refine hb.moved rfl rfl rfl (fun cid' hc' => ?_) fun cid' hc' => ?_
    · have hperm := found_hand hm (Letter.requestOf cid') cid' (N.device i)
      rw [if_neg (generated_ne_device hg hi), List.nil_append] at hperm
      exact hperm.symm.subperm
    · have hperm := found_hand hm (Letter.replyOf cid') (N.device i) cid'
      have he : cid ≠ cid' := fun he => hc (he ▸ hc')
      rw [if_neg he, List.nil_append] at hperm
      exact hperm.symm

theorem interrupt_followed {D : Fleet → FleetMove → Prop} (h : Mailed N x m) (hb : Beside N i x m f)
    (hc : OfReader N i cid) (hd : D f (.interrupt cid e))
    (hs : netStep N x (.interrupt cid e) = some y) : CanFollow N i D f y := by
  have hsame := hb.peer cid hc
  simp only [netStep] at hs
  split at hs
  case h_2 => cases hs
  rename_i call io hw
  split at hs
  case h_2 => cases hs
  rename_i req resume ht
  rcases turn_alike hsame.stage hsame.cache (N.args cid) io (some e) call with
    ⟨hnone, _⟩ | ⟨t, o, ht', ho, halike⟩
  · cases hnone.symm.trans ht
  cases ht'.symm.trans ht
  cases halike with
  | @ask _ _ resume' hask =>
    have hleft := hask [] (.ack 0) fun he => by cases he
    cases hres : resume [[]] with
    | error _ =>
      rw [hres] at hs
      cases hs
    | ok d =>
      rw [hres] at hs hleft
      obtain rfl := Option.some.inj hs
      have ho' : (f.peers cid).outcome N.layout.sizeofRec (N.args cid)
          { io.px none with recv := some e } call =
          some (.ask req resume') := ho
      refine .step hd (g := f.finish cid (f.peers cid) (resume' (.ack 0))) ?_
        (h.finish (h.owed cid) d) ?_
      · simp only [fleetStep, same_waiting hsame hw, ho']
      · refine Beside.finish ?_ hc hleft
        rwa [set_client, set_peer]

theorem interrupt_unseen {D : Fleet → FleetMove → Prop} (h : Mailed N x m) (hb : Beside N i x m f)
    (hc : ¬ OfReader N i cid) (hs : netStep N x (.interrupt cid e) = some y) :
    CanFollow N i D f y := by
  simp only [netStep] at hs
  split at hs
  case h_2 => cases hs
  split at hs
  case h_2 => cases hs
  rename_i resume _
  cases hres : resume [[]] with
  | error _ =>
    rw [hres] at hs
    cases hs
  | ok d =>
    rw [hres] at hs
    obtain rfl := Option.some.inj hs
    exact .stand (h.finish (h.owed cid) d) (hb.finish_unseen hc d)

end

end Lcap.Proofs
