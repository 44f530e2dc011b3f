import Lcap.Proofs.Capacity
import Lcap.Proofs.Relayed
import Lcap.Proofs.Replies

namespace Lcap.Proofs
open Reader Broker Net Wire Network Systems
open Client (ApiCall StartArgs WireRequest Peer Stage)

/-! ## The calls of a client with an array -/

/-- A cache whose counters fit the array that it has. -/
def Housed (z : PxCache) : Prop := Fitting z ∧ z.records ≠ none

theorem Housed.congr (h : Housed z) (hn : z'.recNxt = z.recNxt) (hc : z'.recCnt = z.recCnt)
    (hr : z'.records = z.records) : Housed z' :=
  ⟨h.1.congr hn hc hr, hr ▸ h.2⟩

theorem init_housed : Housed pzdInit := ⟨init_fitting, nofun⟩

/-- The array is lost to a failed `realloc` only. -/
theorem handle_keeps_array {L : RecLayout} (h : z.records ≠ none) (hgrow : io.grow = true)
    (hr : handleReply L io z reply = .ok (z', rc)) : z'.records ≠ none := by
  have hcached : ∀ {m count arr}, cacheRecords L (z.malloc m) z.nextBuf m count (some arr) =
      .ok (z', rc) →
      z'.records ≠ none := by
    intro m count arr hc
    simp only [cacheRecords] at hc
    split at hc
    · cases hc
    · cases hc
      exact Option.some_ne_none _
  simp only [handleReply] at hr
  split at hr
  · cases hr
    exact h
  split at hr
  · cases hr
    exact h
  split at hr
  · split at hr
    · cases hr
      exact h
    split at hr
    · cases hr
      exact h
    · cases hr
      exact h
  · split at hr
    · cases hr
      exact h
    split at hr
    · exact hcached hr
    · obtain ⟨arr, ha⟩ := Option.ne_none_iff_exists'.mp h
      have hold : ∀ m, (z.malloc m).records = some arr := fun _ => ha
      rw [hold] at hr
      exact hcached hr
  · cases hr
    exact h

/-- The cache of a context that has not ended is housed. -/
def Lodged (stage : Stage) (z : PxCache) : Prop := stage ≠ .ended → Housed z

/-- What the turn leaves is housed or ended, once a reply has been received if it asks for
one. -/
inductive Secure (L : RecLayout) (recv : Option Errno) : Turn → Prop
  | ret (h : Lodged d.stage d.cache) : Secure L recv (.ret (.ok d))
  | leave (h : Lodged d.stage d.cache) : Secure L recv (.leave req (.ok d))
  | ask (h : ∀ bytes rep, Heard L req recv bytes rep → ∃ d, goOn [bytes] = .ok d ∧
      Lodged d.stage d.cache) :
    Secure L recv (.ask req goOn)

section
variable {L : RecLayout} {z : PxCache} {io : CallIo} {recv : Option Errno}
  {bytes : List UInt8} {rep : Reply}

/-- A reply to a DEQUEUE is cached or refused. -/
theorem reply_housed (h : Housed z) (hempty : z.recNxt = z.recCnt) (hgrow : io.grow = true)
    (hheard : Heard L (.px .dequeue) recv bytes rep) :
    ∃ z' rc, handleReply L (io.dequeue recv) z [bytes] = .ok (z', rc) ∧ Housed z' ∧
      (rc = 0 → z'.recNxt ≠ z'.recCnt) := by
  have hhandled : Handled (handleReply L (io.dequeue recv) z [bytes]) := by
    cases recv with
    | some e =>
      refine unreceived_handled h.1 fun hw => ?_
      cases (hw.1 0 Nat.one_pos).1
    | none =>
      obtain ⟨hrep, hne⟩ := hheard rfl
      cases hrep with
      | ack hrc =>
        refine ack_handled h.1 ?_ List.flatten_singleton
        rw [hrc]
        exact fun h0 => hne rfl (congrArg Reply.ack h0)
      | enqueue hrecs =>
        exact enqueue_handled h.1 hempty (described_all hrecs) List.flatten_singleton
          fun ha => absurd ha h.2
  obtain ⟨z', rc, hr, hfit, hleft⟩ := hhandled
  exact ⟨z', rc, hr, ⟨hfit, handle_keeps_array h.2 hgrow hr⟩, hleft⟩

/-- A record that is left to take is taken. -/
theorem Housed.take (h : Housed z) (hne : z.recNxt ≠ z.recCnt) :
    ∃ d, afterRecv (takeNext z) = .ok d ∧ Housed d.cache := by
  obtain ⟨z', p, htake, hfit⟩ := h.1.take hne
  refine ⟨_, by rw [htake]; rfl, hfit, ?_⟩
  unfold takeNext at htake
  split at htake
  · cases htake
  split at htake
  · cases htake
  · cases htake
    exact h.2

theorem recv_secure (h : Housed z) (hgrow : io.grow = true) :
    Secure L recv (turnOf (.px .dequeue) afterRecv (pxChangelogRecv L (io.dequeue recv) z)) := by
  rcases recv_cases L (io.dequeue recv) z with
    ⟨hne, hr⟩ | ⟨hempty, ⟨rc, hr⟩ | ⟨_, ⟨rc, hr⟩ | ⟨_, hr⟩⟩⟩
  · obtain ⟨d, hd, hhoused⟩ := h.take hne
    rw [hr, turnOf, hd]
    exact .ret fun _ => hhoused
  · rw [hr]
    exact .ret fun _ => h
  · rw [hr]
    exact .leave fun _ => h
  · rw [hr]
    refine .ask fun bytes rep hheard => ?_
    obtain ⟨z', rc, hz', hhoused, hleft⟩ := reply_housed h hempty hgrow hheard
    simp only [hz', afterReply]
    by_cases hrc : rc = 0
    · rw [if_neg (not_not.mpr hrc)]
      obtain ⟨d, hd, hleft⟩ := hhoused.take (hleft hrc)
      exact ⟨d, hd, fun _ => hleft⟩
    · rw [if_pos hrc]
      exact ⟨_, rfl, fun _ => hhoused⟩

/-- No call of a housed client ends in a crash. -/
theorem turn_secure {args : StartArgs} {c : Proc} (h : Lodged c.stage c.cache)
    (hgrow : io.grow = true) (ht : c.turn L args io recv call = some t) : Secure L recv t := by
  have hhoused : ¬ c.stage ≠ .started → Housed c.cache := by
    intro hstage
    refine h fun hended => ?_
    cases hended.symm.trans (not_not.mp hstage)
  cases call with
  | start =>
    simp only [Proc.turn] at ht
    split at ht
    · cases ht
    cases ht
    unfold pxChangelogStart
    split
    · exact .ret fun _ => init_housed
    split
    · exact .ret fun _ => init_housed
    · exact .ret fun _ => init_housed
    · exact .ask fun _ _ _ => ⟨_, rfl, fun _ => init_housed⟩
  | recv =>
    simp only [Proc.turn] at ht
    split at ht
    · cases ht
    rename_i hstage
    cases ht
    exact recv_secure (hhoused hstage) hgrow
  | free =>
    simp only [Proc.turn] at ht
    split at ht
    · cases ht
    rename_i hstage
    cases ht
    obtain ⟨hrec, hnxt, hcnt, _⟩ := free_remaining L c.cache
    exact .ret fun _ => (hhoused hstage).congr hnxt hcnt hrec
  | clear mdtname id endrec =>
    simp only [Proc.turn] at ht
    split at ht
    · cases ht
    rename_i hstage
    have h := hhoused hstage
    cases ht
    unfold pxChangelogClear
    split
    · exact .ret fun _ => h
    split
    · exact .ret fun _ => h
    split
    · exact .ret fun _ => h
    · exact .ask fun _ _ _ => ⟨_, rfl, fun _ => h⟩
  | fini =>
    simp only [Proc.turn] at ht
    split at ht
    · cases ht
    rename_i hstage
    have h := hhoused hstage
    cases ht
    unfold pxChangelogFini
    split
    · exact .ret fun _ => h
    · refine .ask fun bytes _ _ => ?_
      split
      · exact ⟨_, rfl, fun _ => h⟩
      · exact ⟨_, rfl, fun hended => absurd rfl hended⟩

end

/-! ## Where messages go -/

section
variable {N : Site} {x y : NetState} {m : Mail} {cid : ConnId} {i : Nat}

/-- A client of one of the readers. -/
def OfServer (N : Site) (cid : ConnId) : Prop := ∃ i, i < N.config.ccfMdt.length ∧ OfReader N i cid

theorem route_elsewhere (hne : dst ≠ cid) (x : NetState) (parts : Parts UInt8) :
    (x.route (dst :: parts)).down cid = x.down cid := by
  cases hk : x.known dst with
  | false => rw [route_unknown hk]
  | true =>
    rw [route_known hk]
    exact Function.update_of_ne hne.symm _ _

/-- The broker finds something to do with every message, and sends a client only what a
reader has sent to it. -/
theorem broker_turns (h : Mailed N x m) (hup : x.up who ≠ []) :
    ∃ y, brokerTurn x who = some y ∧
      ∀ cid, generated cid = true → y.down cid = x.down cid ∨ OfServer N cid := by
  obtain ⟨message, rest, hup⟩ := List.exists_cons_of_ne_nil hup
  obtain ⟨letter, letters, hm, hl, hrest⟩ := h.sender hup
  cases hl with
  | request hc =>
    by_cases hmdt : (N.args who).mdtname = []
    · rw [hmdt] at hup
      exact ⟨_, broker_drops_request hup (generated_ne_nil hc), fun _ _ => .inl rfl⟩
    · refine ⟨_, broker_takes_request hup (generated_ne_nil hc) hmdt, fun cid hg => .inl ?_⟩
      have hne : (N.args who).mdtname ≠ cid := fun he => N.asked who (he ▸ generated_zero hg)
      exact route_elsewhere hne _ _
  | @reply i cid' rep bytes hi hc hrep =>
    refine ⟨_, broker_takes_reply hup (device_named hi).1 (generated_ne_nil hc.1) hrep,
      fun cid hg => ?_⟩
    by_cases he : cid' = cid
    · exact .inr ⟨i, hi, he ▸ hc⟩
    · exact .inl (route_elsewhere he _ _)
  | @signal i errcode hi =>
    obtain ⟨ctx, ht | ⟨ret, ht⟩⟩ := broker_takes_signal hup (device_named hi).1
    · exact ⟨_, ht, fun _ _ => .inl rfl⟩
    · refine ⟨_, ht, fun cid hg => .inl ?_⟩
      exact route_elsewhere (generated_ne_device hg hi).symm _ _

theorem finish_call_down (hs : finishCall L x cid c r = some y) : y.down = x.down := by
  cases r with
  | error _ => cases hs
  | ok d =>
    obtain rfl := Option.some.inj hs
    rfl

/-- A reader takes a message off its own connection. -/
theorem reader_turn_down (hs : readerTurn N x i io = some y) (hne : cid ≠ N.device i) :
    y.down cid = x.down cid := by
  cases hdown : x.down (N.device i) with
  | nil => simp [readerTurn, hdown] at hs
  | cons message rest =>
    simp only [readerTurn, hdown] at hs
    obtain ⟨⟨env, rc, inbox⟩, _, hs⟩ := Option.bind_eq_some_iff.mp hs
    obtain ⟨env, _, hs⟩ := Option.bind_eq_some_iff.mp hs
    obtain ⟨out, _, rfl⟩ := Option.map_eq_some_iff.mp hs
    exact Function.update_of_ne hne _ _

/-- Only the broker sends to a client, and only for its reader. -/
theorem down_grows (h : Mailed N x m) (hs : netStep N x l = some y) (hg : generated cid = true)
    (hd : y.down cid ≠ []) : x.down cid ≠ [] ∨ OfServer N cid := by
  have hsame : y.down = x.down → x.down cid ≠ [] ∨ OfServer N cid := fun he => .inl (he ▸ hd)
  cases l with
  | join i =>
    simp only [netStep] at hs
    split at hs
    · cases hs
    · obtain rfl := Option.some.inj hs
      exact hsame rfl
  | call cid' call io =>
    simp only [netStep] at hs
    split at hs
    · cases hs
    split at hs
    · cases hs
    · exact hsame (finish_call_down hs)
    · exact hsame ((finish_call_down hs).trans rfl)
    · obtain rfl := Option.some.inj hs
      exact hsame rfl
  | forward who =>
    have hs : brokerTurn x who = some y := hs
    have hup : x.up who ≠ [] := fun hnil => by simp [brokerTurn, hnil] at hs
    obtain ⟨z, hz, hto⟩ := broker_turns h hup
    obtain rfl := Option.some.inj (hz.symm.trans hs)
    exact (hto cid hg).imp (fun he hnil => hd (he.trans hnil)) id
  | serve i io =>
    simp only [netStep] at hs
    split at hs
    · cases hs
    · rename_i hi
      have hne := generated_ne_device (N := N) (i := i) hg (Nat.not_le.mp hi)
      exact .inl (reader_turn_down hs hne ▸ hd)
  | receive cid' =>
    simp only [netStep] at hs
    split at hs
    · rename_i message rest _ hdown
      split at hs
      · have hy := finish_call_down hs
        by_cases he : cid = cid'
        · subst he
          exact .inl (by simp [hdown])
        · rw [hy] at hd
          simp only [Function.update_of_ne he] at hd
          exact .inl hd
      · cases hs
    · cases hs
  | interrupt cid' e =>
    simp only [netStep] at hs
    split at hs
    · split at hs
      · exact hsame (finish_call_down hs)
      · cases hs
    · cases hs
  | enqueue i startRc script =>
    simp only [netStep] at hs
    split at hs
    · cases hs
    unfold enqueueTurn at hs
    split at hs
    · obtain rfl := Option.some.inj hs
      refine hsame ?_
      split <;> rfl
    · cases hs
  | sigterm =>
    obtain rfl := Option.some.inj hs
    exact hsame rfl

theorem reach_mailed (h : Reach (network N) (LawfulMove N) x) (hi : i < N.config.ccfMdt.length) :
    ∃ m, Mailed N x m := by
  obtain ⟨_, _, m, hm, _⟩ := reach_beside (D := Always) h hi (fun _ _ hl => hl) fun _ _ _ _ _ _ _ =>
    trivial
  exact ⟨m, hm⟩

theorem answered_clients (h : Reach (network N) (LawfulMove N) x) (hi : i < N.config.ccfMdt.length)
    (hg : generated cid = true) (hd : x.down cid ≠ []) : OfServer N cid := by
  induction h with
  | refl => exact absurd rfl hd
  | tail hr _ hs ih =>
    obtain ⟨m, hm⟩ := reach_mailed hr hi
    exact (down_grows hm hs hg hd).elim ih id

/-- What a waiting client receives is an answer to its request. -/
theorem heard_reply (h : Reach (network N) (LawfulMove N) x) (hc : OfServer N cid)
    (hw : (x.clients cid).waiting = some (call, io))
    (ht : (x.clients cid).turn N.layout (N.args cid) io none call = some (.ask req goOn))
    (hdown : x.down cid = message :: rest) :
    ∃ bytes rep, reqReceive message = some [bytes] ∧ Heard N.layout req none bytes rep := by
  obtain ⟨i, hi, hc⟩ := hc
  obtain ⟨f, hf, m, hm, hb⟩ := reach_beside (D := Always) h hi (fun _ _ hl => hl)
    fun _ _ _ _ _ _ _ => trivial
  have htok := reach_tokened hf cid
  have hsame := hb.peer cid hc
  obtain ⟨rep, bytes, letters, hml, rfl, hrep, _⟩ := hm.reply hc.1 hdown
  refine ⟨bytes, rep, rfl, fun _ => ⟨hrep, fun hreq => ?_⟩⟩
  rcases turn_alike hsame.stage hsame.cache (N.args cid) io none call with
    ⟨hnone, _⟩ | ⟨t, o, ht', ho, halike⟩
  · cases hnone.symm.trans ht
  cases ht'.symm.trans ht
  cases halike with
  | ask _ =>
    subst hreq
    rintro rfl
    obtain rfl := outcome_dequeue ho
    refine (htok.token.dequeue _ (same_waiting hsame hw)).2 ?_
    rw [(only_reply hb htok hc hml).1]
    exact List.mem_singleton_self _

end

/-! ## Clients that wait -/

section
variable {L : RecLayout} {args : StartArgs} {c : Proc} {io : CallIo}

/-- Whether a call asks, and for what, does not depend on how it receives the reply. -/
theorem ask_any (h : c.turn L args io recv call = some (.ask req goOn)) (recv' : Option Errno) :
    io.send = none ∧ ∃ goOn', c.turn L args io recv' call = some (.ask req goOn') := by
  cases call with
  | start =>
    simp only [Proc.turn, pxChangelogStart] at h ⊢
    split at h
    · cases h
    rename_i hstage
    rw [if_neg hstage]
    split at h
    · cases h
    rename_i halloc
    rw [if_neg halloc]
    split at h
    · cases h
    · cases h
    · rename_i hsetup hsend
      cases h
      exact ⟨hsend, _, rfl⟩
  | recv =>
    simp only [Proc.turn] at h ⊢
    split at h
    · cases h
    rename_i hstage
    rw [if_neg hstage]
    rcases recv_cases L (io.dequeue recv) c.cache with
      ⟨hne, hr⟩ | ⟨hempty, ⟨rc, hr⟩ | ⟨hsend, ⟨rc, hr⟩ | ⟨halloc, hr⟩⟩⟩
    · rw [hr] at h
      cases h
    · rw [hr] at h
      cases h
    · rw [hr] at h
      cases h
    · rw [hr] at h
      cases h
      have hsend' : (io.dequeue recv').send = none := hsend
      have halloc' : (io.dequeue recv').alloc = true := halloc
      simp only [pxChangelogRecv, pxDequeueRecords, if_pos hempty, hsend', if_pos halloc']
      exact ⟨hsend, _, rfl⟩
  | free =>
    simp only [Proc.turn] at h
    split at h
    · cases h
    · cases h
  | clear mdtname id endrec =>
    simp only [Proc.turn, pxChangelogClear] at h ⊢
    split at h
    · cases h
    rename_i hstage
    rw [if_neg hstage]
    split at h
    · cases h
    rename_i hleft
    rw [if_neg hleft]
    split at h
    · cases h
    rename_i halloc
    have halloc' : (!(io.dequeue recv').alloc) ≠ true := halloc
    rw [if_neg halloc']
    split at h
    · cases h
    · rename_i hsend
      cases h
      have hsend' : (io.dequeue recv').send = none := hsend
      rw [hsend']
      exact ⟨hsend, _, rfl⟩
  | fini =>
    simp only [Proc.turn, pxChangelogFini] at h ⊢
    split at h
    · cases h
    rename_i hstage
    rw [if_neg hstage]
    split at h
    · cases h
    · rename_i hsend
      cases h
      rw [hsend]
      exact ⟨rfl, _, rfl⟩

theorem ungated (h : (c.gate io).send = none) : c.gate io = io := by
  unfold Proc.gate at h ⊢
  split at h
  · cases h
  · rename_i ho
    rw [if_neg ho]

end

/-- A client that has an array as long as it has a context, and that asks for something
where it waits. -/
structure Sound (N : Site) (x : NetState) (cid : ConnId) : Prop where
  housed : Lodged (x.clients cid).stage (x.clients cid).cache
  asks : ∀ call io, (x.clients cid).waiting = some (call, io) → io.grow = true ∧
    ∃ req goOn, (x.clients cid).turn N.layout (N.args cid) io none call = some (.ask req goOn)

/-- No `realloc` fails. -/
def Growing : NetMove → Prop
  | .call _ _ io => io.grow = true
  | _ => True

/-- What the readers are given makes sense, and no `realloc` of a client fails. -/
def GrowingMove (N : Site) (x : NetState) (l : NetMove) : Prop := LawfulMove N x l ∧ Growing l

instance : (l : NetMove) → Decidable (Growing l)
  | .call _ _ io => inferInstanceAs (Decidable (io.grow = true))
  | .join _ | .forward _ | .serve _ _ | .receive _ | .interrupt _ _ | .enqueue _ _ _ | .sigterm =>
    .isTrue trivial

instance (N : Site) (x : NetState) (l : NetMove) : Decidable (GrowingMove N x l) :=
  inferInstanceAs (Decidable (_ ∧ _))

section
variable {N : Site} {x y : NetState} {cid : ConnId} {i : Nat}

theorem Sound.congr (h : Sound N x cid) (hc : y.clients cid = x.clients cid) : Sound N y cid := by
  refine ⟨?_, ?_⟩
  · rw [hc]
    exact h.housed
  · rw [hc]
    exact h.asks

/-- A call that is over leaves a client that does not wait. -/
theorem finish_sound (hd : Lodged d.stage d.cache) (x : NetState) (c : Proc) :
    Sound N (x.finish N.layout cid c d) cid := by
  have hself : (x.finish N.layout cid c d).clients cid =
      { c with stage := d.stage, cache := d.cache, waiting := none } := Function.update_self _ _ _
  refine ⟨?_, fun call io hw => ?_⟩
  · rw [hself]
    exact hd
  · rw [hself] at hw
    cases hw

theorem finish_other_client (hne : cid' ≠ cid) (hs : finishCall L x cid' c r = some y) :
    y.clients cid = x.clients cid := by
  cases r with
  | error _ => cases hs
  | ok d =>
    obtain rfl := Option.some.inj hs
    exact Function.update_of_ne hne.symm _ _

theorem route_clients (x : NetState) (parts : Parts UInt8) :
    (x.route parts).clients = x.clients := by
  unfold NetState.route
  split
  · rfl
  · split <;> rfl

theorem broker_turn_clients (hs : brokerTurn x who = some y) : y.clients = x.clients := by
  cases hup : x.up who with
  | nil => simp [brokerTurn, hup] at hs
  | cons message rest =>
    simp only [brokerTurn, hup] at hs
    obtain ⟨⟨ctx, rc, inbox⟩, _, rfl⟩ := Option.map_eq_some_iff.mp hs
    have hfold : ∀ (sent : List (Parts UInt8)) (z : NetState), z.clients = x.clients →
        (sent.foldl NetState.route z).clients = x.clients := by
      intro sent
      induction sent with
      | nil => exact fun _ hz => hz
      | cons parts sent ih => exact fun z hz => ih _ ((route_clients z parts).trans hz)
    exact hfold _ _ rfl

theorem reader_turn_clients (hs : readerTurn N x i io = some y) : y.clients = x.clients := by
  cases hdown : x.down (N.device i) with
  | nil => simp [readerTurn, hdown] at hs
  | cons message rest =>
    simp only [readerTurn, hdown] at hs
    obtain ⟨⟨env, rc, inbox⟩, _, hs⟩ := Option.bind_eq_some_iff.mp hs
    obtain ⟨env, _, hs⟩ := Option.bind_eq_some_iff.mp hs
    obtain ⟨out, _, rfl⟩ := Option.map_eq_some_iff.mp hs
    rfl

/-- The call of a sound client is made, and leaves it sound. -/
theorem call_sound (h : Sound N x cid) (hidle : (x.clients cid).waiting = none)
    (hg : generated cid = true) (hgrow : io.grow = true)
    (ht : (x.clients cid).turn N.layout (N.args cid) ((x.clients cid).gate io) none call = some t) :
    ∃ y, netStep N x (.call cid call io) = some y ∧ Sound N y cid := by
  have hguard : ¬ ((x.clients cid).waiting.isSome = true ∨ (!generated cid) = true) := by
    rw [hidle, hg]
    simp
  have hgate : ((x.clients cid).gate io).grow = true := by
    unfold Proc.gate
    split <;> exact hgrow
  have hsec := turn_secure h.housed hgate ht
  simp only [netStep, if_neg hguard, ht]
  cases hsec with
  | ret hd => exact ⟨_, rfl, finish_sound hd x _⟩
  | leave hd => exact ⟨_, rfl, finish_sound hd _ _⟩
  | @ask req goOn _ =>
    have hself : ((sendRequest N x cid req).set cid
        { x.clients cid with owed := true, waiting := some (call, io) }).clients cid =
          { x.clients cid with
            owed := true, waiting := some (call, io) } := Function.update_self _ _ _
    refine ⟨_, rfl, ?_, fun call' io' hw => ?_⟩
    · rw [hself]
      exact h.housed
    · rw [hself] at hw ⊢
      cases hw
      rw [ungated (ask_any ht none).1] at ht
      exact ⟨hgrow, req, goOn, ht⟩

/-- A reply that is there is received, and leaves the client sound. -/
theorem receive_sound (h : Sound N x cid) (hr : Reach (network N) (LawfulMove N) x)
    (hc : OfServer N cid) (hw : (x.clients cid).waiting.isSome = true) (hdown : x.down cid ≠ []) :
    ∃ y, netStep N x (.receive cid) = some y ∧ Sound N y cid := by
  obtain ⟨⟨call, io⟩, hw⟩ := Option.isSome_iff_exists.mp hw
  obtain ⟨message, rest, hdown⟩ := List.exists_cons_of_ne_nil hdown
  obtain ⟨hgrow, req, goOn, ht⟩ := h.asks call io hw
  obtain ⟨bytes, rep, hm, hheard⟩ := heard_reply hr hc hw ht hdown
  have hsec := turn_secure h.housed hgrow ht
  simp only [netStep, hw, hdown, ht, hm]
  cases hsec with
  | ask hask =>
    obtain ⟨d, hd, hhoused⟩ := hask bytes rep hheard
    rw [hd]
    exact ⟨_, rfl, finish_sound hhoused _ _⟩

/-- A client can always give up waiting. -/
theorem interrupt_sound (h : Sound N x cid)
    (hw : (x.clients cid).waiting.isSome = true) (e : Errno) :
    ∃ y, netStep N x (.interrupt cid e) = some y ∧ Sound N y cid := by
  obtain ⟨⟨call, io⟩, hw⟩ := Option.isSome_iff_exists.mp hw
  obtain ⟨hgrow, req, goOn, ht⟩ := h.asks call io hw
  obtain ⟨_, goOn', ht'⟩ := ask_any ht (some e)
  have hsec := turn_secure h.housed hgrow ht'
  simp only [netStep, hw, ht']
  cases hsec with
  | ask hask =>
    obtain ⟨d, hd, hhoused⟩ := hask [] (.ack 0) fun he => absurd he (Option.some_ne_none e)
    rw [hd]
    exact ⟨_, rfl, finish_sound hhoused _ _⟩

/-- What other clients do does not concern it. -/
theorem Sound.elsewhere (h : Sound N x cid) (hne : cid' ≠ cid) (hs : netStep N x l = some y)
    (hl : (∃ call io, l = .call cid' call io) ∨ l = .receive cid' ∨ ∃ e, l = .interrupt cid' e) :
    Sound N y cid := by
  refine h.congr ?_
  rcases hl with ⟨call, io, rfl⟩ | rfl | ⟨e, rfl⟩
  · simp only [netStep] at hs
    split at hs
    · cases hs
    split at hs
    · cases hs
    · exact finish_other_client hne hs
    · exact (finish_other_client hne hs).trans rfl
    · obtain rfl := Option.some.inj hs
      exact Function.update_of_ne hne.symm _ _
  · simp only [netStep] at hs
    split at hs
    · split at hs
      · exact (finish_other_client hne hs).trans rfl
      · cases hs
    · cases hs
  · simp only [netStep] at hs
    split at hs
    · split at hs
      · exact finish_other_client hne hs
      · cases hs
    · cases hs

theorem Sound.step (h : Sound N x cid) (hr : Reach (network N) (LawfulMove N) x)
    (hi : i < N.config.ccfMdt.length)
    (hgrow : Growing l) (hs : netStep N x l = some y) : Sound N y cid := by
  cases l with
  | join j =>
    simp only [netStep] at hs
    split at hs
    · cases hs
    · obtain rfl := Option.some.inj hs
      exact h.congr rfl
  | call cid' call io =>
    by_cases he : cid' = cid
    · subst he
      have hmade := hs
      simp only [netStep] at hs
      split at hs
      · cases hs
      rename_i hguard
      obtain ⟨hidle, hg⟩ := not_or.mp hguard
      cases ht : (x.clients cid').turn N.layout (N.args cid') ((x.clients cid').gate io)
        none call with
      | none =>
        rw [ht] at hs
        cases hs
      | some t =>
        obtain ⟨z, hz, hsound⟩ := call_sound h (by simpa using hidle) (by simpa using hg) hgrow ht
        obtain rfl := Option.some.inj (hz.symm.trans hmade)
        exact hsound
    · exact h.elsewhere he hs (.inl ⟨call, io, rfl⟩)
  | forward who => exact h.congr (congrFun (broker_turn_clients hs) cid)
  | serve j io =>
    simp only [netStep] at hs
    split at hs
    · cases hs
    · exact h.congr (congrFun (reader_turn_clients hs) cid)
  | receive cid' =>
    by_cases he : cid' = cid
    · subst he
      have hmade := hs
      simp only [netStep] at hs
      split at hs
      · rename_i hw hdown
        have hwaits := congrArg Option.isSome hw
        have hthere : x.down cid' ≠ [] := by simp [hdown]
        have hg : generated cid' = true := by
          obtain ⟨m, hm⟩ := reach_mailed hr hi
          exact hm.waits cid' hwaits
        obtain ⟨z, hz, hsound⟩ :=
          receive_sound h hr (answered_clients hr hi hg hthere) hwaits hthere
        obtain rfl := Option.some.inj (hz.symm.trans hmade)
        exact hsound
      · cases hs
    · exact h.elsewhere he hs (.inr (.inl rfl))
  | interrupt cid' e =>
    by_cases he : cid' = cid
    · subst he
      have hmade := hs
      simp only [netStep] at hs
      split at hs
      · rename_i hw
        obtain ⟨z, hz, hsound⟩ := interrupt_sound h (congrArg Option.isSome hw) e
        obtain rfl := Option.some.inj (hz.symm.trans hmade)
        exact hsound
      · cases hs
    · exact h.elsewhere he hs (.inr (.inr ⟨e, rfl⟩))
  | enqueue j startRc script =>
    refine h.congr ?_
    simp only [netStep] at hs
    split at hs
    · cases hs
    unfold enqueueTurn at hs
    split at hs
    · obtain rfl := Option.some.inj hs
      split <;> rfl
    · cases hs
  | sigterm =>
    obtain rfl := Option.some.inj hs
    exact h.congr rfl

theorem reach_sound (h : Reach (network N) (GrowingMove N) x) (hi : i < N.config.ccfMdt.length)
    (cid : ConnId) :
    Sound N x cid := by
  induction h with
  | refl => exact ⟨fun _ => init_housed, nofun⟩
  | tail hr hl hs ih => exact ih.step (hr.mono fun _ _ h => h.1) hi hl.2 hs

/-! ## The readers -/

/-- What a reader sends is packed without a fault. -/
theorem sent_packed (hr : Reach (reader N.config.lcapCfg i) (Lawful N i) t) (before : ReaderEnv) :
    ∃ out, sentBy N i before t = some out := by
  have hall : ∀ p ∈ messages (t.trace.drop before.trace.length), ∃ bytes,
      N.packReply i p.2 = some bytes := by
    intro p hp
    obtain ⟨e, he, hp⟩ := List.mem_filterMap.mp hp
    have hmem : e ∈ t.trace := List.mem_of_mem_drop he
    unfold messageOf at hp
    split at hp
    · split at hp
      · cases hp
        obtain ⟨bytes, hbytes, _⟩ := message_renders hr hmem
        exact ⟨bytes, hbytes⟩
      · cases hp
    · cases hp
  unfold sentBy
  generalize messages (t.trace.drop before.trace.length) = sent at hall
  induction sent with
  | nil => exact ⟨_, rfl⟩
  | cons p sent ih =>
    obtain ⟨bytes, hbytes⟩ := hall p List.mem_cons_self
    obtain ⟨out, hout⟩ := ih fun q hq => hall q (List.mem_cons_of_mem p hq)
    obtain ⟨dst, msg⟩ := p
    have hbytes : N.packReply i msg = some bytes := hbytes
    refine ⟨peerFrames none dst bytes :: out, ?_⟩
    simp only [List.mapM_cons, hout, hbytes]
    rfl

/-- A reader that goes on handles every request but those that read a released bucket. -/
theorem request_halts (hr : Reach (reader cfg idx) C s)
    (hs : readerStep s (.request req io) = none) :
    s.stopped = true ∨ ReadsReleased s req io := by
  simp only [readerStep] at hs
  split at hs
  · exact .inl ‹_›
  split at hs
  · cases hs
  rename_i e herr
  refine .inr ?_
  rcases bind_error herr with hd | ⟨⟨t, rc⟩, _, hd⟩
  · exact dispatch_error (reach_shape hr) hd
  · simp only [pure, Except.pure] at hd
    split at hd
    · cases hd
    · cases hd

/-- The next message for the reader is this request of one of its clients. -/
def Awaiting (N : Site) (x : NetState) (i : Nat) (cid : ConnId) (req : WireRequest) : Prop :=
  OfReader N i cid ∧ (x.down (N.device i)).head? = some [[], cid, [], (req.pack cid).lrBody]

/-- A reader serves the message that it finds, unless it has stopped or this is a request
that reads a bucket which has been released. -/
theorem reader_serves (h : Reach (network N) (LawfulMove N) x) (hi : i < N.config.ccfMdt.length)
    (hl : LawfulMove N x (.serve i io)) (hdown : x.down (N.device i) ≠ []) :
    (∃ y, netStep N x (.serve i io) = some y) ∨ (x.readers i).stopped = true ∨
      ∃ cid req, Awaiting N x i cid req ∧ ReadsReleased (x.readers i) (req.pack cid) io := by
  obtain ⟨m, hm⟩ := reach_mailed h hi
  have hreader := reach_readers h i
  obtain ⟨message, rest, hdown⟩ := List.exists_cons_of_ne_nil hdown
  have hserve : netStep N x (.serve i io) = readerTurn N x i io := if_neg (Nat.not_le.mpr hi)
  rw [hserve]
  rcases hm.serves hi hdown with ⟨cid, req, letters, hc, _, rfl, _⟩ | ⟨ret, letters, _, rfl, _⟩
  · obtain ⟨_, _, hhdr, _⟩ := request_for_reader cid req
    rw [reader_takes_request hdown (generated_ne_nil hc.1) (ne_nil_of_length hhdr), pack_eq]
    cases hstep : readerStep (x.readers i) (.request (req.pack cid) io) with
    | none =>
      refine .inr ((request_halts hreader hstep).imp_right fun hreads =>
        ⟨cid, req, ⟨hc, ?_⟩, hreads⟩)
      rw [hdown]
      rfl
    | some env =>
      have hlaw : Lawful N i (x.readers i) (.request (req.pack cid) io) := hl
      obtain ⟨out, hout⟩ := sent_packed (hreader.tail hlaw hstep) (x.readers i)
      rw [Option.bind_some, hout]
      exact .inl ⟨_, rfl⟩
  · obtain ⟨out, hout⟩ := sent_packed hreader (x.readers i)
    rw [reader_takes_refusal hdown, hout]
    exact .inl ⟨_, rfl⟩

/-! ## The server -/

/-- The calls that a context is there for. -/
def Ready (c : Proc) : ApiCall → Prop
  | .start => c.stage = .unstarted
  | .recv | .free | .clear _ _ _ | .fini => c.stage = .started

theorem Ready.turn {c : Proc} (h : Ready c call) (L : RecLayout) (args : StartArgs) (io : CallIo) :
    ∃ t, c.turn L args io none call = some t := by
  cases call with
  | start => exact ⟨_, if_neg (not_not.mpr h)⟩
  | recv => exact ⟨_, if_neg (not_not.mpr h)⟩
  | free => exact ⟨_, if_neg (not_not.mpr h)⟩
  | clear mdtname id endrec => exact ⟨_, if_neg (not_not.mpr h)⟩
  | fini => exact ⟨_, if_neg (not_not.mpr h)⟩

/-- Whoever has something to do can do it, but for a reader that has stopped, or that the
next request takes to a released bucket. -/
structure Responsive (N : Site) (x : NetState) : Prop where
  forwards : ∀ who, x.up who ≠ [] → ∃ y, netStep N x (.forward who) = some y
  calls : ∀ cid call io, generated cid = true → (x.clients cid).waiting = none →
    Ready (x.clients cid) call →
    io.grow = true → ∃ y, netStep N x (.call cid call io) = some y
  receives : ∀ cid, (x.clients cid).waiting.isSome = true → x.down cid ≠ [] →
    ∃ y, netStep N x (.receive cid) = some y
  interrupts : ∀ cid e, (x.clients cid).waiting.isSome = true → ∃ y,
    netStep N x (.interrupt cid e) = some y
  serves : ∀ i io, i < N.config.ccfMdt.length → LawfulMove N x (.serve i io) →
    x.down (N.device i) ≠ [] →
    (∃ y, netStep N x (.serve i io) = some y) ∨ (x.readers i).stopped = true ∨
      ∃ cid req, Awaiting N x i cid req ∧ ReadsReleased (x.readers i) (req.pack cid) io

end

end Lcap.Proofs
