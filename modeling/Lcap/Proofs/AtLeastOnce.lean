import Lcap.Proofs.AckBound
import Lcap.Proofs.Attended
import Lcap.Proofs.Tokens

namespace Lcap.Proofs
open Reader Client Systems

/-! ## What an application has been given -/

def resultOf (cid : ConnId) : FleetEvent → Option RecvResult
  | .returned c res => if c = cid then some res else none
  | .reader _ _ => none

/-- What `lcap_changelog_recv` has returned to one application. -/
def resultsOf (cid : ConnId) (hist : List FleetEvent) : List RecvResult :=
  hist.filterMap (resultOf cid)

/-- The last call has returned a record. -/
def LastRecord (res : List RecvResult) : Prop := ∃ rec, res.getLast? = some (.record rec)

/-- An application clears only what it has just received. -/
def ClearsReceived (x : Fleet) : FleetMove → Prop
  | .call cid (.clear _ _ _) _ => LastRecord (resultsOf cid x.hist)
  | _ => True

/-- A bucket is acknowledged when the application has been given all its records. -/
def GivenBefore (pre : List FleetEvent) : FleetEvent → Prop
  | .reader (.acknowledged cid p) _ =>
    ∀ r cause, .reader (.stored p r) cause ∈ pre → .returned cid (.record r) ∈ pre
  | _ => True

/-! ## One client and its bucket -/

/-- What a cache has still to give. -/
def toGive (pzd : PxZmqData) : List ChangelogRec := (pzd.records.take pzd.recCnt).drop pzd.recNxt

/-- The records of the bucket have been given, or are in the client's cache. -/
def Reading (s : ReaderEnv) (q : Peer) (res : List RecvResult) (p : Nat) : Prop :=
  ∀ r ∈ (s.mem p).lrbRecords, .record r ∈ res ∨ r ∈ toGive q.pzd

/-- The client has nothing, and waits for records or has been told that there are none. -/
def Starved (q : Peer) (res : List RecvResult) : Prop :=
  q.pzd.recNxt = q.pzd.recCnt ∧ ((∃ io, q.waiting = some (.recv, io)) ∨ ¬ LastRecord res)

/-- Where the reader has a bucket for the client, the client is given its records before
it can ask for the next one, or has nothing to clear. -/
structure Watched (s : ReaderEnv) (cid : ConnId) (q : Peer) (res : List RecvResult)
    (unread : List Reply) :
    Prop where
  fetch : q.wire = some (.px .dequeue) → Starved q res
  held : q.stage ≠ .ended → ∀ p, Holds s cid p → Reading s q res p ∨ Starved q res
  batch : ∀ rep ∈ unread, Due s cid rep
  clear : ∀ mdtname id endrec, q.wire = some (.px (.clear mdtname id endrec)) → ∀ p, Holds s cid p →
    ∀ r ∈ (s.mem p).lrbRecords, .record r ∈ res
  fresh : q.stage = .unstarted → q.pzd = {}

section
variable {s t : ReaderEnv} {cid : ConnId} {q q' : Peer} {res : List RecvResult}
  {unread : List Reply}

theorem to_give_empty {pzd : PxZmqData} (h : ¬ pzd.recNxt < pzd.recCnt) : toGive pzd = [] :=
  List.drop_eq_nil_of_le (Nat.le_trans (List.length_take_le _ _) (Nat.le_of_not_lt h))

/-- Giving the next record takes no other one. -/
theorem to_give_next {pzd : PxZmqData} (hr : r ∈ toGive pzd) :
    (nextRecord pzd).2 = .record r ∨ r ∈ toGive (nextRecord pzd).1 := by
  have hlt : pzd.recNxt < (pzd.records.take pzd.recCnt).length := by
    by_contra hle
    rw [toGive, List.drop_eq_nil_of_le (Nat.le_of_not_lt hle)] at hr
    cases hr
  rw [toGive, List.drop_eq_getElem_cons hlt] at hr
  rcases List.mem_cons.mp hr with rfl | hr
  · refine .inl ?_
    have hget : pzd.records[pzd.recNxt]? = some ((pzd.records.take pzd.recCnt)[pzd.recNxt]) := by
      rw [List.getElem_take, List.getElem?_eq_getElem]
    simp only [nextRecord, hget]
  · exact .inr hr

theorem not_last_code (res : List RecvResult) (rc : Int) : ¬ LastRecord (res ++ [.code rc]) := by
  rintro ⟨rec, h⟩
  rw [List.getLast?_concat] at h
  cases h

theorem Starved.coded (hempty : q.pzd.recNxt = q.pzd.recCnt) (res : List RecvResult) (rc : Int) :
    Starved q (res ++ [.code rc]) := ⟨hempty, .inr (not_last_code res rc)⟩

/-- The reader has done something for others. -/
theorem Watched.unseen (h : Watched s cid q res unread) (hsettled : Settled s)
    (hseat : clientStateGet t cid = clientStateGet s cid) (he : Extends s t) :
    Watched t cid q res unread := by
  have hholds : ∀ {p}, Holds t cid p → Holds s cid p := fun hh => hh.congr hseat.symm
  have hrecs : ∀ {p}, Holds s cid p → (t.mem p).lrbRecords = (s.mem p).lrbRecords ∧
      (t.mem p).lrbSize = (s.mem p).lrbSize := by
    rintro p ⟨cs, hg, hb⟩
    exact he.contents p (hsettled.closed cs (mem_of_get hg).1 p hb)
  refine ⟨h.fetch, fun hlive p hp => ?_, fun rep hrep => ?_, fun mdtname id endrec hw p hp => ?_,
    h.fresh⟩
  · refine (h.held hlive p (hholds hp)).imp_left fun hread => ?_
    rw [Reading, (hrecs (hholds hp)).1]
    exact hread
  · refine (h.batch rep hrep).imp_right ?_
    rintro ⟨p, hp, rfl⟩
    exact ⟨p, hp.congr hseat, (pack_congr (hrecs hp)).symm⟩
  · rw [(hrecs (hholds hp)).1]
    exact h.clear mdtname id endrec hw p (hholds hp)

/-- The same records are in both caches, and the same are still to give. -/
structure SamePlace (pzd pzd' : PxZmqData) : Prop where
  records : pzd'.records = pzd.records
  recNxt : pzd'.recNxt = pzd.recNxt
  recCnt : pzd'.recCnt = pzd.recCnt

theorem SamePlace.refl (pzd : PxZmqData) : SamePlace pzd pzd := ⟨rfl, rfl, rfl⟩

theorem SamePlace.to_give {pzd pzd' : PxZmqData} (h : SamePlace pzd pzd') :
    toGive pzd' = toGive pzd := by
  rw [toGive, toGive, h.records, h.recNxt, h.recCnt]

/-- A call that gives no record keeps the cache, unless it ends the context. -/
def Spared (pzd : PxZmqData) (stage : Stage) (pzd' : PxZmqData) : Prop :=
  SamePlace pzd pzd' ∨ stage = .ended ∧ pzd' = {}

theorem Spared.empty {pzd pzd' : PxZmqData} (h : Spared pzd stage pzd')
    (hempty : pzd.recNxt = pzd.recCnt) :
    pzd'.recNxt = pzd'.recCnt := by
  rcases h with hsame | ⟨_, rfl⟩
  · rw [hsame.recNxt, hsame.recCnt, hempty]
  · rfl

theorem Spared.same {pzd pzd' : PxZmqData} (h : Spared pzd stage pzd') (hlive : stage ≠ .ended) :
    SamePlace pzd pzd' :=
  h.resolve_right fun hend => hlive hend.1

theorem Starved.congr (h : Starved q res) (hpzd : Spared q.pzd q'.stage q'.pzd)
    (hwait : ∀ io, q.waiting ≠ some (.recv, io)) : Starved q' res := by
  obtain ⟨hempty, hwhy⟩ := h
  refine ⟨hpzd.empty hempty, .inr (hwhy.resolve_left ?_)⟩
  rintro ⟨io, hio⟩
  exact hwait io hio

/-- What a client holds is not touched. -/
theorem Watched.held_congr (h : Watched s cid q res unread) (hlive : q.stage ≠ .ended)
    (hpzd : Spared q.pzd q'.stage q'.pzd) (hwait : ∀ io, q.waiting ≠ some (.recv, io))
    (hlive' : q'.stage ≠ .ended) (hp : Holds s cid p) : Reading s q' res p ∨ Starved q' res := by
  refine (h.held hlive p hp).imp (fun hread => ?_) fun hs => hs.congr hpzd hwait
  rw [Reading, (hpzd.same hlive').to_give]
  exact hread

/-- A call that is not `lcap_changelog_recv` ends. -/
theorem Watched.calm (h : Watched s cid q res unread) (hlive : q.stage ≠ .ended)
    (hpzd : Spared q.pzd q'.stage q'.pzd) (hwire : q'.wire = q.wire)
    (hwait : ∀ io, q.waiting ≠ some (.recv, io)) (hstage : q'.stage ≠ .unstarted)
    (hunread : ∀ rep ∈ unread', rep ∈ unread) : Watched s cid q' res unread' :=
  ⟨fun hw => (h.fetch (hwire ▸ hw)).congr hpzd hwait,
    fun hlive' _ => h.held_congr hlive hpzd hwait hlive',
    fun rep hrep => h.batch rep (hunread rep hrep),
    fun mdtname id endrec hw => h.clear mdtname id endrec (hwire ▸ hw), fun hs => absurd hs hstage⟩

/-- A request leaves that does not ask for records, and clears only what has been given. -/
theorem Watched.asked (h : Watched s cid q res unread) (hlive : q.stage ≠ .ended)
    (hpzd : q'.pzd = q.pzd)
    (hwire : q'.wire = some req) (hreq : req ≠ .px .dequeue)
    (hwait : ∀ io, q.waiting ≠ some (.recv, io)) (hstage : q'.stage = q.stage)
    (hclear : ∀ mdtname id endrec, req = .px (.clear mdtname id endrec) →
      ¬ q.pzd.recNxt < q.pzd.recCnt ∧ LastRecord res) : Watched s cid q' res unread := by
  have hsame : Spared q.pzd q'.stage q'.pzd := .inl (hpzd ▸ .refl q.pzd)
  refine ⟨fun hw => ?_, fun hlive' _ => h.held_congr hlive hsame hwait hlive', h.batch,
    fun mdtname id endrec hw p hp r hr => ?_, fun hs => ?_⟩
  · rw [hwire] at hw
    exact absurd (Option.some.inj hw) hreq
  · rw [hwire] at hw
    obtain ⟨hdone, hlast⟩ := hclear mdtname id endrec (Option.some.inj hw)
    rcases h.held hlive p hp with hread | ⟨_, hwhy⟩
    · refine (hread r hr).resolve_right fun hleft => ?_
      rw [to_give_empty hdone] at hleft
      cases hleft
    · rcases hwhy with ⟨io, hio⟩ | hcode
      · exact absurd hio (hwait io)
      · exact absurd hlast hcode
  · rw [hpzd]
    exact h.fresh (hstage ▸ hs)

/-- A DEQUEUE leaves, and the call waits for records. -/
theorem Watched.fetching (h : Watched s cid q res unread) (hempty : q.pzd.recNxt = q.pzd.recCnt)
    (hpzd : q'.pzd = q.pzd) (hwire : q'.wire = some (.px .dequeue))
    (hwait : q'.waiting = some (.recv, io))
    (hstage : q'.stage ≠ .unstarted) : Watched s cid q' res unread := by
  have hstarved : Starved q' res := ⟨by rw [hpzd, hempty], .inl ⟨io, hwait⟩⟩
  refine ⟨fun _ => hstarved, fun _ _ _ => .inr hstarved, h.batch, fun mdtname id endrec hw => ?_,
    fun hs => absurd hs hstage⟩
  rw [hwire] at hw
  cases hw

/-- The application gets a code and no record. -/
theorem Watched.coded (h : Watched s cid q res unread) (hempty : q'.pzd.recNxt = q'.pzd.recCnt)
    (hwire : ∀ mdtname id endrec, q'.wire = some (.px (.clear mdtname id endrec)) →
      q'.wire = q.wire)
    (hunread : ∀ rep ∈ unread', rep ∈ unread) (hstage : q'.stage ≠ .unstarted) (rc : Int) :
    Watched s cid q' (res ++ [.code rc]) unread' := by
  have hstarved := Starved.coded hempty res rc
  refine ⟨fun _ => hstarved, fun _ _ _ => .inr hstarved,
    fun rep hrep => h.batch rep (hunread rep hrep),
    fun mdtname id endrec hw p hp r hr => ?_, fun hs => absurd hs hstage⟩
  exact List.mem_append_left _ (h.clear mdtname id endrec
    ((hwire _ _ _ hw).symm.trans hw) p hp r hr)

/-- The application gets a record of the cache. -/
theorem Watched.gave (h : Watched s cid q res unread) (hlive : q.stage ≠ .ended)
    (hleft : q.pzd.recNxt ≠ q.pzd.recCnt)
    (hpzd : q'.pzd = (nextRecord q.pzd).1) (hwire : q'.wire = q.wire)
    (hstage : q'.stage ≠ .unstarted) :
    Watched s cid q' (res ++ [(nextRecord q.pzd).2]) unread := by
  have hfed : ¬ Starved q res := fun hs => hleft hs.1
  refine ⟨fun hw => absurd (h.fetch (hwire ▸ hw)) hfed, fun _ p hp => .inl fun r hr => ?_, h.batch,
    fun mdtname id endrec hw p hp r hr => ?_, fun hs => absurd hs hstage⟩
  · rcases (h.held hlive p hp).resolve_right hfed r hr with hgot | hleft
    · exact .inl (List.mem_append_left _ hgot)
    · rcases to_give_next hleft with hnext | hleft
      · exact .inl (List.mem_append_right _ (by rw [hnext]; exact List.mem_singleton_self _))
      · exact .inr (hpzd ▸ hleft)
  · exact List.mem_append_left _ (h.clear mdtname id endrec (hwire ▸ hw) p hp r hr)

/-- A batch has come into the cache, and its first record is given. -/
theorem Watched.cached (hp : Holds s cid p) {pzd : PxZmqData}
    (hrecs : ∀ r ∈ (s.mem p).lrbRecords, r ∈ toGive pzd) (hpzd : q'.pzd = (nextRecord pzd).1)
    (hwire : q'.wire = none) (hstage : q'.stage ≠ .unstarted) :
    Watched s cid q' (res ++ [(nextRecord pzd).2]) [] := by
  have hnowire : ∀ req, q'.wire ≠ some req := by
    intro req hw
    rw [hwire] at hw
    cases hw
  refine ⟨fun hw => absurd hw (hnowire _), fun _ p' hp' => .inl fun r hr => ?_, by simp,
    fun mdtname id endrec hw => absurd hw (hnowire _), fun hs => absurd hs hstage⟩
  obtain rfl := hp'.unique hp
  rcases to_give_next (hrecs r hr) with hnext | hleft
  · exact .inl (List.mem_append_right _ (by rw [hnext]; exact List.mem_singleton_self _))
  · exact .inr (hpzd ▸ hleft)

/-! ## What the calls of the library leave -/

/-- The end of `px_changelog_recv` with what the reply has left. -/
def receivedFrom (kept : PxZmqData × Int) : Done :=
  if kept.2 ≠ 0 then { pzd := kept.1, res := some (.code kept.2) }
  else { pzd := (nextRecord kept.1).1, res := some (nextRecord kept.1).2 }

theorem received_code {kept : PxZmqData × Int} (h : kept.2 ≠ 0) :
    receivedFrom kept = { pzd := kept.1, res := some (.code kept.2) } := if_pos h

theorem received_next {kept : PxZmqData × Int} (h : kept.2 = 0) :
    receivedFrom kept = { pzd := (nextRecord kept.1).1, res := some (nextRecord kept.1).2 } :=
  if_neg (not_not.mpr h)

theorem started_ne : Stage.started ≠ Stage.unstarted := by simp

/-- The ways of `px_changelog_recv`. -/
inductive RecvOutcome (recSize : Nat) (pzd : PxZmqData) (io : PxIo) : Outcome → Prop
  | next (hleft : pzd.recNxt ≠ pzd.recCnt) :
    RecvOutcome recSize pzd io (.ret { pzd := (nextRecord pzd).1, res := some (nextRecord pzd).2 })
  | unsent (hempty : pzd.recNxt = pzd.recCnt) :
    RecvOutcome recSize pzd io (.ret { pzd := pzd, res := some (.code rc) })
  | unheard (hempty : pzd.recNxt = pzd.recCnt) :
    RecvOutcome recSize pzd io (.leave (.px .dequeue) { pzd := pzd, res := some (.code rc) })
  | asks (hempty : pzd.recNxt = pzd.recCnt) :
    RecvOutcome recSize pzd io (.ask (.px .dequeue) fun rep =>
      receivedFrom (cacheReply recSize pzd io rep))

theorem recv_outcome {args : StartArgs} {io : PxIo} (h : q.outcome recSize args io .recv = some o) :
    q.stage = .started ∧ RecvOutcome recSize q.pzd io o := by
  simp only [Peer.outcome] at h
  split at h
  · cases h
  rename_i hstage
  refine ⟨not_not.mp hstage, ?_⟩
  obtain rfl := Option.some.inj h
  unfold pxChangelogRecv pxDequeueRecords
  by_cases hempty : q.pzd.recNxt = q.pzd.recCnt
  · rw [if_pos hempty]
    cases hsend : io.send with
    | some e =>
      have hrc : -(e.val : Int) ≠ 0 := Int.ne_of_lt (errno_neg e)
      simp only [Call.map, Call.outcome, if_pos hrc]
      exact .unsent hempty
    | none =>
      cases io.alloc with
      | true =>
        have hsame : (fun rep => (fun got : PxZmqData × RecvResult =>
            ({ pzd := got.1, res := some got.2 } : Done))
            (if (cacheReply recSize q.pzd io rep).2 ≠ 0 then
              ((cacheReply recSize q.pzd io rep).1, .code (cacheReply recSize q.pzd io rep).2)
            else nextRecord (cacheReply recSize q.pzd io rep).1)) =
            fun rep => receivedFrom (cacheReply recSize q.pzd io rep) := by
          funext rep
          unfold receivedFrom
          split <;> rfl
        simp only [if_true, Call.map, Call.outcome]
        rw [hsame]
        exact .asks hempty
      | false =>
        have hrc : -ENOMEM ≠ 0 := Int.ne_of_lt enomem_neg
        simp only [Bool.false_eq_true, if_false, Call.map, Call.outcome, if_pos hrc]
        exact .unheard hempty
  · rw [if_neg hempty]
    exact .next hempty

/-- No call is made after the end. -/
theorem outcome_live {args : StartArgs} {io : PxIo} (h : q.outcome recSize args io call = some o) :
    q.stage ≠ .ended := by
  intro hend
  cases call <;> simp [Peer.outcome, hend] at h

/-- Another call ends without a record, and leaves the cache where it was. -/
structure Spares (pzd : PxZmqData) (d : Done) : Prop where
  stage : d.stage ≠ .unstarted
  res : d.res = none
  pzd : SamePlace pzd d.pzd

/-- What is left when the server has let the client go. -/
def released : Done := { stage := .ended, pzd := {} }

inductive OtherOutcome (q : Peer) (call : ApiCall) (io : PxIo) : Outcome → Prop
  | ret (h : Spares q.pzd d) : OtherOutcome q call io (.ret d)
  | asks (hreq : req ≠ .px .dequeue)
      (h : ∀ rep, Spares q.pzd (resume rep) ∨ call = .fini ∧ io.recv = none ∧ resume rep = released)
      (hclear : ∀ mdtname id endrec, req = .px (.clear mdtname id endrec) →
        ¬ q.pzd.recNxt < q.pzd.recCnt ∧ ∃ mdtname id endrec, call = .clear mdtname id endrec) :
    OtherOutcome q call io (.ask req resume)

theorem other_outcome {args : StartArgs} {io : PxIo} (hne : call ≠ .recv)
    (hfresh : q.stage = .unstarted → q.pzd = {})
    (h : q.outcome recSize args io call = some o) : OtherOutcome q call io o := by
  have hstarted : Spares q.pzd { pzd := q.pzd } := ⟨by simp, rfl, .refl _⟩
  cases call with
  | recv => exact absurd rfl hne
  | start =>
    simp only [Peer.outcome, pxChangelogStart] at h
    split at h
    · cases h
    rename_i hstage
    have hstart : ∀ rc : Int, Spares q.pzd
        { stage := if rc < 0 then .ended else .started, pzd := {} } := by
      intro rc
      refine ⟨by split <;> simp, rfl, ?_⟩
      rw [hfresh (not_not.mp hstage)]
      exact .refl _
    obtain rfl := Option.some.inj h
    split
    · exact .ret (hstart _)
    cases io.setup with
    | some e => exact .ret (hstart _)
    | none =>
      cases io.send with
      | some e => exact .ret (hstart _)
      | none =>
        refine .asks (by simp) (fun rep => .inl ?_) (by simp)
        cases io.recv with
        | some e => exact hstart _
        | none => exact hstart _
  | free =>
    simp only [Peer.outcome] at h
    split at h
    · cases h
    obtain rfl := Option.some.inj h
    refine .ret ⟨by simp, rfl, ?_⟩
    unfold pxChangelogFree
    split
    · exact ⟨rfl, rfl, rfl⟩
    · exact .refl _
  | clear mdtname id endrec =>
    simp only [Peer.outcome, pxChangelogClear] at h
    split at h
    · cases h
    obtain rfl := Option.some.inj h
    split
    · exact .ret hstarted
    rename_i hdone
    split
    · exact .ret hstarted
    cases io.send with
    | some e => exact .ret hstarted
    | none =>
      exact .asks (by simp) (fun _ => .inl hstarted) fun _ _ _ _ =>
        ⟨hdone, mdtname, id, endrec, rfl⟩
  | fini =>
    simp only [Peer.outcome, pxChangelogFini] at h
    split at h
    · cases h
    obtain rfl := Option.some.inj h
    cases io.send with
    | some e => exact .ret hstarted
    | none =>
      refine .asks (by simp) (fun rep => ?_) (by simp)
      split
      · exact .inl hstarted
      · rename_i hrc
        refine .inr ⟨rfl, ?_, rfl⟩
        cases hrecv : io.recv with
        | none => rfl
        | some e => exact absurd (errno_neg e) (by simpa [clAckRetcode, hrecv] using hrc)

/-- The reply to a DEQUEUE gives a code and no record, or fills the cache. -/
theorem cache_reply_kept (recSize : Nat) {pzd : PxZmqData} (hempty : pzd.recNxt = pzd.recCnt)
    (io : PxIo) (rep : Reply) (hne : rep ≠ .ack 0) :
    (cacheReply recSize pzd io rep).2 ≠ 0 ∧
        (cacheReply recSize pzd io rep).1.recNxt = (cacheReply recSize pzd io rep).1.recCnt ∨
      (cacheReply recSize pzd io rep).2 = 0 ∧ ∃ size count recs, rep = .enqueue size count recs ∧
        ∀ r ∈ recs.take count, r ∈ toGive (cacheReply recSize pzd io rep).1 := by
  unfold cacheReply
  cases io.recv with
  | some e => exact .inl ⟨Int.ne_of_lt (errno_neg e), hempty⟩
  | none =>
    simp only
    split
    · exact .inl ⟨Int.ne_of_lt eoverflow_neg, hempty⟩
    cases rep with
    | ack rc => exact .inl ⟨fun h0 => hne (congrArg Reply.ack h0), hempty⟩
    | enqueue size count recs =>
      simp only
      split
      · exact .inl ⟨Int.ne_of_lt einval_neg, hempty⟩
      split
      · split
        · exact .inr ⟨rfl, size, count, recs, rfl, fun r hr => by simpa [toGive] using hr⟩
        · exact .inl ⟨Int.ne_of_lt enomem_neg, hempty⟩
      · refine .inr ⟨rfl, size, count, recs, rfl, fun r hr => ?_⟩
        rw [toGive, List.drop_zero, List.take_append]
        exact List.mem_append_left _ hr

end

/-! ## The fleet -/

section
variable {recSize : Nat} {args : ConnId → StartArgs} {x y : Fleet} {cid cid' : ConnId}

def WatchedAt (x : Fleet) (cid : ConnId) : Prop :=
  Watched x.env cid (x.peers cid) (resultsOf cid x.hist) (unread x cid)

theorem results_append (cid : ConnId) (a b : List FleetEvent) :
    resultsOf cid (a ++ b) = resultsOf cid a ++ resultsOf cid b := List.filterMap_append

theorem results_of_reader (cid : ConnId) (tr : List Event) (rpc : Option WireRequest) :
    resultsOf cid (tr.map (.reader · rpc)) = [] := by
  rw [resultsOf, List.filterMap_map]
  exact List.filterMap_eq_nil_iff.mpr fun _ _ => rfl

theorem results_of_returned (cid cid' : ConnId) (res : List RecvResult) :
    resultsOf cid (res.map (.returned cid')) = if cid' = cid then res else [] := by
  rw [resultsOf, List.filterMap_map]
  by_cases he : cid' = cid
  · simp [resultOf, he]
  · simp [resultOf, he]

theorem results_advance (cid : ConnId) (x : Fleet) (rpc : Option WireRequest) (env : ReaderEnv) :
    resultsOf cid (x.advance rpc env).hist = resultsOf cid x.hist := by
  simp only [Fleet.advance, results_append, results_of_reader, List.append_nil]

theorem results_finish (cid cid' : ConnId) (x : Fleet) (c : Peer) (d : Done) :
    resultsOf cid (x.finish cid' c d).hist =
      resultsOf cid x.hist ++ if cid' = cid then d.res.toList else [] := by
  simp only [Fleet.finish, results_append, results_of_returned]

theorem watched_finish {c : Peer} {d : Done}
    (h : Watched x.env cid { c with stage := d.stage, pzd := d.pzd, waiting := none }
      (resultsOf cid x.hist ++ d.res.toList) ((repliesTo cid x.env.trace).drop c.taken)) :
    WatchedAt (x.finish cid c d) cid := by
  have henv : (x.finish cid c d).env = x.env := rfl
  rw [WatchedAt, unread, results_finish, if_pos rfl, finish_self, henv]
  exact h

theorem WatchedAt.finish_other (h : WatchedAt x cid) (hne : cid' ≠ cid) (c : Peer) (d : Done) :
    WatchedAt (x.finish cid' c d) cid := by
  have henv : (x.finish cid' c d).env = x.env := rfl
  rw [WatchedAt, unread, results_finish, if_neg hne, List.append_nil, Proofs.finish_other hne, henv]
  exact h

theorem watched_set {c : Peer}
    (h : Watched x.env cid c (resultsOf cid x.hist) ((repliesTo cid x.env.trace).drop c.taken)) :
    WatchedAt (x.set cid c) cid := by
  rw [WatchedAt, unread, set_self]
  exact h

theorem WatchedAt.set_other (h : WatchedAt x cid) (hne : cid' ≠ cid) (c : Peer) :
    WatchedAt (x.set cid' c) cid := by
  rw [WatchedAt, unread, Proofs.set_other hne]
  exact h

theorem WatchedAt.called (h : WatchedAt x cid) (hc : ClearsReceived x (.call cid call io))
    (hs : fleetStep recSize args x (.call cid call io) = some y) : WatchedAt y cid := by
  simp only [fleetStep] at hs
  split at hs
  · cases hs
  rename_i hidle
  have hwait : ∀ io, (x.peers cid).waiting ≠ some (.recv, io) := by
    intro io' hio
    rw [hio] at hidle
    exact hidle rfl
  by_cases hrecv : call = .recv
  · subst hrecv
    split at hs
    · cases hs
    · rename_i d ho
      obtain rfl := Option.some.inj hs
      obtain ⟨hstage, hway⟩ := recv_outcome ho
      apply watched_finish
      cases hway with
      | next hleft => exact Watched.gave h (outcome_live ho) hleft rfl rfl started_ne
      | unsent hempty =>
        refine Watched.coded h ?_ ?_ (fun _ hr => hr) ?_ _
        · exact hempty
        · exact fun _ _ _ _ => rfl
        · exact started_ne
    · rename_i req d ho
      obtain rfl := Option.some.inj hs
      obtain ⟨hstage, hway⟩ := recv_outcome ho
      apply watched_finish
      cases hway with
      | unheard hempty =>
        refine Watched.coded h ?_ (fun _ _ _ hw => ?_) (fun _ hr => hr) ?_ _
        · exact hempty
        · simp [Peer.sent] at hw
        · exact started_ne
    · rename_i req resume ho
      obtain rfl := Option.some.inj hs
      obtain ⟨hstage, hway⟩ := recv_outcome ho
      apply watched_set
      cases hway with
      | asks hempty =>
        refine Watched.fetching h hempty rfl rfl rfl ?_
        simp [Peer.sent, hstage]
  · split at hs
    · cases hs
    · rename_i d ho
      obtain rfl := Option.some.inj hs
      apply watched_finish
      cases other_outcome hrecv h.fresh ho with
      | ret hd =>
        rw [hd.res, Option.toList_none, List.append_nil]
        exact Watched.calm h (outcome_live ho) (.inl hd.pzd) rfl hwait hd.stage fun _ hr => hr
    · rename_i req d ho
      cases other_outcome hrecv h.fresh ho
    · rename_i req resume ho
      obtain rfl := Option.some.inj hs
      apply watched_set
      cases other_outcome hrecv h.fresh ho with
      | asks hreq _ hclear =>
        refine Watched.asked h (outcome_live ho) rfl rfl hreq hwait rfl fun mdtname id endrec he =>
          ?_
        obtain ⟨hdone, m, i, e, rfl⟩ := hclear mdtname id endrec he
        exact ⟨hdone, hc⟩

theorem WatchedAt.received (h : WatchedAt x cid) (htok : Tokened x cid)
    (hs : fleetStep recSize args x (.receive cid) = some y) : WatchedAt y cid := by
  simp only [fleetStep] at hs
  split at hs
  case h_2 => cases hs
  rename_i call io rep rest hwait hpend
  split at hs
  case h_2 => cases hs
  rename_i req resume ho
  obtain rfl := Option.some.inj hs
  have hunread : unread x cid = rep :: rest := hpend
  have hone := htok.token.one
  rw [hunread, List.length_cons] at hone
  have hwire : (x.peers cid).wire = none :=
    Option.toList_eq_nil_iff.mp (List.eq_nil_of_length_eq_zero (by omega))
  have hrest : (repliesTo cid x.env.trace).drop ((x.peers cid).taken + 1) = [] := by
    obtain rfl : rest = [] := List.eq_nil_of_length_eq_zero (by omega)
    rw [← List.drop_drop, hpend]
    rfl
  apply watched_finish
  rw [hrest]
  by_cases hrecv : call = .recv
  · subst hrecv
    have hne : rep ≠ .ack 0 := by
      rintro rfl
      refine (htok.token.dequeue io hwait).2 ?_
      rw [hunread]
      exact List.mem_cons_self
    obtain ⟨hstage, hway⟩ := recv_outcome ho
    cases hway with
    | asks hempty =>
      rcases cache_reply_kept recSize hempty io rep hne with
        ⟨hrc, hend⟩ | ⟨hrc, size, count, recs, rfl, hrecs⟩
      · simp only [received_code hrc]
        refine Watched.coded h ?_ ?_ ?_ ?_ _
        · exact hend
        · exact fun _ _ _ _ => rfl
        · simp
        · exact started_ne
      · simp only [received_next hrc]
        have hdue := h.batch (.enqueue size count recs) (hunread ▸ List.mem_cons_self)
        rcases hdue with ⟨rc, he⟩ | ⟨p, hp, he⟩
        · cases he
        · obtain ⟨_, hcount, hsame⟩ := Reply.enqueue.inj he
          subst hcount hsame
          rw [List.take_length] at hrecs
          exact Watched.cached hp hrecs rfl hwire started_ne
  · have hother : ∀ io, (x.peers cid).waiting ≠ some (.recv, io) := by
      intro io' hio
      rw [hwait] at hio
      cases hio
      exact hrecv rfl
    cases other_outcome hrecv h.fresh ho with
    | asks _ hd _ =>
      rcases hd rep with hd | ⟨_, _, hd⟩
      · rw [hd.res, Option.toList_none, List.append_nil]
        exact Watched.calm h (outcome_live ho) (.inl hd.pzd) rfl hother hd.stage (by simp)
      · rw [hd, released, Option.toList_none, List.append_nil]
        exact Watched.calm h (outcome_live ho) (.inr ⟨rfl, rfl⟩) rfl hother (by simp) (by simp)

theorem WatchedAt.interrupted (h : WatchedAt x cid)
    (hs : fleetStep recSize args x (.interrupt cid e) = some y) : WatchedAt y cid := by
  simp only [fleetStep] at hs
  split at hs
  case h_2 => cases hs
  rename_i call io hwait
  split at hs
  case h_2 => cases hs
  rename_i req resume ho
  obtain rfl := Option.some.inj hs
  apply watched_finish
  by_cases hrecv : call = .recv
  · subst hrecv
    obtain ⟨hstage, hway⟩ := recv_outcome ho
    cases hway with
    | asks hempty =>
      have hrc : -(e.val : Int) ≠ 0 := Int.ne_of_lt (errno_neg e)
      have hcode : (cacheReply recSize (x.peers cid).pzd { io with recv := some e } (.ack 0)).2 ≠
          0 := hrc
      simp only [received_code hcode]
      refine Watched.coded h ?_ ?_ (fun _ hr => hr) ?_ _
      · exact hempty
      · exact fun _ _ _ _ => rfl
      · exact started_ne
  · have hother : ∀ io, (x.peers cid).waiting ≠ some (.recv, io) := by
      intro io' hio
      rw [hwait] at hio
      cases hio
      exact hrecv rfl
    cases other_outcome hrecv h.fresh ho with
    | asks _ hd _ =>
      have hd := (hd (.ack 0)).resolve_right fun hend => Option.some_ne_none e hend.2.1
      rw [hd.res, Option.toList_none, List.append_nil]
      exact Watched.calm h (outcome_live ho) (.inl hd.pzd) rfl hother hd.stage fun _ hr => hr

theorem Watched.served {q : Peer} {s t : ReaderEnv} {req : WireRequest} {old fresh : List Reply}
    (h : Watched s cid q res old) (hsettled : Settled s) (hwire : q.wire = some req)
    (ha : Attended s (req.pack cid) t) (he : Extends s t) (hdue : ∀ rep ∈ fresh, Due t cid rep) :
    Watched t cid { q with wire := none } res fresh := by
  have hnowire : ∀ req, ({ q with wire := none } : Peer).wire ≠ some req := by simp
  refine ⟨fun hw => absurd hw (hnowire _), fun hlive p hp => ?_, hdue,
    fun mdtname id endrec hw => absurd hw (hnowire _), h.fresh⟩
  have hheld := ha.held p
  rw [pack_forward] at hheld
  rcases hheld hp with hs | hop
  · obtain ⟨cs, hg, hb⟩ := hs
    refine (h.held hlive p ⟨cs, hg, hb⟩).imp_left fun hread => ?_
    rw [Reading, (he.contents p (hsettled.closed cs (mem_of_get hg).1 p hb)).1]
    exact hread
  · exact .inr (h.fetch (hwire.trans (congrArg some (dequeue_of_well_formed hop))))

def readerEvent : FleetEvent → Option Event
  | .reader e _ => some e
  | .returned _ _ => none

/-- The fleet logs the history of its reader. -/
def LoggedIn (x : Fleet) : Prop := x.hist.filterMap readerEvent = x.env.trace

theorem reader_events_of (tr : List Event) (rpc : Option WireRequest) :
    (tr.map (FleetEvent.reader · rpc)).filterMap readerEvent = tr := by
  rw [List.filterMap_map]
  exact List.filterMap_some

theorem returned_events_of (cid : ConnId) (res : List RecvResult) :
    (res.map (FleetEvent.returned cid)).filterMap readerEvent = [] := by
  rw [List.filterMap_map]
  exact List.filterMap_eq_nil_iff.mpr fun _ _ => rfl

theorem LoggedIn.moved (h : LoggedIn x) (hr : Reach (reader cfg idx) Always x.env)
    (hm : Moved recSize args x m y) : LoggedIn y := by
  rw [LoggedIn] at h ⊢
  cases hm with
  | reader _ hs _ hhist =>
    obtain ⟨post, hpost⟩ := step_grows (reach_shape hr) hs
    rw [hhist, hpost, List.drop_left, List.filterMap_append, reader_events_of, h]
  | ended _ _ hy =>
    subst hy
    simp only [Fleet.finish, List.filterMap_append, returned_events_of, List.append_nil]
    exact h
  | asked _ _ hy =>
    subst hy
    exact h

theorem reach_logged (h : Reach (fleet recSize args cfg idx) C x) : LoggedIn x :=
  h.induct (P := LoggedIn) (Q := fun x => Reach (reader cfg idx) Always x.env)
    (fun _ hx => reach_fleet_always hx) rfl fun _ _ _ hr hx _ hs =>
      hx.moved hr (fleet_step_moved hs)

theorem LoggedIn.mem (h : LoggedIn x) (hm : .reader e rpc ∈ x.hist) : e ∈ x.env.trace := by
  rw [← h]
  exact List.mem_filterMap.mpr ⟨_, hm, rfl⟩

/-- Without a request nothing is acknowledged. -/
def Acknowledges : Event → Prop
  | .acknowledged _ _ => True
  | _ => False

theorem step_unacknowledged {s t : ReaderEnv} (hl : ∀ req io, l ≠ .request req io)
    (hs : readerStep s l = some t) :
    ∃ post, t.trace = s.trace ++ post ∧ ∀ e ∈ post, ¬ Acknowledges e := by
  apply step_preserve (P := fun t => ∃ post, t.trace = s.trace ++ post ∧ ∀ e ∈ post,
    ¬ Acknowledges e) _ _ _ hs
  · exact ⟨[], (List.append_nil _).symm, by simp⟩
  · exact fun _ _ _ _ hu => hu
  · rintro u r block v ⟨post, hpost, hall⟩ _ _ _ _ hst
    cases hst with
    | @insert current _ _ =>
      refine ⟨post ++ [.stored (u.mem current).lrbIndex r], ?_, ?_⟩
      · rw [← List.append_assoc, ← hpost]
        rfl
      · simpa [Acknowledges, or_imp, forall_and] using hall
    | spill _ _ =>
      refine ⟨post ++ [.opened u.reBktIdx, .stored u.reBktIdx r], ?_, ?_⟩
      · rw [← List.append_assoc, ← hpost]
        simp only [recCounted, recInsert, ReaderEnv.modify, ReaderEnv.log, open_bucket_new]
        exact List.append_assoc _ _ _
      · simpa [Acknowledges, or_imp, forall_and] using hall
  · exact fun req io _ _ he _ => absurd he (hl req io)

theorem given_unacknowledged (h : Justified GivenBefore hist) {post : List Event}
    (hp : ∀ e ∈ post, ¬ Acknowledges e)
    (rpc : Option WireRequest) : Justified GivenBefore (hist ++ post.map (.reader · rpc)) := by
  refine h.append fun e he pre => ?_
  obtain ⟨e, hmem, rfl⟩ := List.mem_map.mp he
  cases e with
  | acknowledged _ _ => exact absurd trivial (hp _ hmem)
  | opened _ | stored _ _ | assigned _ _ | sent _ _ _ _ | cleared _ _ _ _ | destroyed _ => trivial

theorem given_returned (h : Justified GivenBefore hist) (cid : ConnId) (res : List RecvResult) :
    Justified GivenBefore (hist ++ res.map (.returned cid)) := by
  refine h.append fun e he pre => ?_
  obtain ⟨_, _, rfl⟩ := List.mem_map.mp he
  trivial

theorem given_moved (h : Justified GivenBefore x.hist) (hl : readerLabel x m = none)
    (hm : Moved recSize args x m y) : Justified GivenBefore y.hist := by
  cases hm with
  | reader hl' _ _ _ => cases hl.symm.trans hl'
  | ended _ _ hy =>
    rw [hy]
    exact given_returned h _ _
  | asked _ _ hy =>
    rw [hy]
    exact h

theorem mem_results (h : .record r ∈ resultsOf cid hist) : .returned cid (.record r) ∈ hist := by
  obtain ⟨e, he, hres⟩ := List.mem_filterMap.mp h
  cases e with
  | reader _ _ => cases hres
  | returned c res =>
    simp only [resultOf] at hres
    split at hres
    · rename_i hc
      cases hres
      exact hc ▸ he
    · cases hres

/-- Serving a request of a client, every acknowledgement is for what it has been given. -/
theorem given_served {req : WireRequest} (h : Justified GivenBefore x.hist) (hw : WatchedAt x cid)
    (hlog : LoggedIn x) (hsettled : Settled x.env) (hfiled : Filed x.env)
    (hwire : (x.peers cid).wire = some req)
    {post : List Event} (hpost : ∀ e ∈ post, Allowed x.env (req.pack cid) e)
    (rpc : Option WireRequest) :
    Justified GivenBefore (x.hist ++ post.map (.reader · rpc)) := by
  refine h.extend fun pre e suf hsplit => ?_
  have hmem : ∀ e' ∈ pre ++ e :: suf, ∃ e₀ ∈ post, e' = .reader e₀ rpc := by
    intro e' he'
    rw [← hsplit] at he'
    obtain ⟨e₀, he₀, rfl⟩ := List.mem_map.mp he'
    exact ⟨e₀, he₀, rfl⟩
  obtain ⟨e, he, rfl⟩ := hmem e (List.mem_append_right _ List.mem_cons_self)
  have hall := hpost e he
  cases e with
  | acknowledged c p =>
    obtain ⟨hc, hop, bkt, hh, hid⟩ := hall
    rw [hsettled.index] at hid
    subst hid
    rw [pack_forward] at hc
    subst hc
    obtain ⟨mdtname, id, endrec, rfl⟩ := clear_of_well_formed hop
    intro r cause hst
    have hold : .reader (.stored bkt r) cause ∈ x.hist := by
      refine (List.mem_append.mp hst).resolve_right fun hnew => ?_
      obtain ⟨e', he', heq⟩ := hmem _ (List.mem_append_left _ hnew)
      cases heq
      exact hpost _ he'
    have hrec : r ∈ (x.env.mem bkt).lrbRecords := by
      obtain ⟨cs, hg, hb⟩ := hh
      rw [← hfiled.kept bkt (hsettled.held cs (mem_of_get hg).1 bkt hb), hsettled.index]
      exact mem_stored_in.mpr (hlog.mem hold)
    exact List.mem_append_left _ (mem_results (hw.clear mdtname id endrec hwire bkt hh r hrec))
  | opened _ | stored _ _ | assigned _ _ | sent _ _ _ _ | cleared _ _ _ _ | destroyed _ => trivial

/-- Every application has been given what the reader takes for acknowledged. -/
structure AllWatched (x : Fleet) : Prop where
  watched : ∀ cid, WatchedAt x cid
  given : Justified GivenBefore x.hist

theorem WatchedAt.unseen (h : WatchedAt x cid) (hsettled : Settled x.env)
    (hc : Unaliased x.env l) (ho : IsOther cid l)
    (hs : readerStep x.env l = some env) (henv : y.env = env) (hpeer : y.peers cid = x.peers cid)
    (hres : resultsOf cid y.hist = resultsOf cid x.hist) : WatchedAt y cid := by
  have hseen := Unseen.step hsettled.toShape ho hs
  rw [WatchedAt, unread, henv, hpeer, hres, hseen.replies]
  exact Watched.unseen h hsettled hseen.seat (step_extends hsettled hc hs)

theorem AllWatched.delivered (h : AllWatched x) (hr : Reach (reader cfg idx) Unaliased x.env)
    (htok : ∀ cid, Tokened x cid) (hlog : LoggedIn x) (hc : OnReader Unaliased x (.deliver cid io))
    (hs : fleetStep recSize args x (.deliver cid io) = some y) : AllWatched y := by
  simp only [fleetStep] at hs
  split at hs
  · cases hs
  rename_i req hwire
  obtain ⟨env, henv, rfl⟩ := Option.map_eq_some_iff.mp hs
  have hsettled := reach_settled hr fun _ _ hl => hl
  have hnew : Unaliased x.env (.request (req.pack cid) io) := hc _ (by simp [readerLabel, hwire])
  have hext := step_extends hsettled hnew henv
  have hatt := request_attended hsettled.toShape (reach_apart hr) henv
  refine ⟨fun cid' => ?_, ?_⟩
  · by_cases he : cid = cid'
    · subst he
      obtain ⟨fresh, hfresh, hdue⟩ := hatt.due
      rw [pack_forward] at hfresh hdue
      -- the request is the one thing on its way
      have hnone : unread x cid = [] := by
        have hone := (htok cid).token.one
        rw [hwire, Option.toList_some, List.length_singleton] at hone
        exact List.eq_nil_of_length_eq_zero (by omega)
      have hunread : unread ((x.set cid { x.peers cid with wire := none }).advance (some req) env)
          cid = fresh := by
        have hpeer : ((x.set cid { x.peers cid with wire := none }).advance (some req) env).peers
            cid =
            { x.peers cid with wire := none } := set_self x cid _
        have henv' : ((x.set cid { x.peers cid with wire := none }).advance (some req) env).env =
            env := rfl
        rw [unread, hpeer, henv', hfresh, List.drop_append_of_le_length (htok cid).counted]
        change unread x cid ++ fresh = fresh
        rw [hnone, List.nil_append]
      have hpeer : ((x.set cid { x.peers cid with wire := none }).advance (some req) env).peers
          cid =
          { x.peers cid with wire := none } := set_self x cid _
      rw [WatchedAt, hunread, results_advance, hpeer]
      exact Watched.served (h.watched cid) hsettled hwire hatt hext hdue
    · have ho : IsOther cid' (.request (req.pack cid) io) := by
        simpa [IsOther, pack_forward] using he
      refine (h.watched cid').unseen hsettled hnew ho henv rfl (set_other he x _) ?_
      rw [results_advance]
      rfl
  · obtain ⟨post, hpost, hall⟩ := hatt.events
    have hhist : ((x.set cid { x.peers cid with wire := none }).advance (some req) env).hist =
        x.hist ++ post.map (.reader · (some req)) := by
      have hdrop : env.trace.drop x.env.trace.length = post := by rw [hpost, List.drop_left]
      simp only [Fleet.advance, Fleet.set, hdrop]
    rw [hhist]
    exact given_served h.given (h.watched cid) hlog hsettled (reach_filed hr) hwire hall (some req)

theorem AllWatched.step (h : AllWatched x) (hr : Reach (reader cfg idx) Unaliased x.env)
    (htok : ∀ cid, Tokened x cid) (hlog : LoggedIn x) (hc : ClearsReceived x m)
    (hnew : OnReader Unaliased x m) (hs : fleetStep recSize args x m = some y) : AllWatched y := by
  have hreader : ∀ {l : Label}, (∀ req io, l ≠ .request req io) → readerLabel x m = some l →
      (readerStep x.env l).map (x.advance none) = some y → AllWatched y := by
    intro l hl hlabel hl'
    obtain ⟨env, henv, rfl⟩ := Option.map_eq_some_iff.mp hl'
    have ho : ∀ cid, IsOther cid l := by
      intro cid
      cases l with
      | request req io => exact absurd rfl (hl req io)
      | enqueue _ _ | sigterm => trivial
    refine ⟨fun cid => (h.watched cid).unseen (reach_settled hr fun _ _ hl => hl) (hnew l hlabel)
      (ho cid) henv rfl rfl (results_advance _ _ _ _), ?_⟩
    obtain ⟨post, hpost, hall⟩ := step_unacknowledged hl henv
    have hdrop : env.trace.drop x.env.trace.length = post := by rw [hpost, List.drop_left]
    simp only [Fleet.advance, hdrop]
    exact given_unacknowledged h.given hall none
  cases m with
  | call cid call io =>
    refine ⟨fun cid' => ?_, given_moved h.given rfl (fleet_step_moved hs)⟩
    by_cases he : cid = cid'
    · subst he
      exact (h.watched cid).called hc hs
    · simp only [fleetStep] at hs
      split at hs
      · cases hs
      split at hs
      · cases hs
      · obtain rfl := Option.some.inj hs
        exact (h.watched cid').finish_other he _ _
      · obtain rfl := Option.some.inj hs
        exact (h.watched cid').finish_other he _ _
      · obtain rfl := Option.some.inj hs
        exact (h.watched cid').set_other he _
  | deliver cid io => exact h.delivered hr htok hlog hnew hs
  | receive cid =>
    refine ⟨fun cid' => ?_, given_moved h.given rfl (fleet_step_moved hs)⟩
    by_cases he : cid = cid'
    · subst he
      exact (h.watched cid).received (htok cid) hs
    · simp only [fleetStep] at hs
      split at hs
      case h_2 => cases hs
      split at hs
      case h_2 => cases hs
      obtain rfl := Option.some.inj hs
      exact (h.watched cid').finish_other he _ _
  | interrupt cid e =>
    refine ⟨fun cid' => ?_, given_moved h.given rfl (fleet_step_moved hs)⟩
    by_cases he : cid = cid'
    · subst he
      exact (h.watched cid).interrupted hs
    · simp only [fleetStep] at hs
      split at hs
      case h_2 => cases hs
      split at hs
      case h_2 => cases hs
      obtain rfl := Option.some.inj hs
      exact (h.watched cid').finish_other he _ _
  | enqueue startRc script => exact hreader (l := .enqueue startRc script) (by simp) rfl hs
  | sigterm => exact hreader (l := .sigterm) (by simp) rfl hs

theorem init_all_watched (recSize : Nat) (args : ConnId → StartArgs) (cfg : LcapCfg) (idx : Nat) :
    AllWatched (fleet recSize args cfg idx).init := by
  refine ⟨fun cid => ⟨fun hw => ?_, fun _ p hp => ?_, fun rep hm => ?_, fun _ _ _ hw => ?_,
    fun _ => rfl⟩, Justified.nil.snoc trivial⟩
  · cases hw
  · obtain ⟨cs, hg, _⟩ := hp
    cases hg
  · cases hm
  · cases hw

theorem reach_all_watched (h : Reach (fleet recSize args cfg idx)
    (fun x m => ClearsReceived x m ∧ OnReader Unaliased x m) x) : AllWatched x :=
  h.induct (P := AllWatched)
    (Q := fun x => Reach (reader cfg idx) Unaliased x.env ∧ (∀ cid, Tokened x cid) ∧ LoggedIn x)
    (fun _ hx => ⟨reach_fleet_reader (hx.mono fun _ _ hc => hc.2), reach_tokened hx,
      reach_logged hx⟩)
    (init_all_watched recSize args cfg idx)
    fun _ _ _ ⟨hr, htok, hlog⟩ hx hc hs => hx.step hr htok hlog hc.1 hc.2 hs

end

end Lcap.Proofs
