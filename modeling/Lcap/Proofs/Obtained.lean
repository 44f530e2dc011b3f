import Lcap.Proofs.EndToEnd
import Lcap.Proofs.Order

namespace Lcap.Proofs
open Reader Systems
open Client (Fleet FleetMove FleetEvent fleet fleetStep RecvResult Peer PxZmqData PxIo StartArgs
  nextRecord cacheReply repliesTo IsOther EOVERFLOW eoverflow_neg)

/-! ## What has been sent to a client and given to its application -/

/-- The records of a message. -/
def batchOf : Reply → List ChangelogRec
  | .enqueue _ _ recs => recs
  | .ack _ => []

/-- The records of several messages. -/
def batches (replies : List Reply) : List ChangelogRec := replies.flatMap batchOf

def recordOf : RecvResult → Option ChangelogRec
  | .record r => some r
  | .code _ | .overrun => none

/-- The records among what `lcap_changelog_recv` has returned. -/
def recordsGiven (res : List RecvResult) : List ChangelogRec := res.filterMap recordOf

/-- A message counts the records in it, which have been stored, and is as long as its
header and they are. -/
def Packed (s : ReaderEnv) (rep : Reply) : Prop :=
  ∀ size count recs, rep = .enqueue size count recs →
    count = recs.length ∧ size = sizeofEnqueue + recordsSize recs ∧ ∀ r ∈ recs,
      r ∈ storedRecords s.trace

section
variable {s t : ReaderEnv} {cid : ConnId}

theorem batches_append (a b : List Reply) : batches (a ++ b) = batches a ++ batches b :=
  List.flatMap_append

theorem given_append (a b : List RecvResult) :
    recordsGiven (a ++ b) = recordsGiven a ++ recordsGiven b :=
  List.filterMap_append

theorem sent_of_reply (h : rep ∈ repliesTo cid s.trace) :
    ∃ bkt, .sent cid bkt rep 0 ∈ s.trace := by
  obtain ⟨⟨dst, msg⟩, hm, hdst⟩ := List.mem_filterMap.mp h
  obtain ⟨e, he, hmsg⟩ := List.mem_filterMap.mp hm
  obtain ⟨hto, hrep⟩ := Option.ite_none_right_eq_some.mp hdst
  cases hto
  cases hrep
  cases e with
  | sent dst bkt msg rc =>
    obtain ⟨hrc, hpair⟩ := Option.ite_none_right_eq_some.mp hmsg
    cases hrc
    cases hpair
    exact ⟨bkt, he⟩
  | opened _ | stored _ _ | assigned _ _ | acknowledged _ _ | cleared _ _ _ _ | destroyed _ =>
    cases hmsg

theorem reach_packed (h : Reach (reader cfg idx) C s) (cid : ConnId) :
    ∀ rep ∈ repliesTo cid s.trace, Packed s rep := by
  rintro rep hrep size count recs rfl
  obtain ⟨bkt, hsent⟩ := sent_of_reply hrep
  cases bkt with
  | none =>
    obtain ⟨ret, he⟩ := message_plain h hsent
    cases he
  | some p =>
    obtain ⟨recs', he, _, hstored⟩ := message_packed h hsent
    obtain ⟨rfl, rfl, rfl⟩ := Reply.enqueue.inj he
    exact ⟨rfl, rfl, fun r hr => mem_stored_records.mpr ⟨p, hstored r hr⟩⟩

/-- Only stored records are sent. -/
theorem batches_stored (h : Reach (reader cfg idx) C s) (hr : r ∈ batches (repliesTo cid s.trace)) :
    r ∈ storedRecords s.trace := by
  obtain ⟨rep, hrep, hr⟩ := List.mem_flatMap.mp hr
  cases rep with
  | ack _ => cases hr
  | enqueue size count recs => exact (reach_packed h cid _ hrep size count recs rfl).2.2 r hr

end

/-! ## What a client has had -/

/-- What an application has been given, and what the cache has still to give. -/
def obtained (res : List RecvResult) (pzd : PxZmqData) : List ChangelogRec :=
  recordsGiven res ++ toGive pzd

/-- A cache has given no more than it has, and a context that is not started has none. -/
structure Placed (q : Peer) : Prop where
  le : q.pzd.recNxt ≤ q.pzd.recCnt
  fresh : q.stage = .unstarted → q.pzd = {}

section
variable {s : ReaderEnv} {res res' : List RecvResult} {pzd pzd' : PxZmqData}

/-- The next record is the first of those still to give, where there is one. -/
theorem next_to_give {pzd : PxZmqData} (hlt : pzd.recNxt < pzd.recCnt) :
    recordsGiven [(nextRecord pzd).2] ++ toGive (nextRecord pzd).1 = toGive pzd := by
  have htail : toGive (nextRecord pzd).1 = (toGive pzd).drop 1 := by
    simp only [toGive, nextRecord, List.drop_drop]
  have hget : (toGive pzd)[0]? = pzd.records[pzd.recNxt]? := by
    rw [toGive, List.getElem?_drop, Nat.add_zero, List.getElem?_take_of_lt hlt]
  rw [htail]
  cases hr : pzd.records[pzd.recNxt]? with
  | none =>
    rw [hr] at hget
    have hnil : toGive pzd = [] := List.eq_nil_of_length_eq_zero
      (Nat.le_zero.mp (List.getElem?_eq_none_iff.mp hget))
    have hres : (nextRecord pzd).2 = .overrun := by simp only [nextRecord, hr]
    rw [hnil, hres]
    rfl
  | some r =>
    rw [hr] at hget
    have hres : (nextRecord pzd).2 = .record r := by simp only [nextRecord, hr]
    rw [hres]
    cases hg : toGive pzd with
    | nil =>
      rw [hg] at hget
      cases hget
    | cons a rest =>
      rw [hg] at hget
      cases hget
      rfl

theorem obtained_next (res : List RecvResult) (hlt : pzd.recNxt < pzd.recCnt) :
    obtained (res ++ [(nextRecord pzd).2]) (nextRecord pzd).1 = obtained res pzd := by
  rw [obtained, given_append, List.append_assoc, next_to_give hlt]
  rfl

/-- A call leaves the cache where it was, and gives no record. -/
theorem obtained_calm (hpzd : SamePlace pzd pzd') (hgiven : recordsGiven res' = []) :
    obtained (res ++ res') pzd' = obtained res pzd := by
  rw [obtained, given_append, hgiven, List.append_nil, hpzd.to_give]
  rfl

theorem obtained_code (hempty : pzd.recNxt = pzd.recCnt)
    (hempty' : pzd'.recNxt = pzd'.recCnt) (rc : Int) :
    obtained (res ++ [.code rc]) pzd' = obtained res pzd := by
  have hcode : recordsGiven [.code rc] = [] := rfl
  rw [obtained, obtained, given_append, hcode, to_give_empty (by omega), to_give_empty (by omega),
    List.append_nil]

/-- A batch comes into an empty cache, and its first record is given. -/
theorem obtained_batch (hempty : pzd.recNxt = pzd.recCnt) (hlt : pzd'.recNxt < pzd'.recCnt)
    (hrecs : toGive pzd' = batchOf rep) :
    obtained (res ++ [(nextRecord pzd').2]) (nextRecord pzd').1 = obtained res pzd ++
      batchOf rep := by
  rw [obtained_next res hlt, obtained, obtained, to_give_empty hempty.ge.not_gt,
    List.append_nil, hrecs]

/-- The reply to a DEQUEUE leaves an empty cache and a code, or its batch. -/
theorem cache_reply_batch {pzd : PxZmqData} (hpos : 0 < recSize)
    (hempty : pzd.recNxt = pzd.recCnt) (io : PxIo) (hne : rep ≠ .ack 0) (hpacked : Packed s rep) :
    (cacheReply recSize pzd io rep).2 ≠ 0 ∧
        (cacheReply recSize pzd io rep).1.recNxt = (cacheReply recSize pzd io rep).1.recCnt ∨
      (cacheReply recSize pzd io rep).2 = 0 ∧
        (cacheReply recSize pzd io rep).1.recNxt < (cacheReply recSize pzd io rep).1.recCnt ∧
        toGive (cacheReply recSize pzd io rep).1 = batchOf rep := by
  unfold cacheReply
  cases io.recv with
  | some e => exact .inl ⟨Int.ne_of_lt (errno_neg e), hempty⟩
  | none =>
    simp only
    split
    · exact .inl ⟨Int.ne_of_lt eoverflow_neg, hempty⟩
    cases rep with
    | ack rc => exact .inl ⟨fun h0 => hne (congrArg Reply.ack h0), hempty⟩
    | enqueue size count recs =>
      obtain ⟨rfl, rfl, _⟩ := hpacked size count recs rfl
      simp only
      split
      · exact .inl ⟨Int.ne_of_lt einval_neg, hempty⟩
      rename_i hlong
      have hcount : 0 < recs.length := by
        cases recs with
        | nil =>
          simp only [recordsSize, List.map_nil, List.sum_nil] at hlong
          omega
        | cons _ _ => simp
      split
      · split
        · exact .inr ⟨rfl, hcount, by simp [toGive, batchOf]⟩
        · exact .inl ⟨Int.ne_of_lt enomem_neg, hempty⟩
      · exact .inr ⟨rfl, hcount, by simp [toGive, batchOf]⟩

end

/-! ## The fleet -/

section
variable {recSize : Nat} {args : ConnId → StartArgs} {x y : Fleet} {cid cid' : ConnId}

/-- What one client has had, in the state of a fleet. -/
def obtainedBy (x : Fleet) (cid : ConnId) : List ChangelogRec :=
  obtained (resultsOf cid x.hist) (x.peers cid).pzd

/-- The replies that a client has received. -/
def answersTo (x : Fleet) (cid : ConnId) : List Reply :=
  (repliesTo cid x.env.trace).take (x.peers cid).taken

/-- What a move does to what a client has had: nothing, or it has received one more reply,
and its batch is in the cache, or has been dropped for a code, or the reply has ended the
context with its cache. -/
inductive Obtains (recSize : Nat) (cid : ConnId) (x : Fleet) (m : FleetMove) (y : Fleet) : Prop
  | nothing (hhad : obtainedBy y cid = obtainedBy x cid) (hans : answersTo y cid = answersTo x cid)
  | batch (hhad : obtainedBy y cid = obtainedBy x cid ++ batchOf rep)
      (hans : answersTo y cid = answersTo x cid ++ [rep])
  | dropped (hm : m = .receive cid) (hwait : (x.peers cid).waiting = some (.recv, io))
      (hmem : rep ∈ unread x cid) (hcode : (cacheReply recSize (x.peers cid).pzd io rep).2 ≠ 0)
      (hhad : obtainedBy y cid = obtainedBy x cid)
        (hans : answersTo y cid = answersTo x cid ++ [rep])
  | finished (hm : m = .receive cid) (hwait : (x.peers cid).waiting = some (.fini, io))
      (hhad : obtainedBy y cid = recordsGiven (resultsOf cid x.hist))
      (hans : answersTo y cid = answersTo x cid ++ [.ack rc])

theorem obtained_finish (cid : ConnId) (x : Fleet) (c : Peer) (d : Client.Done) :
    obtainedBy (x.finish cid c d) cid = obtained (resultsOf cid x.hist ++ d.res.toList) d.pzd := by
  rw [obtainedBy, results_finish, if_pos rfl, finish_self]

theorem answers_finish (cid : ConnId) (x : Fleet) (c : Peer) (d : Client.Done) :
    answersTo (x.finish cid c d) cid = (repliesTo cid x.env.trace).take c.taken := by
  rw [answersTo, finish_self]
  rfl

theorem placed_finish (cid : ConnId) (x : Fleet) (c : Peer) {d : Client.Done}
    (hle : d.pzd.recNxt ≤ d.pzd.recCnt)
    (hstage : d.stage ≠ .unstarted) : Placed ((x.finish cid c d).peers cid) := by
  rw [finish_self]
  exact ⟨hle, fun hs => absurd hs hstage⟩

theorem SamePlace.le (h : SamePlace pzd pzd') (hle : pzd.recNxt ≤ pzd.recCnt) :
    pzd'.recNxt ≤ pzd'.recCnt := by
  rw [h.recNxt, h.recCnt]
  exact hle

/-- A request leaves: nothing is given. -/
theorem Placed.asked (h : Placed (x.peers cid)) (m : FleetMove) (req : Client.WireRequest)
    (waiting : Option (Client.ApiCall × PxIo)) :
    Placed ((x.set cid { (x.peers cid).sent req with waiting := waiting }).peers cid) ∧
      Obtains recSize cid x m (x.set cid { (x.peers cid).sent req with waiting := waiting }) := by
  refine ⟨?_, .nothing ?_ ?_⟩
  · rw [set_self]
    exact ⟨h.le, h.fresh⟩
  · rw [obtainedBy, set_self]
    rfl
  · rw [answersTo, set_self]
    rfl

theorem Placed.called (h : Placed (x.peers cid))
    (hs : fleetStep recSize args x (.call cid call io) = some y) :
    Placed (y.peers cid) ∧ Obtains recSize cid x (.call cid call io) y := by
  simp only [fleetStep] at hs
  split at hs
  · cases hs
  by_cases hrecv : call = .recv
  · subst hrecv
    split at hs
    · cases hs
    · rename_i d ho
      obtain rfl := Option.some.inj hs
      obtain ⟨_, hway⟩ := recv_outcome ho
      cases hway with
      | next hleft =>
        have hlt := Nat.lt_of_le_of_ne h.le hleft
        refine ⟨placed_finish _ _ _ hlt started_ne, .nothing ?_ (answers_finish _ _ _ _)⟩
        rw [obtained_finish]
        exact obtained_next _ hlt
      | unsent hempty =>
        refine ⟨placed_finish _ _ _ h.le started_ne, .nothing ?_ (answers_finish _ _ _ _)⟩
        rw [obtained_finish]
        exact obtained_code hempty hempty _
    · rename_i req d ho
      obtain rfl := Option.some.inj hs
      obtain ⟨_, hway⟩ := recv_outcome ho
      cases hway with
      | unheard hempty =>
        refine ⟨placed_finish _ _ _ h.le started_ne, .nothing ?_ (answers_finish _ _ _ _)⟩
        rw [obtained_finish]
        exact obtained_code hempty hempty _
    · obtain rfl := Option.some.inj hs
      exact h.asked _ _ _
  · split at hs
    · cases hs
    · rename_i d ho
      obtain rfl := Option.some.inj hs
      cases other_outcome hrecv h.fresh ho with
      | ret hd =>
        refine ⟨placed_finish _ _ _ (hd.pzd.le h.le) hd.stage, .nothing ?_ (answers_finish _ _ _ _)⟩
        rw [obtained_finish, hd.res]
        exact obtained_calm hd.pzd rfl
    · rename_i req d ho
      cases other_outcome hrecv h.fresh ho
    · obtain rfl := Option.some.inj hs
      exact h.asked _ _ _

theorem Placed.received (h : Placed (x.peers cid)) (hpos : 0 < recSize) (htok : Tokened x cid)
    (hpacked : ∀ rep ∈ repliesTo cid x.env.trace, Packed x.env rep)
    (hs : fleetStep recSize args x (.receive cid) = some y) :
    Placed (y.peers cid) ∧ Obtains recSize cid x (.receive cid) y := by
  simp only [fleetStep] at hs
  split at hs
  case h_2 => cases hs
  rename_i call io rep rest hwait hpend
  split at hs
  case h_2 => cases hs
  rename_i req resume ho
  obtain rfl := Option.some.inj hs
  have hmem : rep ∈ unread x cid := by
    rw [unread, hpend]
    exact List.mem_cons_self
  have hans : ∀ d,
      answersTo (x.finish cid { x.peers cid with owed := false, taken := (x.peers cid).taken + 1 }
      d) cid = answersTo x cid ++ [rep] := by
    intro d
    rw [answers_finish, List.take_add, hpend]
    rfl
  by_cases hrecv : call = .recv
  · subst hrecv
    have hne : rep ≠ .ack 0 := by
      rintro rfl
      exact (htok.token.dequeue io hwait).2 hmem
    obtain ⟨_, hway⟩ := recv_outcome ho
    cases hway with
    | asks hempty =>
      rcases cache_reply_batch hpos hempty io hne (hpacked rep (List.mem_of_mem_drop hmem)) with
        ⟨hrc, hend⟩ | ⟨hrc, hlt, hrecs⟩
      · simp only [received_code hrc]
        refine ⟨placed_finish _ _ _ hend.le started_ne, .dropped rfl hwait hmem hrc ?_ (hans _)⟩
        rw [obtained_finish]
        exact obtained_code hempty hend _
      · simp only [received_next hrc]
        refine ⟨placed_finish _ _ _ hlt started_ne, .batch ?_ (hans _)⟩
        rw [obtained_finish]
        exact obtained_batch hempty hlt hrecs
  · obtain ⟨rc, rfl⟩ := (htok.token.other call io hwait hrecv).2 rep hmem
    cases other_outcome hrecv h.fresh ho with
    | asks _ hd _ =>
      rcases hd (.ack rc) with hd | ⟨rfl, _, hd⟩
      · refine ⟨placed_finish _ _ _ (hd.pzd.le h.le) hd.stage, .batch ?_ (hans _)⟩
        rw [obtained_finish, hd.res, batchOf, List.append_nil]
        exact obtained_calm hd.pzd rfl
      · refine ⟨placed_finish _ _ _ ?_ ?_, .finished rfl hwait ?_ (hans _)⟩
        · rw [hd, released]
        · simp [hd, released]
        · rw [obtained_finish, hd, released, obtained, Option.toList_none, List.append_nil]
          exact List.append_nil _

theorem Placed.interrupted (h : Placed (x.peers cid))
    (hs : fleetStep recSize args x (.interrupt cid e) = some y) :
    Placed (y.peers cid) ∧ Obtains recSize cid x (.interrupt cid e) y := by
  simp only [fleetStep] at hs
  split at hs
  case h_2 => cases hs
  rename_i call io hwait
  split at hs
  case h_2 => cases hs
  rename_i req resume ho
  obtain rfl := Option.some.inj hs
  by_cases hrecv : call = .recv
  · subst hrecv
    obtain ⟨_, hway⟩ := recv_outcome ho
    cases hway with
    | asks hempty =>
      have hrc : -(e.val : Int) ≠ 0 := Int.ne_of_lt (errno_neg e)
      have hcode : (cacheReply recSize (x.peers cid).pzd { io with recv := some e } (.ack 0)).2 ≠
          0 := hrc
      simp only [received_code hcode]
      refine ⟨placed_finish _ _ _ h.le started_ne, .nothing ?_ (answers_finish _ _ _ _)⟩
      rw [obtained_finish]
      exact obtained_code hempty hempty _
  · cases other_outcome hrecv h.fresh ho with
    | asks _ hd _ =>
      have hd := (hd (.ack 0)).resolve_right fun hend => Option.some_ne_none e hend.2.1
      refine ⟨placed_finish _ _ _ (hd.pzd.le h.le) hd.stage, .nothing ?_ (answers_finish _ _ _ _)⟩
      rw [obtained_finish, hd.res]
      exact obtained_calm hd.pzd rfl

/-- What the reader does only adds to what is still to be received. -/
theorem Placed.advanced (h : Placed (x.peers cid)) (m : FleetMove) (htok : Tokened x cid)
    (hgrows : ∃ post, y.env.trace = x.env.trace ++ post)
    (hpzd : (y.peers cid).pzd = (x.peers cid).pzd)
    (hstage : (y.peers cid).stage = (x.peers cid).stage)
    (htaken : (y.peers cid).taken = (x.peers cid).taken)
    (hres : resultsOf cid y.hist = resultsOf cid x.hist) :
    Placed (y.peers cid) ∧ Obtains recSize cid x m y := by
  obtain ⟨post, hpost⟩ := hgrows
  refine ⟨⟨?_, ?_⟩, .nothing ?_ ?_⟩
  · rw [hpzd]
    exact h.le
  · rw [hpzd, hstage]
    exact h.fresh
  · rw [obtainedBy, hres, hpzd]
    rfl
  · rw [answersTo, hpost, replies_to_append, htaken, List.take_append_of_le_length htok.counted]
    rfl

/-- The client whose call begins or ends in a move. -/
def callerOf : FleetMove → Option ConnId
  | .call cid _ _ | .receive cid | .interrupt cid _ => some cid
  | .deliver _ _ | .enqueue _ _ | .sigterm => none

/-- The calls of other clients touch nothing of this one's. -/
structure Elsewhere (x y : Fleet) (cid : ConnId) : Prop where
  env : y.env = x.env
  peer : y.peers cid = x.peers cid
  results : resultsOf cid y.hist = resultsOf cid x.hist

theorem finish_elsewhere (hne : cid' ≠ cid) (x : Fleet) (c : Peer) (d : Client.Done) :
    Elsewhere x (x.finish cid' c d) cid := by
  refine ⟨rfl, Proofs.finish_other hne _ _ _, ?_⟩
  rw [results_finish, if_neg hne, List.append_nil]

theorem call_elsewhere (hm : callerOf m = some cid') (hne : cid' ≠ cid)
    (hs : fleetStep recSize args x m = some y) :
    Elsewhere x y cid := by
  cases m with
  | call c call io =>
    cases hm
    simp only [fleetStep] at hs
    split at hs
    · cases hs
    split at hs
    · cases hs
    · obtain rfl := Option.some.inj hs
      exact finish_elsewhere hne _ _ _
    · obtain rfl := Option.some.inj hs
      exact finish_elsewhere hne _ _ _
    · obtain rfl := Option.some.inj hs
      exact ⟨rfl, Proofs.set_other hne _ _, rfl⟩
  | receive c =>
    cases hm
    simp only [fleetStep] at hs
    split at hs
    case h_2 => cases hs
    split at hs
    case h_2 => cases hs
    obtain rfl := Option.some.inj hs
    exact finish_elsewhere hne _ _ _
  | interrupt c e =>
    cases hm
    simp only [fleetStep] at hs
    split at hs
    case h_2 => cases hs
    split at hs
    case h_2 => cases hs
    obtain rfl := Option.some.inj hs
    exact finish_elsewhere hne _ _ _
  | deliver _ _ | enqueue _ _ | sigterm => cases hm

theorem Placed.elsewhere (h : Placed (x.peers cid)) (m : FleetMove) (he : Elsewhere x y cid) :
    Placed (y.peers cid) ∧ Obtains recSize cid x m y := by
  refine ⟨?_, .nothing ?_ ?_⟩
  · rw [he.peer]
    exact h
  · rw [obtainedBy, he.results, he.peer]
    rfl
  · rw [answersTo, he.env, he.peer]
    rfl

theorem Placed.step (h : Placed (x.peers cid)) (hpos : 0 < recSize)
    (hr : Reach (reader cfg idx) Always x.env)
    (htok : Tokened x cid) (hs : fleetStep recSize args x m = some y) :
    Placed (y.peers cid) ∧ Obtains recSize cid x m y := by
  have hreader : ∀ (z : Fleet) {l : Label} {rpc : Option Client.WireRequest}, z.hist = x.hist →
      (z.peers cid).pzd = (x.peers cid).pzd → (z.peers cid).stage = (x.peers cid).stage →
      (z.peers cid).taken = (x.peers cid).taken →
        (readerStep x.env l).map (z.advance rpc) = some y →
      Placed (y.peers cid) ∧ Obtains recSize cid x m y := by
    intro z l rpc hhist hpzd hstage htaken hl
    obtain ⟨env, henv, rfl⟩ := Option.map_eq_some_iff.mp hl
    refine h.advanced m htok (step_grows (reach_shape hr) henv) hpzd hstage htaken ?_
    rw [results_advance, hhist]
  cases m with
  | call c call io =>
    by_cases hc : c = cid
    · subst hc
      exact h.called hs
    · exact h.elsewhere _ (call_elsewhere rfl hc hs)
  | deliver c io =>
    simp only [fleetStep] at hs
    split at hs
    · cases hs
    by_cases hc : c = cid
    · subst hc
      refine hreader (x.set c { x.peers c with wire := none }) rfl ?_ ?_ ?_ hs
      · rw [set_self]
      · rw [set_self]
      · rw [set_self]
    · refine hreader (x.set c { x.peers c with wire := none }) rfl ?_ ?_ ?_ hs
      · rw [Proofs.set_other hc]
      · rw [Proofs.set_other hc]
      · rw [Proofs.set_other hc]
  | receive c =>
    by_cases hc : c = cid
    · subst hc
      exact h.received hpos htok (reach_packed hr c) hs
    · exact h.elsewhere _ (call_elsewhere rfl hc hs)
  | interrupt c e =>
    by_cases hc : c = cid
    · subst hc
      exact h.interrupted hs
    · exact h.elsewhere _ (call_elsewhere rfl hc hs)
  | enqueue startRc script => exact hreader x (l := .enqueue startRc script) rfl rfl rfl rfl hs
  | sigterm => exact hreader x (l := .sigterm) rfl rfl rfl rfl hs

/-- What holds of what a client has had and of the replies that it has received is shown
for what each move does to them. -/
theorem obtains_induct {P : List ChangelogRec → List Reply → Prop}
    (h : Reach (fleet recSize args cfg idx) C x)
    (hpos : 0 < recSize) (hinit : P [] [])
    (hstep : ∀ x m y, Tokened x cid → Reach (reader cfg idx) Always x.env →
      C x m → Obtains recSize cid x m y → P (obtainedBy x cid) (answersTo x cid) →
      P (obtainedBy y cid) (answersTo y cid)) : P (obtainedBy x cid) (answersTo x cid) := by
  have hboth : Placed (x.peers cid) ∧ P (obtainedBy x cid) (answersTo x cid) := by
    refine h.induct (P := fun x => Placed (x.peers cid) ∧ P (obtainedBy x cid) (answersTo x cid))
      (Q := fun x => Reach (reader cfg idx) Always x.env ∧ Tokened x cid)
      (fun _ hx => ⟨reach_fleet_always hx, reach_tokened hx cid⟩)
        ⟨⟨Nat.le_refl 0, fun _ => rfl⟩, hinit⟩ ?_
    rintro x m y ⟨hr, htok⟩ ⟨hplaced, hp⟩ hc hs
    obtain ⟨hplaced', hob⟩ := hplaced.step hpos hr htok hs
    exact ⟨hplaced', hstep x m y htok hr hc hob hp⟩
  exact hboth.2

end

end Lcap.Proofs
