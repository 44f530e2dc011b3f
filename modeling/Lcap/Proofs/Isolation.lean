import Lcap.Proofs.Seats
import Lcap.Systems.History

namespace Lcap.Proofs
open Reader Client Systems

/-- A request that has been served: what it asked for, who sent it, and the result. -/
structure RpcOutcome where
  op : Option RpcOpType
  cid : ConnId
  rc : Int
  deriving DecidableEq, Repr

/-- What serving a request adds to the list of outcomes. -/
def rpcOutcome (s : ReaderEnv) : Label → List RpcOutcome
  | .request req io => match rpcDispatch s req io with
    | .ok (_, rc) => [⟨rpcOpType req.opType, req.lrForward, rc⟩]
    | .error _ => []
  | _ => []

def started (cid : ConnId) : RpcOutcome := ⟨some .start, cid, 0⟩
def finished (cid : ConnId) : RpcOutcome := ⟨some .fini, cid, 0⟩

/-- A reader with the outcomes of the requests it has served. -/
def served (cfg : LcapCfg) (idx : Nat) : System (ReaderEnv × List RpcOutcome) Label :=
  logged (reader cfg idx) rpcOutcome

/-- `zmq_send` succeeds in this step. -/
def Sends (_ : ReaderEnv) : Label → Prop
  | .request _ io => io.send = none ∧ io.ackSend = none
  | _ => True

instance : ∀ (s : ReaderEnv) (l : Label), Decidable (Sends s l)
  | _, .request _ io => inferInstanceAs (Decidable (io.send = none ∧ io.ackSend = none))
  | _, .enqueue _ _ | _, .sigterm => isTrue trivial

/-- Each client has one entry, from its last successful START to the FINI behind it. -/
structure Registered (peers : List ClientState) (log : List RpcOutcome) : Prop where
  distinct : (peers.map ClientState.csIdent).Nodup
  present : ∀ cid, cid ∈ peers.map ClientState.csIdent ↔
    Standing (· = started cid) (· = finished cid) log

/-- The entries of other clients are the same in both lists. -/
def OthersKept (cid : ConnId) (peers peers' : List ClientState) : Prop :=
  ∀ cs, cs.csIdent ≠ cid → (cs ∈ peers' ↔ cs ∈ peers)

/-! ## What each operation does to the entries -/

theorem idents_set_cs_bucket (cid : ConnId) (b : Option Nat) (l : List ClientState) :
    (setCsBucket cid b l).map ClientState.csIdent = l.map ClientState.csIdent := by
  induction l with
  | nil => rfl
  | cons c l ih =>
    unfold setCsBucket
    split
    · rfl
    · simp [ih]

theorem others_set_cs_bucket (cid : ConnId) (b : Option Nat) (l : List ClientState) :
    OthersKept cid l (setCsBucket cid b l) := by
  intro cs hcs
  induction l with
  | nil => rfl
  | cons c l ih =>
    unfold setCsBucket
    split
    · rename_i hc
      have hid := same_ident_iff.mp hc
      have hne : cs ≠ c := fun he => hcs (he ▸ hid)
      have hne' : cs ≠ { c with csBucket := b } := fun he => hcs (he ▸ hid)
      simp [hne, hne']
    · simp [ih]

theorem others_erase (cid : ConnId) (l : List ClientState) :
    OthersKept cid l (l.eraseP (sameIdent cid)) := by
  intro cs hcs
  exact List.mem_eraseP_of_neg fun h => hcs (same_ident_iff.mp h)

theorem others_register (s : ReaderEnv) (req : LcapnetRequest) :
    OthersKept req.lrForward s.rePeers (registerClient s req).rePeers := by
  intro cs hcs
  have hne : cs ≠ { csStart := req.prStart, csIdent := req.lrForward } := fun he => hcs (by rw [he])
  simp [registerClient, hne]

/-- The entry of a client goes from a list without duplicates, and the others stay. -/
theorem idents_erase {l : List ClientState} (hn : (l.map ClientState.csIdent).Nodup) :
    ((l.eraseP (sameIdent cid)).map ClientState.csIdent) =
    (l.map ClientState.csIdent).erase cid := by
  induction l with
  | nil => rfl
  | cons c l ih =>
    by_cases hc : sameIdent cid c = true
    · rw [List.eraseP_cons_of_pos hc, List.map_cons, same_ident_iff.mp hc, List.erase_cons_head]
    · have hne : c.csIdent ≠ cid := fun he => hc (same_ident_iff.mpr he)
      rw [List.eraseP_cons_of_neg hc, List.map_cons, List.map_cons,
        List.erase_cons_tail (by simpa using hne), ih (List.nodup_cons.mp hn).2]

theorem get_none_iff : clientStateGet s cid = none ↔ cid ∉ s.rePeers.map ClientState.csIdent := by
  simp [clientStateGet, List.find?_eq_none, same_ident_iff]

/-! ## What each rpcOutcome says about the entries -/

theorem Registered.nil : Registered [] [] :=
  ⟨List.nodup_nil, fun _ => iff_of_false (by simp) not_standing_nil⟩

/-- Neither a successful START nor a successful FINI: the identities stay. -/
theorem Registered.quiet (h : Registered l log)
    (hl : l'.map ClientState.csIdent = l.map ClientState.csIdent)
    (hop : (o.op ≠ some .start ∧ o.op ≠ some .fini) ∨ o.rc ≠ 0) : Registered l' (log ++ [o]) := by
  have hother : ∀ op cid, op = RpcOpType.start ∨ op = RpcOpType.fini → o ≠ ⟨some op, cid, 0⟩ := by
    rintro op cid hor rfl
    rcases hop with ⟨hs, hf⟩ | hrc
    · rcases hor with rfl | rfl
      · exact hs rfl
      · exact hf rfl
    · exact hrc rfl
  refine ⟨hl ▸ h.distinct, fun cid => ?_⟩
  have hs : o ≠ started cid := hother .start cid (.inl rfl)
  have hf : o ≠ finished cid := hother .fini cid (.inr rfl)
  rw [hl, h.present cid, standing_snoc]
  simp [hs, hf]

theorem Registered.start (h : Registered l log) (cs : ClientState)
    (hnew : cs.csIdent ∉ l.map ClientState.csIdent) :
    Registered (l ++ [cs]) (log ++ [started cs.csIdent]) := by
  refine ⟨?_, fun cid => ?_⟩
  · rw [List.map_append, List.nodup_append]
    refine ⟨h.distinct, by simp, ?_⟩
    intro id hid id' hid' he
    rw [List.map_singleton, List.mem_singleton] at hid'
    exact hnew (hid' ▸ he ▸ hid)
  · rw [List.map_append, List.mem_append, List.map_singleton, List.mem_singleton, h.present cid]
    rw [standing_snoc, or_comm]
    simp [started, finished, eq_comm]

theorem Registered.fini (h : Registered l log) (cid : ConnId) :
    Registered (l.eraseP (sameIdent cid)) (log ++ [finished cid]) := by
  refine ⟨?_, fun cid' => ?_⟩
  · rw [idents_erase h.distinct]
    exact h.distinct.erase cid
  · rw [idents_erase h.distinct, h.distinct.mem_erase_iff, h.present cid']
    rw [standing_snoc, and_comm]
    simp [started, finished, eq_comm]

/-! ## Each step keeps them apart -/

theorem give_idents (hf : Fetch s io u b) (cid : ConnId) (p : Nat) :
    (assignBucket (sealOpen u p io) cid p).rePeers.map ClientState.csIdent =
      s.rePeers.map ClientState.csIdent := by
  have hp : (sealOpen u p io).rePeers = s.rePeers :=
    (seal_open_frame u p io).1.trans (fetch_frame hf).2.2.1
  exact (idents_set_cs_bucket cid (some p) (sealOpen u p io).rePeers).trans (by rw [hp])

theorem wf_other {req : LcapnetRequest} (hop : req.WellFormed op) (hs : op ≠ .start)
    (hf : op ≠ .fini) :
    rpcOpType req.opType ≠ some .start ∧ rpcOpType req.opType ≠ some .fini := by
  rw [hop.2.1]
  simp [hs, hf]

/-- A served request leaves the entries as its rpcOutcome says. -/
theorem Registered.served (h : Registered s.rePeers log) (hs : Served s req io t rc)
    (hsend : io.send = none) :
    Registered t.rePeers (log ++ [⟨rpcOpType req.opType, req.lrForward, rc⟩]) := by
  have hrc : sendRc io.send = 0 := by rw [hsend]; rfl
  cases hs with
  | refused hrc _ => exact h.quiet rfl (.inr (Int.ne_of_lt hrc))
  | registered hop hnew =>
    rw [hrc, hop.2.1]
    exact h.start ⟨req.prStart, none, req.lrForward⟩ (get_none_iff.mp hnew)
  | deregistered hop _ =>
    rw [hrc, hop.2.1]
    exact h.fini req.lrForward
  | eof hop _ _ | vacuous hop _ => exact h.quiet rfl (.inl (wf_other hop (by decide) (by decide)))
  | unopened hop _ hf _ _ =>
    exact h.quiet (congrArg _ (fetch_frame hf).2.2.1) (.inl (wf_other hop (by decide) (by decide)))
  | unpacked hop _ hf _ _ =>
    exact h.quiet (give_idents hf _ _) (.inl (wf_other hop (by decide) (by decide)))
  | delivered hop _ hf _ _ _ =>
    exact h.quiet (give_idents hf _ _) (.inl (wf_other hop (by decide) (by decide)))
  | pending hop _ _ _ | failed hop _ _ _ _ _ | purged hop _ _ _ _ _ _ =>
    exact h.quiet (idents_set_cs_bucket req.lrForward none s.rePeers)
      (.inl (wf_other hop (by decide) (by decide)))

theorem OthersKept.served (hs : Served s req io t rc) :
    OthersKept req.lrForward s.rePeers t.rePeers := by
  have hgive : ∀ {u p}, Fetch s io u (some p) →
      OthersKept req.lrForward s.rePeers
        (assignBucket (sealOpen u p io) req.lrForward p).rePeers := by
    intro u p hf
    have hp : (sealOpen u p io).rePeers = s.rePeers :=
      (seal_open_frame u p io).1.trans (fetch_frame hf).2.2.1
    exact hp ▸ others_set_cs_bucket req.lrForward (some p) (sealOpen u p io).rePeers
  cases hs with
  | refused _ _ | eof _ _ _ | vacuous _ _ => exact fun _ _ => Iff.rfl
  | registered _ _ => exact others_register s req
  | deregistered _ _ => exact others_erase req.lrForward s.rePeers
  | unopened _ _ hf _ _ => exact (fetch_frame hf).2.2.1 ▸ fun _ _ => Iff.rfl
  | unpacked _ _ hf _ _ => exact hgive hf
  | delivered _ _ hf _ _ _ => exact hgive hf
  | pending _ _ _ _ | failed _ _ _ _ _ _ | purged _ _ _ _ _ _ _ =>
    exact others_set_cs_bucket req.lrForward none s.rePeers

theorem answered_peers : (answered s req io rc).rePeers = s.rePeers :=
  answered_preserve (P := (·.rePeers = s.rePeers)) (fun _ _ _ hs => hs) rfl rc

theorem stored_peers (hs : Stored s r block t) : (recCounted t r).rePeers = s.rePeers := by
  cases hs with
  | insert _ _ => rfl
  | spill _ _ => rfl

/-- Reading records and signals have nothing to do with the clients. -/
theorem silent_step (h : readerStep s l = some t) (hl : ∀ req io, l ≠ .request req io) :
    t.rePeers = s.rePeers ∧ rpcOutcome s l = [] := by
  constructor
  · apply step_preserve (P := (·.rePeers = s.rePeers)) (fun _ _ _ _ hs => hs) _ _ h rfl
    · exact fun _ _ _ _ hs _ _ _ _ hst => (stored_peers hst).trans hs
    · exact fun req io _ _ he => absurd he (hl req io)
  · cases l with
    | request req io => exact absurd rfl (hl req io)
    | enqueue _ _ | sigterm => rfl

theorem outcome_request (hd : rpcDispatch s req io = .ok (t, rc)) :
    rpcOutcome s (.request req io) = [⟨rpcOpType req.opType, req.lrForward, rc⟩] := by
  simp only [rpcOutcome, hd]

theorem request_outcome (hn : s.reBuckets.Nodup) (h : readerStep s (.request req io) = some t) :
    ∃ u rc, Served s req io u rc ∧ t.rePeers = u.rePeers ∧
      rpcOutcome s (.request req io) = [⟨rpcOpType req.opType, req.lrForward, rc⟩] := by
  obtain ⟨rc, he⟩ := request_step h
  obtain ⟨u, r, hd, rfl⟩ := dispatch_of_hdl he
  exact ⟨u, r, dispatch_served hn hd, answered_peers, outcome_request hd⟩

namespace Sample

/-- Identities that are prefixes of one another, two STARTs and one FINI. -/
def prefixes : List Label :=
  [.request (start [1]) (calm 5), .request (start [1, 2]) (calm 5), .request (start [1]) (calm 5),
    .request (dequeue [1, 2]) (calm 5), .request (fini [1]) (calm 6)]

end Sample

end Lcap.Proofs
