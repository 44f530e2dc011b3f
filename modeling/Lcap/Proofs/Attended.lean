import Lcap.Proofs.Isolation
import Lcap.Proofs.Sealed

namespace Lcap.Proofs
open Reader Client Systems

/-! ## One entry for each client -/

def Apart (s : ReaderEnv) : Prop := (s.rePeers.map ClientState.csIdent).Nodup

theorem Apart.served (h : Apart s) (hs : Served s req io t rc) : Apart t := by
  have hset : ∀ {peers : List ClientState} (b : Option Nat), (peers.map ClientState.csIdent).Nodup →
      ((setCsBucket req.lrForward b peers).map ClientState.csIdent).Nodup := by
    intro peers b hn
    rwa [idents_set_cs_bucket]
  cases hs with
  | refused _ _ | eof _ _ _ | vacuous _ _ => exact h
  | registered _ hnew =>
    have hcid := get_none_iff.mp hnew
    simp only [Apart, logAck, ReaderEnv.log, registerClient, List.map_append,
      List.map_cons, List.map_nil]
    exact List.nodup_append.mpr ⟨h, by simp, by
      rintro a ha b hb rfl
      exact hcid (List.mem_singleton.mp hb ▸ ha)⟩
  | deregistered _ _ =>
    simp only [Apart, logAck, ReaderEnv.log, deregisterClient]
    rw [idents_erase h]
    exact List.Nodup.erase _ h
  | unopened _ _ hf _ _ =>
    rw [Apart, (fetch_frame hf).2.2.1]
    exact h
  | unpacked _ _ hf _ _ =>
    rw [Apart, give_idents hf]
    exact h
  | @delivered u p _ _ hf _ _ _ =>
    have hgive : Apart (assignBucket (sealOpen u p io) req.lrForward p) := by
      rw [Apart, give_idents hf]
      exact h
    exact hgive
  | pending _ _ _ _ | failed _ _ _ _ _ _ | purged _ _ _ _ _ _ _ => exact hset none h

theorem reach_apart (h : Reach (reader cfg idx) C s) : Apart s := by
  apply reach_induct (P := Apart) h
  · exact List.nodup_nil
  · exact fun _ _ _ _ hs => hs
  · intro s r block t _ hs _ _ hst
    cases hst with
    | insert _ _ | spill _ _ => exact hs
  · intro s req io t rc _ hs _ hst
    rw [Apart, answered_peers]
    exact hs.served hst

/-- A client that has been let go has no entry. -/
theorem deregistered_unknown (h : Apart s) (cid : ConnId) :
    clientStateGet (deregisterClient s cid) cid = none := by
  rw [get_none_iff, deregisterClient, idents_erase h]
  exact h.not_mem_erase

/-! ## What serving a request adds to the history -/

/-- The events of a request: a bucket is acknowledged for a CLEAR of its holder alone, and
nothing is stored. -/
def Allowed (s : ReaderEnv) (req : LcapnetRequest) : Event → Prop
  | .stored _ _ => False
  | .acknowledged cid n => cid = req.lrForward ∧ req.WellFormed .clear ∧
    ∃ bkt, Holds s cid bkt ∧ (s.mem bkt).lrbIndex = n
  | _ => True

/-- What the requester is sent: codes, and the records of the bucket that it holds then. -/
def Due (t : ReaderEnv) (cid : ConnId) (rep : Reply) : Prop :=
  (∃ rc, rep = .ack rc) ∨ ∃ p, Holds t cid p ∧ rep = packEnqueue (t.mem p)

/-- A request is being served: what has happened, what has been sent, and which bucket the
requester holds now. -/
structure Attended (s : ReaderEnv) (req : LcapnetRequest) (t : ReaderEnv) : Prop where
  events : ∃ post, t.trace = s.trace ++ post ∧ ∀ e ∈ post, Allowed s req e
  due : ∃ fresh, repliesTo req.lrForward t.trace = repliesTo req.lrForward s.trace ++ fresh ∧
    ∀ rep ∈ fresh, Due t req.lrForward rep
  held : ∀ p, Holds t req.lrForward p → Holds s req.lrForward p ∨ req.WellFormed .dequeue

section
variable {s t u : ReaderEnv} {req : LcapnetRequest}

theorem Attended.refl (s : ReaderEnv) (req : LcapnetRequest) : Attended s req s :=
  ⟨⟨[], (List.append_nil _).symm, by simp⟩, ⟨[], (List.append_nil _).symm, by simp⟩,
    fun _ h => .inl h⟩

/-- Nothing has been sent yet. -/
structure Silent (s : ReaderEnv) (req : LcapnetRequest) (t : ReaderEnv) : Prop where
  events : ∃ post, t.trace = s.trace ++ post ∧ ∀ e ∈ post, Allowed s req e
  replies : repliesTo req.lrForward t.trace = repliesTo req.lrForward s.trace

theorem Silent.refl (s : ReaderEnv) (req : LcapnetRequest) : Silent s req s :=
  ⟨⟨[], (List.append_nil _).symm, by simp⟩, rfl⟩

theorem Silent.congr (h : Silent s req t) (ht : u.trace = t.trace) : Silent s req u := by
  refine ⟨?_, ?_⟩
  · rw [ht]
    exact h.events
  · rw [ht]
    exact h.replies

theorem Silent.log (h : Silent s req t) (ht : u.trace = t.trace ++ [e]) (hm : messageOf e = none)
    (he : Allowed s req e) : Silent s req u := by
  obtain ⟨post, hpost, hall⟩ := h.events
  refine ⟨⟨post ++ [e], by rw [ht, hpost, List.append_assoc], fun e' hm' => ?_⟩, ?_⟩
  · rcases List.mem_append.mp hm' with hm' | hm'
    · exact hall e' hm'
    · exact List.mem_singleton.mp hm' ▸ he
  · rw [ht, replies_to_silent hm, h.replies]

theorem Silent.give (h : Silent s req t) (hf : Fetch t io u b) (cid : ConnId) (p : Nat) :
    Silent s req (assignBucket (sealOpen u p io) cid p) := by
  have hu : Silent s req u := h.congr (fetch_frame hf).2.2.2.2.1
  have hseal : Silent s req (sealOpen u p io) :=
    seal_open_preserve (P := Silent s req) (fun hs => hs.log rfl rfl trivial) hu p
  exact hseal.log rfl rfl trivial

theorem Silent.attended (h : Silent s req t)
    (hheld : ∀ p, Holds t req.lrForward p → Holds s req.lrForward p ∨ req.WellFormed .dequeue) :
    Attended s req t :=
  ⟨h.events, ⟨[], by rw [h.replies, List.append_nil], by simp⟩, hheld⟩

/-- A message that says what is so, to the requester. -/
theorem Silent.sent (h : Silent s req t)
    (ht : u.trace = t.trace ++ [.sent req.lrForward bkt msg (sendRc out)])
    (hmsg : Due u req.lrForward msg)
    (hheld : ∀ p, Holds u req.lrForward p → Holds s req.lrForward p ∨ req.WellFormed .dequeue) :
    Attended s req u := by
  obtain ⟨post, hpost, hall⟩ := h.events
  refine ⟨⟨post ++ [_], by rw [ht, hpost, List.append_assoc], fun e hm => ?_⟩, ?_, hheld⟩
  · rcases List.mem_append.mp hm with hm | hm
    · exact hall e hm
    · cases List.mem_singleton.mp hm
      trivial
  · rw [ht]
    rcases replies_to_send req.lrForward t.trace bkt msg out with ⟨_, hr⟩ | ⟨_, hr⟩
    · refine ⟨[msg], by rw [hr, h.replies], fun rep hm => ?_⟩
      exact List.mem_singleton.mp hm ▸ hmsg
    · exact ⟨[], by rw [hr, h.replies, List.append_nil], by simp⟩

theorem Silent.acked (h : Silent s req t) (ret : Int) (out : Option Errno)
    (hheld : ∀ p, Holds t req.lrForward p → Holds s req.lrForward p ∨ req.WellFormed .dequeue) :
    Attended s req (logAck t req.lrForward ret out) :=
  h.sent rfl (.inl ⟨ret, rfl⟩) hheld

/-- The dispatcher may add a code. -/
theorem Attended.answered (h : Attended s req t) (io : RpcIo) (rc : Int) :
    Attended s req (answered t req io rc) := by
  refine answered_preserve (P := Attended s req) (fun u ret out hu => ?_) h rc
  obtain ⟨post, hpost, hall⟩ := hu.events
  obtain ⟨fresh, hfresh, hdue⟩ := hu.due
  have htrace : (logAck u req.lrForward ret out).trace =
      u.trace ++ [.sent req.lrForward none (.ack ret) (sendRc out)] := rfl
  refine ⟨⟨post ++ [_], by rw [htrace, hpost, List.append_assoc], fun e hm => ?_⟩, ?_, hu.held⟩
  · rcases List.mem_append.mp hm with hm | hm
    · exact hall e hm
    · cases List.mem_singleton.mp hm
      trivial
  · rw [htrace]
    rcases replies_to_send req.lrForward u.trace none (.ack ret) out with ⟨_, hr⟩ | ⟨_, hr⟩
    · refine ⟨fresh ++ [.ack ret], by rw [hr, hfresh, List.append_assoc], fun rep hm => ?_⟩
      rcases List.mem_append.mp hm with hm | hm
      · exact hdue rep hm
      · exact .inl ⟨ret, List.mem_singleton.mp hm⟩
    · exact ⟨fresh, by rw [hr, hfresh], hdue⟩

theorem not_holds_of_idle (hi : Idle t cid) (p : Nat) : ¬ Holds t cid p := fun hh => hh.not_idle hi

theorem Attended.served (hap : Apart s) (hs : Served s req io t rc) : Attended s req t := by
  have hstart := Silent.refl s req
  have hsame : ∀ p, Holds s req.lrForward p → Holds s req.lrForward p ∨ req.WellFormed .dequeue :=
    fun _ hh => .inl hh
  have hgone : ∀ {u}, (∀ p, ¬ Holds u req.lrForward p) →
      ∀ p, Holds u req.lrForward p → Holds s req.lrForward p ∨ req.WellFormed .dequeue :=
    fun hno p hh => absurd hh (hno p)
  have hack : ∀ {bkt}, req.WellFormed .clear → Holds s req.lrForward bkt →
      Silent s req (acknowledgeBucket s req.lrForward bkt) :=
    fun hop hh => hstart.log rfl rfl ⟨rfl, hop, _, hh, rfl⟩
  have hclear : ∀ {bkt} endrec, req.WellFormed .clear → Holds s req.lrForward bkt →
      Silent s req (logClear (acknowledgeBucket s req.lrForward bkt) endrec (io.clearRc 0)) :=
    fun endrec hop hh => (hack hop hh).log rfl rfl trivial
  have hfree : ∀ {bkt}, Holds s req.lrForward bkt →
      ∀ p, ¬ Holds (acknowledgeBucket s req.lrForward bkt) req.lrForward p :=
    fun hh p => not_holds_of_idle (acknowledge_idle hh) p
  cases hs with
  | refused _ _ | eof _ _ _ | vacuous _ _ => exact .refl s req
  | registered _ hnew =>
    have hno : ∀ p, ¬ Holds (registerClient s req) req.lrForward p :=
      not_holds_of_idle (register_idle hnew)
    exact Silent.acked (t := registerClient s req) (hstart.congr rfl) _ _ (hgone hno)
  | deregistered _ _ =>
    refine Silent.acked (t := deregisterClient s req.lrForward) (hstart.congr rfl) _ _
      (hgone fun p hh => ?_)
    obtain ⟨cs, hg, _⟩ := hh
    rw [deregistered_unknown hap] at hg
    cases hg
  | unopened hop _ hf _ _ =>
    exact (hstart.congr (fetch_frame hf).2.2.2.2.1).attended fun _ _ => .inr hop
  | unpacked hop _ hf _ _ => exact (hstart.give hf _ _).attended fun _ _ => .inr hop
  | @delivered u p hop hi hf _ _ _ =>
    refine (hstart.give hf req.lrForward p).sent rfl (.inr ⟨p, ?_, ?_⟩) fun _ _ => .inr hop
    · have hidle : Idle (sealOpen u p io) req.lrForward :=
        Idle.congr ((Unseen.fetch hf _).trans (.sealOpen _ u p io)).seat hi
      exact Holds.congr rfl (assign_holds hidle p)
    · exact pack_congr ⟨((Quiet.send _ req.lrForward p io).contents p).1.symm,
        ((Quiet.send _ req.lrForward p io).contents p).2.symm⟩
  | pending hop hh _ _ => exact (hack hop hh).acked _ _ (hgone (hfree hh))
  | @failed bkt head endrec hop hh _ _ _ _ =>
    exact (hclear endrec hop hh).attended (hgone (hfree hh))
  | @purged bkt head endrec hop hh _ _ _ _ _ =>
    exact Silent.acked ((hclear endrec hop hh).log (u := recBucketDestroy _ head) rfl rfl trivial) _
      _ (hgone (hfree hh))

/-- What serving a request does for the one who has sent it. -/
theorem request_attended (hshape : Shape s) (hap : Apart s)
    (hs : readerStep s (.request req io) = some t) :
    Attended s req t := by
  obtain ⟨_, hhdl⟩ := request_step hs
  obtain ⟨u, rc, hserved, rfl⟩ := request_served hshape.nodup hhdl
  exact (Attended.served hap hserved).answered io rc

end

end Lcap.Proofs
