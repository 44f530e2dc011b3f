import Lcap.Client.Session
import Lcap.Proofs.Replies

namespace Lcap.Proofs
open Reader Client Systems

/-! ## The entry of one client -/

theorem not_same_ident (h : cid' ≠ cid) (hc : sameIdent cid' cs = true) :
    ¬ sameIdent cid cs = true := by
  intro hc'
  exact h ((same_ident_iff.mp hc).symm.trans (same_ident_iff.mp hc'))

theorem find_set_self (cid : ConnId) (b : Option Nat) (l : List ClientState) :
    (setCsBucket cid b l).find? (sameIdent cid) =
      (l.find? (sameIdent cid)).map (fun cs => { cs with csBucket := b }) := by
  induction l with
  | nil => rfl
  | cons c l ih =>
    unfold setCsBucket
    by_cases hc : sameIdent cid c = true
    · have hc' : sameIdent cid { c with csBucket := b } = true := hc
      rw [if_pos hc, List.find?_cons_of_pos hc', List.find?_cons_of_pos hc]
      rfl
    · rw [if_neg hc, List.find?_cons_of_neg hc, List.find?_cons_of_neg hc, ih]

theorem find_set_other (h : cid' ≠ cid) (b : Option Nat) (l : List ClientState) :
    (setCsBucket cid' b l).find? (sameIdent cid) = l.find? (sameIdent cid) := by
  induction l with
  | nil => rfl
  | cons c l ih =>
    unfold setCsBucket
    by_cases hc : sameIdent cid' c = true
    · have hn := not_same_ident h hc
      have hn' : ¬ sameIdent cid { c with csBucket := b } = true := hn
      rw [if_pos hc, List.find?_cons_of_neg hn', List.find?_cons_of_neg hn]
    · rw [if_neg hc]
      by_cases hc' : sameIdent cid c = true
      · rw [List.find?_cons_of_pos hc', List.find?_cons_of_pos hc']
      · rw [List.find?_cons_of_neg hc', List.find?_cons_of_neg hc', ih]

theorem find_erase_other (h : cid' ≠ cid) (l : List ClientState) :
    (l.eraseP (sameIdent cid')).find? (sameIdent cid) = l.find? (sameIdent cid) := by
  induction l with
  | nil => rfl
  | cons c l ih =>
    by_cases hc : sameIdent cid' c = true
    · rw [List.eraseP_cons_of_pos hc, List.find?_cons_of_neg (not_same_ident h hc)]
    · rw [List.eraseP_cons_of_neg hc]
      by_cases hc' : sameIdent cid c = true
      · rw [List.find?_cons_of_pos hc', List.find?_cons_of_pos hc']
      · rw [List.find?_cons_of_neg hc', List.find?_cons_of_neg hc', ih]

theorem get_register_other (h : req.lrForward ≠ cid) :
    clientStateGet (registerClient s req) cid = clientStateGet s cid := by
  have hn : ¬ sameIdent cid { csStart := req.prStart, csIdent := req.lrForward } = true :=
    not_same_ident h (same_ident_iff.mpr rfl)
  simp [clientStateGet, registerClient, List.find?_append, hn]

/-- A registered client has no bucket yet. -/
theorem register_idle (hnew : clientStateGet s req.lrForward = none) :
    Idle (registerClient s req) req.lrForward := by
  refine ⟨{ csStart := req.prStart, csIdent := req.lrForward }, ?_, rfl⟩
  have hnone : s.rePeers.find? (sameIdent req.lrForward) = none := hnew
  simp [clientStateGet, registerClient, List.find?_append, hnone, sameIdent]

theorem assign_holds (hi : Idle s cid) (p : Nat) : Holds (assignBucket s cid p) cid p := by
  obtain ⟨cs, hg, _⟩ := hi
  refine ⟨{ cs with csBucket := some p }, ?_, rfl⟩
  exact (find_set_self cid (some p) s.rePeers).trans (congrArg (Option.map _) hg)

theorem acknowledge_idle (hh : Holds s cid p) : Idle (acknowledgeBucket s cid p) cid := by
  obtain ⟨cs, hg, _⟩ := hh
  refine ⟨{ cs with csBucket := none }, ?_, rfl⟩
  exact (find_set_self cid none s.rePeers).trans (congrArg (Option.map _) hg)

/-! ## Its replies -/

theorem replies_to_append (cid : ConnId) (a b : List Event) :
    repliesTo cid (a ++ b) = repliesTo cid a ++ repliesTo cid b := by
  rw [repliesTo, messages_append, List.filterMap_append]
  rfl

theorem replies_to_congr (h : messages a = messages b) (cid : ConnId) :
    repliesTo cid a = repliesTo cid b :=
  congrArg (List.filterMap _) h

/-- An event that is no message. -/
theorem replies_to_silent (h : messageOf e = none) (cid : ConnId) (tr : List Event) :
    repliesTo cid (tr ++ [e]) = repliesTo cid tr := by
  have hm : messages (tr ++ [e]) = messages tr := by
    rw [messages_append, messages, messages, List.filterMap_cons_none h, List.filterMap_nil,
      List.append_nil]
  exact replies_to_congr hm cid

theorem replies_to_sent (h : dst ≠ cid) (tr : List Event) (bkt : Option Nat)
    (msg : Reply) (rc : Int) :
    repliesTo cid (tr ++ [.sent dst bkt msg rc]) = repliesTo cid tr := by
  have hnone : repliesTo cid [.sent dst bkt msg rc] = [] := by
    by_cases hrc : rc = 0 <;> simp [repliesTo, messages, messageOf, hrc, h]
  rw [replies_to_append, hnone, List.append_nil]

/-- A message to the client either goes out or fails with a negative code. -/
theorem replies_to_send (cid : ConnId) (tr : List Event) (bkt : Option Nat) (msg : Reply)
    (out : Option Errno) :
    (sendRc out = 0 ∧ repliesTo cid (tr ++ [.sent cid bkt msg (sendRc out)]) =
      repliesTo cid tr ++ [msg]) ∨
    (sendRc out < 0 ∧ repliesTo cid (tr ++ [.sent cid bkt msg (sendRc out)]) =
      repliesTo cid tr) := by
  rw [replies_to_append]
  cases out with
  | none => exact .inl ⟨rfl, by simp [repliesTo, messages, messageOf, sendRc]⟩
  | some e =>
    have hneg : sendRc (some e) < 0 := by simpa [sendRc] using e.property
    refine .inr ⟨hneg, ?_⟩
    simp [repliesTo, messages, messageOf, Int.ne_of_lt hneg]

/-! ## What the client does not notice -/

/-- The client's entry and the messages to it are the same in both states. -/
structure Unseen (cid : ConnId) (s t : ReaderEnv) : Prop where
  seat : clientStateGet t cid = clientStateGet s cid
  replies : repliesTo cid t.trace = repliesTo cid s.trace

theorem Unseen.refl (cid : ConnId) (s : ReaderEnv) : Unseen cid s s := ⟨rfl, rfl⟩

theorem Unseen.trans (h : Unseen cid s t) (h' : Unseen cid t u) : Unseen cid s u :=
  ⟨h'.seat.trans h.seat, h'.replies.trans h.replies⟩

theorem Unseen.fetch (hf : Fetch s io t b) (cid : ConnId) : Unseen cid s t := by
  obtain ⟨_, _, hp, _, ht, _⟩ := fetch_frame hf
  exact ⟨by simp only [clientStateGet, hp], by rw [ht]⟩

theorem Unseen.openBucket (cid : ConnId) (s : ReaderEnv) (b : Nat) :
    Unseen cid s (openBucket s b) :=
  ⟨rfl, replies_to_silent rfl cid s.trace⟩

theorem Unseen.sealOpen (cid : ConnId) (s : ReaderEnv) (p : Nat) (io : RpcIo) :
    Unseen cid s (sealOpen s p io) :=
  seal_open_preserve (P := Unseen cid s) (fun hs => hs.trans (.openBucket cid s _)) (.refl cid s) p

theorem Unseen.logClear (cid : ConnId) (s : ReaderEnv) (endrec rc : Int) :
    Unseen cid s (logClear s endrec rc) :=
  ⟨rfl, replies_to_silent rfl cid s.trace⟩

theorem Unseen.destroy (cid : ConnId) (s : ReaderEnv) (p : Nat) :
    Unseen cid s (recBucketDestroy s p) :=
  ⟨rfl, replies_to_silent rfl cid s.trace⟩

theorem Unseen.insert (cid : ConnId) (s : ReaderEnv) (p : Nat) (r : ChangelogRec) :
    Unseen cid s (recCounted (recInsert s p r) r) :=
  ⟨rfl, replies_to_silent rfl cid s.trace⟩

theorem Unseen.stored (hs : Stored s r block t) (cid : ConnId) : Unseen cid s (recCounted t r) := by
  cases hs with
  | insert _ _ => exact .insert cid s _ r
  | spill _ _ => exact (Unseen.openBucket cid s _).trans (.insert cid _ _ r)

section Others

variable {cid cid' : ConnId} (h : cid' ≠ cid)
include h

theorem Unseen.logAck (s : ReaderEnv) (rc : Int) (out : Option Errno) :
    Unseen cid s (logAck s cid' rc out) :=
  ⟨rfl, replies_to_sent h _ _ _ _⟩

theorem Unseen.send (s : ReaderEnv) (p : Nat) (io : RpcIo) :
    Unseen cid s (sendBucket s cid' p io) :=
  ⟨rfl, replies_to_sent h _ _ _ _⟩

theorem Unseen.assign (s : ReaderEnv) (p : Nat) : Unseen cid s (assignBucket s cid' p) :=
  ⟨find_set_other h (some p) s.rePeers, replies_to_silent rfl cid s.trace⟩

theorem Unseen.acknowledge (s : ReaderEnv) (p : Nat) : Unseen cid s (acknowledgeBucket s cid' p) :=
  ⟨find_set_other h none s.rePeers, replies_to_silent rfl cid s.trace⟩

theorem Unseen.deregister (s : ReaderEnv) : Unseen cid s (deregisterClient s cid') :=
  ⟨find_erase_other h s.rePeers, rfl⟩

end Others

/-- Serving another client's request. -/
theorem Unseen.served (h : req.lrForward ≠ cid) (hs : Served s req io t rc) : Unseen cid s t := by
  have hgive : ∀ {u p}, Fetch s io u (some p) →
      Unseen cid s (assignBucket (Proofs.sealOpen u p io) req.lrForward p) := fun hf =>
    ((Unseen.fetch hf cid).trans (.sealOpen cid _ _ io)).trans (.assign h _ _)
  cases hs with
  | refused _ _ | eof _ _ _ | vacuous _ _ => exact .refl cid s
  | registered _ _ => exact Unseen.trans ⟨get_register_other h, rfl⟩ (.logAck h _ _ _)
  | deregistered _ _ => exact (Unseen.deregister h s).trans (.logAck h _ _ _)
  | unopened _ _ hf _ _ => exact .fetch hf cid
  | unpacked _ _ hf _ _ => exact hgive hf
  | delivered _ _ hf _ _ _ => exact (hgive hf).trans (.send h _ _ io)
  | pending _ _ _ _ => exact (Unseen.acknowledge h s _).trans (.logAck h _ _ _)
  | failed _ _ _ _ _ _ => exact (Unseen.acknowledge h s _).trans (.logClear cid _ _ _)
  | purged _ _ _ _ _ _ _ =>
    exact (((Unseen.acknowledge h s _).trans (.logClear cid _ _ _)).trans (.destroy cid _ _)).trans
      (.logAck h _ _ _)

/-- Steps that other parties cause leave a client where it stands. -/
theorem Unseen.step (hshape : Shape s) (ho : IsOther cid l) (h : readerStep s l = some t) :
    Unseen cid s t := by
  apply step_preserve (P := Unseen cid s) _ _ _ h (.refl cid s)
  · exact fun t b c d ht => ht.trans ⟨rfl, rfl⟩
  · exact fun t r block u ht _ _ _ _ hst => ht.trans (.stored hst cid)
  · intro req io u rc hl hr
    subst hl
    obtain ⟨v, r, hserved, rfl⟩ := request_served hshape.nodup hr
    exact answered_preserve (P := Unseen cid s)
      (fun w ret out hw => hw.trans (.logAck ho w ret out)) (.served ho hserved) r

end Lcap.Proofs
