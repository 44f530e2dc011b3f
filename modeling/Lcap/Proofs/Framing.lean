import Lcap.Net.Peer

namespace Lcap.Proofs
open Net Systems

/-- The roles of the frames of a message: empty ones have none. -/
def recompose (noEnvelope : Bool) (parts : Parts UInt8) : NetRequest :=
  match parts.filter (· ≠ []) with
  | [] => { lrNoEnvelope := noEnvelope }
  | first :: rest =>
    if noEnvelope then { lrNoEnvelope := true, lrForward := some first, lrBody := rest.flatten }
    else match rest with
      | [] => { lrRemote := some first }
      | second :: rest =>
        { lrRemote := some first, lrForward := some second, lrBody := rest.flatten }

theorem update_no_error (req : NetRequest) (frame : List UInt8) :
    (lcapnetReqUpdate req frame true).2 = 0 := by
  unfold lcapnetReqUpdate
  split
  · rfl
  split
  · rfl
  split <;> rfl

def absorb (req : NetRequest) (frame : List UInt8) : NetRequest :=
  (lcapnetReqUpdate req frame true).1

theorem recv_frames_calm {io : Nat → FrameIo} (hio : ∀ k, io k = {}) (k : Nat) (req : NetRequest)
    (parts : Parts UInt8) : recvFrames io k req parts = (parts.foldl absorb req, 0, []) := by
  induction parts generalizing k req with
  | nil => rfl
  | cons frame rest ih =>
    have hrc := update_no_error req frame
    simp only [recvFrames, hio k]
    rw [if_neg (by rw [hrc]; decide), ih (k + 1)]
    rfl

theorem absorb_nil (req : NetRequest) : absorb req [] = req := rfl

theorem fold_absorb_filter (req : NetRequest) (parts : Parts UInt8) :
    parts.foldl absorb req = (parts.filter (· ≠ [])).foldl absorb req := by
  induction parts generalizing req with
  | nil => rfl
  | cons frame rest ih =>
    by_cases hf : frame = []
    · subst hf
      rw [List.foldl_cons, absorb_nil, List.filter_cons_of_neg (by simp)]
      exact ih req
    · rw [List.filter_cons_of_pos (by simpa using hf), List.foldl_cons, List.foldl_cons]
      exact ih _

/-- Behind the identities every frame belongs to the body. -/
theorem fold_absorb_body (req : NetRequest) {forward : ConnId} {parts : Parts UInt8}
    (hr : req.lrNoEnvelope = true ∨ req.lrRemote ≠ none) (hf : req.lrForward = some forward)
    (hne : ∀ frame ∈ parts, frame ≠ []) :
    parts.foldl absorb req = { req with lrBody := req.lrBody ++ parts.flatten } := by
  induction parts generalizing req with
  | nil => simp
  | cons frame rest ih =>
    have hstep : absorb req frame = { req with lrBody := req.lrBody ++ frame } := by
      have hframe := hne frame List.mem_cons_self
      have hno : ¬ (req.lrRemote = none ∧ !req.lrNoEnvelope) := by
        rintro ⟨hn, he⟩
        rcases hr with hr | hr
        · simp [hr] at he
        · exact hr hn
      rw [absorb, lcapnetReqUpdate, if_neg hframe, if_neg hno, if_neg (by simp [hf])]
      rfl
    rw [List.foldl_cons, hstep, ih { req with lrBody := req.lrBody ++ frame } hr hf
      (fun f h => hne f (List.mem_cons_of_mem frame h))]
    simp [List.append_assoc]

theorem fold_absorb (noEnvelope : Bool) (parts : Parts UInt8) :
    parts.foldl absorb { lrNoEnvelope := noEnvelope } = recompose noEnvelope parts := by
  rw [fold_absorb_filter]
  have hne : ∀ frame ∈ parts.filter (· ≠ []), frame ≠ [] := by
    intro frame h
    simpa using (List.mem_filter.mp h).2
  unfold recompose
  generalize parts.filter (· ≠ []) = l at hne
  cases l with
  | nil => simp
  | cons first rest =>
    have hfirst := hne first List.mem_cons_self
    have hrest := fun f h => hne f (List.mem_cons_of_mem first h)
    cases noEnvelope with
    | true =>
      have hstep : absorb { lrNoEnvelope := true } first =
          { lrNoEnvelope := true, lrForward := some first } := by
        simp [absorb, lcapnetReqUpdate, hfirst]
      rw [List.foldl_cons, hstep, fold_absorb_body _ (.inl rfl) rfl hrest]
      rfl
    | false =>
      have hstep : absorb {} first = { lrRemote := some first } := by
        simp [absorb, lcapnetReqUpdate, hfirst]
      rw [List.foldl_cons, hstep]
      cases rest with
      | nil => rfl
      | cons second rest =>
        have hsecond := hrest second List.mem_cons_self
        have hstep : absorb { lrRemote := some first } second =
            { lrRemote := some first, lrForward := some second } := by
          simp [absorb, lcapnetReqUpdate, hsecond]
        rw [List.foldl_cons, hstep,
          fold_absorb_body _ (.inr (by simp)) rfl
            (fun f h => hrest f (List.mem_cons_of_mem second h))]
        rfl

/-- Without failures a message is consumed as a whole, and the handler is called for
the request recomposed from it when that has a body. -/
theorem recv_once_calm {σ : Type} {io : Nat → FrameIo} (hio : ∀ k, io k = {}) (flags : Nat)
    (cb : σ → NetRequest → σ × Int) (st : σ) (message : Parts UInt8) (inbox : List (Parts UInt8)) :
    lcapRpcRecvOnce flags true io cb st (message :: inbox) =
      let req := recompose (hasFlag flags lcapRecvNoEnvelope) message
      if req.lrBody = [] then some (st, 0, inbox)
      else some ((cb st req).1, (cb st req).2, inbox) := by
  simp only [lcapRpcRecvOnce, recv_frames_calm hio, fold_absorb]
  by_cases hb : (recompose (hasFlag flags lcapRecvNoEnvelope) message).lrBody = []
  · simp [hb, requeue]
  · simp [hb, requeue, List.length_pos_iff]

end Lcap.Proofs
