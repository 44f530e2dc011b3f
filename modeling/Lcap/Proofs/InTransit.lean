import Lcap.Proofs.Relayed

namespace Lcap.Proofs
open Reader Net Wire Network Systems
open Client (WireRequest Fleet fleet)

/-! ## The frames that are for a client, or from it -/

/-- The client for which the reader gets a message: behind the delimiter, before another one. -/
def forwardedFor (cid : ConnId) : Parts UInt8 → Bool
  | [_, c, _, _] => c = cid
  | _ => false

/-- The client to which a reader sends a message. -/
def sentTo (cid : ConnId) : Parts UInt8 → Bool
  | c :: _ => c = cid
  | [] => false

/-- All messages that a client has on its way, to its reader and back. -/
def inTransit (N : Site) (x : NetState) (i : Nat) (cid : ConnId) : List (Parts UInt8) :=
  x.up cid ++ (x.down (N.device i)).filter (forwardedFor cid) ++
    (x.up (N.device i)).filter (sentTo cid) ++
    x.down cid

section
variable {N : Site} {x : NetState} {m : Mail} {f : Fleet} {i : Nat} {cid who : ConnId}

/-- What is counted in frames is counted in messages of the protocol. -/
theorem counted_frames {R : Letter → Parts UInt8 → Prop} {g : Letter → Option α}
    {p : Parts UInt8 → Bool}
    (h : List.Forall₂ R letters frames) (hp : ∀ l fr, R l fr → p fr = (g l).isSome) :
    (frames.filter p).length = (letters.filterMap g).length := by
  induction h with
  | nil => rfl
  | @cons l fr _ _ hl _ ih =>
    have hl := hp l fr hl
    cases hg : g l with
    | none =>
      rw [hg] at hl
      rw [List.filter_cons_of_neg (by simp [hl]), List.filterMap_cons_none hg]
      exact ih
    | some a =>
      rw [hg] at hl
      rw [List.filter_cons_of_pos (by simp [hl]), List.filterMap_cons_some hg, List.length_cons,
        List.length_cons, ih]

theorem all_frames {R : Letter → Parts UInt8 → Prop} {g : Letter → Option α}
    (h : List.Forall₂ R letters frames) (hp : ∀ l fr, R l fr → (g l).isSome = true) :
    frames.length = (letters.filterMap g).length := by
  have hc := counted_frames (p := fun _ => true) h fun l fr hl => (hp l fr hl).symm
  rwa [List.filter_eq_self.mpr (fun _ _ => rfl)] at hc

theorem upward_client (hg : generated cid = true) (h : Upward N cid l fr) :
    (l.requestOf cid).isSome = true := by
  cases h with
  | request _ => simp [Letter.requestOf]
  | reply hi _ _ => exact absurd rfl (generated_ne_device hg hi)
  | signal hi => exact absurd rfl (generated_ne_device hg hi)

theorem downward_client (hg : generated cid = true) (h : Downward N cid l fr) :
    (l.replyOf cid).isSome = true := by
  cases h with
  | reply _ _ => simp [Letter.replyOf]
  | request hi _ => exact absurd rfl (generated_ne_device hg hi)
  | refusal hi => exact absurd rfl (generated_ne_device hg hi)

theorem upward_reader (hg : generated cid = true) (hi : i < N.config.ccfMdt.length)
    (h : Upward N (N.device i) l fr) : sentTo cid fr = (l.replyOf cid).isSome := by
  generalize hd : N.device i = who at h
  cases h with
  | request hc => exact absurd hd.symm (generated_ne_device hc hi)
  | @reply _ c rep bytes _ _ _ =>
    by_cases he : c = cid <;> simp [sentTo, Letter.replyOf, he]
  | signal _ =>
    have hne := generated_ne_nil hg
    simp [sentTo, signalFrames, Letter.replyOf, hne.symm]

theorem downward_reader (cid : ConnId) (hi : i < N.config.ccfMdt.length)
    (h : Downward N (N.device i) l fr) :
    forwardedFor cid fr = (l.requestOf cid).isSome := by
  generalize hd : N.device i = who at h
  cases h with
  | reply hc _ => exact absurd hd.symm (generated_ne_device hc hi)
  | @request _ c req _ _ =>
    by_cases he : c = cid <;> simp [forwardedFor, Letter.requestOf, he]
  | refusal _ => rfl

theorem in_transit_length (h : Mailed N x m) (hi : i < N.config.ccfMdt.length)
    (hg : generated cid = true) :
    (inTransit N x i cid).length =
      (found (Letter.requestOf cid) m cid (N.device i)).length +
        (found (Letter.replyOf cid) m (N.device i) cid).length := by
  have hup := all_frames (h.up cid) fun _ _ => upward_client hg
  have hdown := all_frames (h.down cid) fun _ _ => downward_client hg
  have hsent := counted_frames (h.up (N.device i)) fun _ _ => upward_reader hg hi
  have hfwd := counted_frames (h.down (N.device i)) fun _ _ => downward_reader cid hi
  simp only [inTransit, found, List.length_append, hup, hdown, hsent, hfwd]
  omega

end

/-- Whatever the interleaving, a client has at most one message on its way, over all
connections, and none when its socket is not owed a reply. -/
theorem one_message_per_client {N : Site} {x : NetState} (h : Reach (network N) (LawfulMove N) x)
    (hi : i < N.config.ccfMdt.length) (hc : OfReader N i cid) :
    (inTransit N x i cid).length ≤ 1 ∧
      ((x.clients cid).owed = false → inTransit N x i cid = []) := by
  obtain ⟨f, hf, m, hm, hb⟩ := reach_beside (D := Always) h hi (fun _ _ hl => hl)
    fun _ _ _ _ _ _ _ => trivial
  have htok := (reach_tokened hf cid).token
  have hasked := (hb.asked cid hc).length_le
  have hanswered := (hb.answered cid hc).length_eq
  have hlen := in_transit_length hm hi hc.1
  refine ⟨?_, fun ho => ?_⟩
  · have := htok.one
    omega
  · rw [(hb.peer cid hc).owed] at ho
    obtain ⟨hwire, hunread⟩ := htok.ready ho
    rw [hwire] at hasked
    rw [hunread] at hanswered
    refine List.eq_nil_of_length_eq_zero ?_
    simp only [Option.toList_none, List.length_nil] at hasked hanswered
    omega

set_option maxRecDepth 4000 in
/-- The broker has the answer to a DEQUEUE before it. -/
theorem one_message_per_client_record :
    (inTransit Sample.site (Sample.netAfter (Sample.relayedRecord.take 11)) 0
      [0, 0]).length ≤ 1 := by
  have hr : Reach (network Sample.site) (LawfulMove Sample.site)
      (Sample.netAfter (Sample.relayedRecord.take 11)) :=
    steps_of_obeys (by decide +kernel)
  exact (one_message_per_client hr (by decide) (by decide)).1

end Lcap.Proofs
