import Lcap.Net.Network
import Lcap.Proofs.Rendering

namespace Lcap.Proofs
open Reader
open Wire Network Systems

/-- The numbers that an `int` can hold. -/
def FitsInt (rc : Int) : Prop := -(2 ^ 31) ≤ rc ∧ rc < 2 ^ 31

instance (rc : Int) : Decidable (FitsInt rc) := inferInstanceAs (Decidable (_ ∧ _))

instance (L : RecLayout) (raw : List UInt8) (rec : ChangelogRec) :
    Decidable (L.Describes raw rec) :=
  decidable_of_iff (L.crIndex (raw.take L.sizeofRec) = rec.crIndex ∧
    L.crNamelen (raw.take L.sizeofRec) = rec.crNamelen ∧
      L.changelogRecSize (raw.take L.sizeofRec) = rec.changelogRecSize ∧
      raw.length = rec.changelogRecSize + rec.crNamelen)
    ⟨fun h => ⟨h.1, h.2.1, h.2.2.1, h.2.2.2⟩, fun h => ⟨h.index, h.namelen, h.size, h.length⟩⟩

/-- A record that `llapi_changelog_recv` gives is in memory. -/
def Described (N : Site) (i : Nat) : RecvEvent → Prop
  | .recv rec _ _ => N.layout.Describes (N.raw i rec) rec
  | .fail _ | .sigterm => True

/-- The records that a reader is given are in its memory, and the codes that it is given
are those of C functions. -/
def Lawful (N : Site) (i : Nat) : ReaderEnv → Label → Prop
  | _, .enqueue _ script => ∀ e ∈ script, Described N i e
  | _, .request _ io => FitsInt (sendRc io.send) ∧ FitsInt (io.clearRc 0)
  | _, .sigterm => True

instance (N : Site) (i : Nat) : (e : RecvEvent) → Decidable (Described N i e)
  | .recv rec _ _ => inferInstanceAs (Decidable (N.layout.Describes (N.raw i rec) rec))
  | .fail _ | .sigterm => .isTrue trivial

/-- What an event of the reader says about bytes: a stored record is in memory, and a
message of its own making is an ACK with the code of a C function. -/
def Tangible (N : Site) (i : Nat) : Event → Prop
  | .stored _ r => N.layout.Describes (N.raw i r) r
  | .sent _ none msg _ => ∃ ret, msg = .ack ret ∧ FitsInt ret
  | _ => True

theorem FitsInt.kept (h : FitsInt rc) : Int.bmod rc (2 ^ 32) = rc := by
  obtain ⟨hlo, hhi⟩ := h
  refine Int.bmod_eq_of_le ?_ ?_ <;> simp only [Nat.reducePow, Nat.cast_ofNat] <;> omega

section
variable {N : Site} {i : Nat} {s t : ReaderEnv}

def AllTangible (N : Site) (i : Nat) (s : ReaderEnv) : Prop := ∀ e ∈ s.trace, Tangible N i e

theorem AllTangible.append (h : AllTangible N i s) (post : List Reader.Event)
    (ht : t.trace = s.trace ++ post) (hpost : ∀ e ∈ post, Tangible N i e) : AllTangible N i t := by
  intro e he
  rw [ht] at he
  exact (List.mem_append.mp he).elim (h e) (hpost e)

theorem AllTangible.log (h : AllTangible N i s) (he : Tangible N i e) : AllTangible N i (s.log e) :=
  h.append [e] rfl fun e' he' => by rwa [List.mem_singleton.mp he']

theorem AllTangible.congr (h : AllTangible N i s) (ht : t.trace = s.trace) : AllTangible N i t := by
  rw [AllTangible, ht]
  exact h

theorem AllTangible.openBucket (h : AllTangible N i s) (b : Nat) :
    AllTangible N i (openBucket s b) :=
  h.append ([.opened s.reBktIdx]) rfl (by simp [Tangible])

theorem AllTangible.logAck (h : AllTangible N i s) (hret : FitsInt ret) (cid : ConnId)
    (out : Option Errno) :
    AllTangible N i (logAck s cid ret out) :=
  AllTangible.log h ⟨ret, rfl, hret⟩

theorem AllTangible.acknowledge (h : AllTangible N i s) (cid : ConnId) (p : Nat) :
    AllTangible N i (acknowledgeBucket s cid p) :=
  h.append ([.acknowledged cid (s.mem p).lrbIndex]) rfl (by simp [Tangible])

theorem AllTangible.logClear (h : AllTangible N i s) (endrec rc : Int) :
    AllTangible N i (logClear s endrec rc) :=
  AllTangible.log h trivial

theorem AllTangible.destroy (h : AllTangible N i s) (p : Nat) :
    AllTangible N i (recBucketDestroy s p) :=
  h.append ([.destroyed (s.mem p).lrbIndex]) rfl (by simp [Tangible])

theorem AllTangible.stored (h : AllTangible N i s) (hst : Stored s rec block t)
    (hrec : N.layout.Describes (N.raw i rec) rec) : AllTangible N i (recCounted t rec) := by
  cases hst with
  | insert _ _ => exact h.append [_] rfl (by simpa [Tangible] using hrec)
  | spill _ _ =>
    exact (h.openBucket (callocBlock s block)).append [_] rfl (by simpa [Tangible] using hrec)

/-- The loop stores nothing but what it has received. -/
theorem AllTangible.loop (h : AllTangible N i s) (hr : recvLoop s n script = .ok (t, rc, rest))
    (hrecs : ∀ e ∈ script, Described N i e) :
    AllTangible N i t := by
  induction script generalizing s n with
  | nil => simp [recvLoop] at hr
  | cons e script ih =>
    have htail : ∀ e' ∈ script, Described N i e' :=
      fun e' hm => hrecs e' (List.mem_cons_of_mem e hm)
    cases e with
    | sigterm => exact ih (s := { s with terminateSig := true }) (h.congr rfl) hr htail
    | fail r =>
      cases hr
      exact h
    | recv rec alloc block =>
      simp only [recvLoop, pure, Except.pure] at hr
      split at hr
      · cases hr
        exact h
      split at hr
      · exact ih h hr htail
      obtain ⟨⟨u, r⟩, hst, hk⟩ := bind_ok hr
      rcases store_cases hst with ⟨rfl, rfl, _⟩ | ⟨rfl, hstored⟩
      · simp only [ENOMEM] at hk
        cases hk
        exact h
      have hu := h.stored hstored (hrecs _ List.mem_cons_self)
      simp only [ne_eq, not_true_eq_false, ↓reduceIte] at hk
      split at hk
      · cases hk
        exact hu
      · exact ih hu hk htail

theorem AllTangible.enqueued (h : AllTangible N i s)
    (hr : readerStep s (.enqueue startRc script) = some t) (hrecs : ∀ e ∈ script, Described N i e) :
    AllTangible N i t := by
  obtain ⟨_, _, u, rc, he, rfl⟩ := enqueue_step hr
  refine AllTangible.congr (s := u) ?_ rfl
  unfold changelogReaderEnqueue at he
  simp only [pure, Except.pure] at he
  split at he
  · cases he
    exact h
  split at he
  · cases he
    exact h
  obtain ⟨⟨v, r, rest⟩, hl, he⟩ := bind_ok he
  cases he
  have hv : AllTangible N i v := AllTangible.loop (s := { s with reClpriv := true })
    (h.congr rfl) hl hrecs
  exact hv.congr rfl

/-- What refuses a request has a code of its own. -/
theorem refused_code (h : rpcDispatch s req io = .ok (t, rc)) (hno : ¬ Entitled s req)
    (hsend : FitsInt (sendRc io.send)) : FitsInt rc := by
  have hproto : FitsInt (-EPROTO) := by decide
  have hinval : FitsInt (-EINVAL) := by decide
  unfold rpcDispatch at h
  split at h
  · cases h
    exact hproto
  rename_i hlen
  split at h
  · cases h
    exact hinval
  rename_i op hop
  have hwf : ∀ {op}, rpcOpType req.opType = some op → ¬ req.lrBody.length < rpcExpectedLength op →
      req.WellFormed op := fun hop hshort => ⟨Nat.le_of_not_lt hlen, hop, Nat.le_of_not_lt hshort⟩
  cases op with
  | start =>
    have h := Except.ok.inj h
    unfold readerHandleStart at h
    split at h
    · cases h
      exact hinval
    split at h
    · cases h
      exact (by decide : FitsInt (-EALREADY))
    split at h
    · cases h
      exact (by decide : FitsInt (-ENOMEM))
    split at h
    · cases h
      exact (by decide : FitsInt (-ENOMEM))
    · cases h
      exact hsend
  | fini =>
    have h := Except.ok.inj h
    unfold readerHandleFini at h
    split at h
    · cases h
      exact hproto
    split at h
    · cases h
      exact hproto
    · cases h
      exact hsend
  | dequeue =>
    simp only [rpcHandleOne] at h
    unfold readerHandleDequeue at h
    simp only [pure, Except.pure] at h
    split at h
    · cases h
      exact hproto
    rename_i hshort
    split at h
    case h_2 =>
      cases h
      exact hproto
    rename_i cs hcs
    split at h
    · cases h
      exact hproto
    · rename_i hb
      exact absurd (.inl ⟨hwf hop hshort, cs, hcs, by simpa using hb⟩) hno
  | clear =>
    simp only [rpcHandleOne] at h
    unfold readerHandleClear at h
    simp only [pure, Except.pure] at h
    split at h
    · cases h
      exact hproto
    rename_i hshort
    split at h
    case h_2 =>
      cases h
      exact hproto
    rename_i cs hcs
    exact absurd (.inr ⟨hwf hop hshort, by simp [hcs]⟩) hno
  | enqueue | ack | signal =>
    cases h
    exact hproto

/-- A handler returns the code of a C function, and puts one into each ACK. -/
theorem AllTangible.served (h : AllTangible N i s) (hs : Served s req io t rc)
    (hsend : FitsInt (sendRc io.send)) (hclear : FitsInt (io.clearRc 0))
    (hrefused : ¬ Entitled s req → FitsInt rc) : AllTangible N i t ∧ FitsInt rc := by
  have hzero : FitsInt 0 := by decide
  have hmem : FitsInt (-ENOMEM) := by decide
  have hgive : ∀ {u p}, Fetch s io u (some p) →
      AllTangible N i (assignBucket (sealOpen u p io) req.lrForward p) := by
    intro u p hf
    have hu : AllTangible N i u := h.congr (fetch_frame hf).2.2.2.2.1
    have hopen : AllTangible N i (sealOpen u p io) :=
      seal_open_preserve (fun hs => hs.openBucket _) hu p
    exact hopen.append [_] rfl (by simp [Tangible])
  cases hs with
  | refused _ hno => exact ⟨h, hrefused hno⟩
  | registered _ _ =>
    exact ⟨AllTangible.logAck (s := registerClient s req) (h.congr rfl) hzero _ _, hsend⟩
  | deregistered _ _ =>
    exact ⟨AllTangible.logAck (s := deregisterClient s req.lrForward) (h.congr rfl)
      hzero _ _, hsend⟩
  | eof _ _ _ => exact ⟨h, by decide⟩
  | vacuous _ _ => exact ⟨h, hzero⟩
  | unopened _ _ hf _ _ => exact ⟨h.congr (fetch_frame hf).2.2.2.2.1, hmem⟩
  | unpacked _ _ hf _ _ => exact ⟨hgive hf, hmem⟩
  | delivered _ _ hf _ _ _ =>
    exact ⟨AllTangible.log (AllTangible.congr (hgive hf) rfl) trivial, hsend⟩
  | pending _ _ _ _ => exact ⟨(h.acknowledge _ _).logAck hzero _ _, hsend⟩
  | failed _ _ _ _ _ _ => exact ⟨(h.acknowledge _ _).logClear _ _, hclear⟩
  | purged _ _ _ _ _ _ _ =>
    exact ⟨(((h.acknowledge _ _).logClear _ _).destroy _).logAck hzero _ _, hsend⟩

theorem AllTangible.requested (hshape : Shape s) (h : AllTangible N i s)
    (hr : readerStep s (.request req io) = some t) (hl : Lawful N i s (.request req io)) :
    AllTangible N i t := by
  obtain ⟨_, hhdl⟩ := request_step hr
  obtain ⟨u, rc, hd, rfl⟩ := dispatch_of_hdl hhdl
  obtain ⟨hu, hrc⟩ := h.served (dispatch_served hshape.nodup hd) hl.1 hl.2 fun hno =>
    refused_code hd hno hl.1
  unfold answered
  split
  · exact hu.logAck hrc _ _
  · exact hu

theorem reach_tangible (h : Reach (reader cfg idx) (Lawful N i) s) : AllTangible N i s := by
  refine h.induct (Q := Shape) (fun _ hr => reach_shape hr) ?_ fun s l t hshape hs hl hstep => ?_
  · intro e he
    cases List.mem_singleton.mp he
    trivial
  · cases l with
    | enqueue startRc script => exact hs.enqueued hstep hl
    | request req io => exact hs.requested hshape hstep hl
    | sigterm =>
      cases hstep
      exact hs.congr rfl

/-- Every message that the reader has sent fills the buffer that is allocated for it. -/
theorem message_renders (h : Reach (reader cfg idx) (Lawful N i) s)
    (hm : .sent dst bkt msg rc ∈ s.trace) :
    ∃ bytes, N.packReply i msg = some bytes ∧ Renders N.layout msg bytes := by
  cases bkt with
  | none =>
    obtain ⟨ret, rfl, hret⟩ := reach_tangible h _ hm
    exact ⟨_, rfl, .ack hret.kept⟩
  | some p =>
    obtain ⟨recs, rfl, _, hstored⟩ := message_packed h hm
    have hrecs : List.Forall₂ N.layout.Describes (recs.map (N.raw i)) recs := by
      rw [List.forall₂_map_left_iff, List.forall₂_same]
      exact fun r hr => reach_tangible h _ (hstored r hr)
    obtain ⟨bytes, hbytes, hrender⟩ :=
      bucket_renders (b := { lrbIndex := 0, lrbSize := recordsSize recs, lrbRecords := recs }) hrecs
        rfl
    refine ⟨bytes, ?_, hrender⟩
    simp only [Site.packReply, Nat.add_sub_cancel_left, hbytes, Option.map_some]

end

end Lcap.Proofs
