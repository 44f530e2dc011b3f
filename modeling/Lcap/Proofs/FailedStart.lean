import Lcap.Proofs.MdtNames
import Lcap.Proofs.Unspliced

namespace Lcap.Proofs
open Client (clStartPack)
open Net Start Systems

/-- Whatever has been acquired has been released exactly once, and nothing else has. -/
def ReleasedOnce (log : List HandleEvent) : Prop :=
  ∀ h, log.count (.released h) = log.count (.acquired h) ∧ log.count (.acquired h) ≤ 1

/-- The start comes back, and if it fails it leaves a null pointer and nothing that has not
been released. -/
def CleanFailure (res : Except Overrun Started) : Prop :=
  ∃ r, res = .ok r ∧ (r.rc < 0 → r.pctx = .null ∧ ReleasedOnce r.log)

/-- The length of the name, taken as an `int`, fits the field, and the name does not: it has
gone round that type, and `strcpy` writes beyond the structure. -/
structure Overruns (io : StartIo) (mdtname : List UInt8) : Prop where
  ctxAlloc : io.ctxAlloc = true
  pzdAlloc : io.pzdAlloc = true
  zmqCtxNew : io.zmqCtxNew = none
  zmqSocket : io.zmqSocket = none
  short : mdtname.length % 2 ^ 32 ≤ 128
  long : 2 ^ 32 ≤ mdtname.length

/-- Nothing fails up to the reply. -/
structure ReachesReply (io : StartIo) (mdtname : List UInt8) : Prop where
  ctxAlloc : io.ctxAlloc = true
  pzdAlloc : io.pzdAlloc = true
  zmqCtxNew : io.zmqCtxNew = none
  zmqSocket : io.zmqSocket = none
  name : mdtname.length ≤ 128
  grow : io.grow = true
  connect : io.connect = none
  send : ¬ SendFails io.send 0 2
  recv : io.recv = none
  size : sizeofAck ≤ io.reply.length

/-- The server refuses the client. -/
def Refused (io : StartIo) (mdtname : List UInt8) : Prop :=
  ReachesReply io mdtname ∧ Wire.prRetcode io.reply < 0

/-- The caller's pointer is null already where there is no memory for the context, the
server's answer is not negative, and the name stays in the structure. -/
def NoLeak (io : StartIo) (pctx : CtxPtr) (mdtname : List UInt8) : Prop :=
  (io.ctxAlloc = false → pctx = .null) ∧ ¬ Refused io mdtname ∧ ¬ Overruns io mdtname

/-! ## What has been acquired -/

/-- What `pzd_init` may have done when it fails. -/
inductive InitUndone : List HandleEvent → Prop
  | nothing : InitUndone []
  | context : InitUndone [.acquired .zmqCtx, .released .zmqCtx]
  | socket : InitUndone [.acquired .zmqCtx, .acquired .zmqSrv, .released .zmqSrv, .released .zmqCtx]

def ready (mdtname : List UInt8) : PxZmqData where
  zmqCtx := some .zmqCtx
  zmqSrv := some .zmqSrv
  records := some .records
  recMdtLen := recMdtLen mdtname
  recMdt := (recMdtCopy mdtname).field

/-- The name overruns its field, or `pzd_init` fails and undoes what it has done, or it
succeeds. -/
theorem pzd_init_cases (io : StartIo) (mdtname : List UInt8) (log : List HandleEvent) :
    (io.zmqCtxNew = none ∧ io.zmqSocket = none ∧ mdtname.length % 2 ^ 32 ≤ 128 ∧
      2 ^ 32 ≤ mdtname.length ∧ pzdInit io mdtname {} log = .error .recMdt) ∨
    (∃ undone rc, InitUndone undone ∧ rc < 0 ∧
      pzdInit io mdtname {} log = .ok ({}, log ++ undone, rc) ∧
      ¬ ReachesReply io mdtname ∧ ¬ Overruns io mdtname) ∨
    (mdtname.length ≤ 128 ∧ io.zmqCtxNew = none ∧ io.zmqSocket = none ∧ io.grow = true ∧
      pzdInit io mdtname {} log = .ok (ready mdtname,
        log ++ [.acquired .zmqCtx, .acquired .zmqSrv, .acquired .records], 0)) := by
  have hundo : ∀ {rc : Int} (_ : rc < 0) (pzd : PxZmqData) (log' : List HandleEvent),
      errCleanup pzd log' rc = ((pzdDestroy pzd log').1, (pzdDestroy pzd log').2, rc) :=
    fun hrc pzd log' => if_pos (Int.ne_of_lt hrc)
  cases hctx : io.zmqCtxNew with
  | some e =>
    refine .inr (.inl ⟨[], -(e.val : Int), .nothing, errno_neg e, ?_, ?_, ?_⟩)
    · simp only [pzdInit, hctx, hundo (errno_neg e)]
      simp [pzdDestroy, release]
    · intro h
      cases hctx.symm.trans h.zmqCtxNew
    · intro h
      cases hctx.symm.trans h.zmqCtxNew
  | none =>
    cases hsock : io.zmqSocket with
    | some e =>
      refine .inr (.inl ⟨_, -(e.val : Int), .context, errno_neg e, ?_, ?_, ?_⟩)
      · simp only [pzdInit, hctx, hsock, hundo (errno_neg e)]
        simp [pzdDestroy, release]
      · intro h
        cases hsock.symm.trans h.zmqSocket
      · intro h
        cases hsock.symm.trans h.zmqSocket
    | none =>
      have hwritten : (recMdtCopy mdtname).written.length = mdtname.length + 1 := by
        simp [recMdtCopy, copyInto]
      by_cases hlong : mdtnameTooLong mdtname = true
      · have hrefused : ¬ mdtname.length % 2 ^ 32 ≤ 128 := fun hshort =>
          absurd (hlong.symm.trans ((accepted_iff mdtname).mpr hshort)) (by decide)
        refine .inr (.inl ⟨_, -EINVAL, .socket, einval_neg, ?_, ?_, fun h => hrefused h.short⟩)
        · simp only [pzdInit, hctx, hsock, hlong, if_true, hundo einval_neg]
          simp [pzdDestroy, release]
        · intro h
          have hname := h.name
          omega
      have hshort := (accepted_iff mdtname).mp (Bool.eq_false_iff.mpr hlong)
      by_cases hover : (recMdtCopy mdtname).written.length > recMdtRoom
      · have hbig : mdtname.length + 1 > 132 := hwritten ▸ hover
        refine .inl ⟨rfl, rfl, hshort, by omega, ?_⟩
        simp only [pzdInit, hctx, hsock, if_neg hlong, if_pos hover]
      have hfits : mdtname.length ≤ 128 := by
        have hsmall : ¬ mdtname.length + 1 > 132 := hwritten ▸ hover
        omega
      cases hgrow : io.grow with
      | true =>
        refine .inr (.inr ⟨hfits, rfl, rfl, rfl, ?_⟩)
        simp only [pzdInit, hctx, hsock, if_neg hlong, if_neg hover, hgrow, pzdCacheGrow, if_true]
        simp [errCleanup, release, ready]
      | false =>
        refine .inr (.inl ⟨_, -ENOMEM, .socket, enomem_neg, ?_, ?_, ?_⟩)
        · simp only [pzdInit, hctx, hsock, if_neg hlong, if_neg hover, hgrow, pzdCacheGrow,
            Bool.false_eq_true, if_false, hundo enomem_neg]
          simp [pzdDestroy, release]
        · intro h
          cases hgrow.symm.trans h.grow
        · intro h
          have hlong := h.long
          omega

theorem rpc_send_rc (recMdt rpc : List UInt8) (out : Nat → Option Errno) :
    (SendFails out 0 2 ∧ (pxRpcSend {} recMdt rpc out).2 < 0) ∨
      (¬ SendFails out 0 2 ∧ (pxRpcSend {} recMdt rpc out).2 = 0) := by
  by_cases hf : SendFails out 0 2
  · obtain ⟨j, rc, hneg, hrun⟩ := @run_fails out {} (.pxRpcSend recMdt rpc) hf
    exact .inl ⟨hf, (congrArg Prod.snd hrun).trans_lt hneg⟩
  · have hrun := @run_works out {} (.pxRpcSend recMdt rpc) hf
    exact .inr ⟨hf, congrArg Prod.snd hrun⟩

/-- What a failed start of the channel leaves to `lcap_changelog_start`. -/
inductive ChannelUndone : List HandleEvent → Prop
  | noMemory : ChannelUndone []
  | init (h : InitUndone undone) : ChannelUndone (.acquired .pzd :: (undone ++ [.released .pzd]))
  | initialized : ChannelUndone
    [.acquired .pzd, .acquired .zmqCtx, .acquired .zmqSrv, .acquired .records,
      .released .zmqSrv, .released .zmqCtx, .released .records, .released .pzd]

theorem ChannelUndone.released (h : ChannelUndone undone) :
    ReleasedOnce (.acquired .ctx :: (undone ++ [.released .ctx])) := by
  intro handle
  cases h with
  | noMemory => cases handle <;> decide
  | init h => cases h <;> cases handle <;> decide
  | initialized => cases handle <;> decide

/-- What a start that reaches the reply holds. -/
def held : List HandleEvent :=
  [.acquired .ctx, .acquired .pzd, .acquired .zmqCtx, .acquired .zmqSrv, .acquired .records]

theorem channel_cases (io : StartIo) (flags : Nat) (mdtname : List UInt8) (startrec : Int)
    (hctx : io.ctxAlloc = true) :
    (Overruns io mdtname ∧
      pxChangelogStart io flags mdtname startrec [.acquired .ctx] = .error .recMdt) ∨
    (∃ undone rc, ChannelUndone undone ∧ rc < 0 ∧ ¬ ReachesReply io mdtname ∧
      ¬ Overruns io mdtname ∧ pxChangelogStart io flags mdtname startrec [.acquired .ctx] =
        .ok ⟨none, .acquired .ctx :: undone, rc⟩) ∨
    (ReachesReply io mdtname ∧ ¬ Overruns io mdtname ∧
      pxChangelogStart io flags mdtname startrec [.acquired .ctx] =
      .ok ⟨some .pzd, held, Wire.prRetcode io.reply⟩) := by
  cases hpzd : io.pzdAlloc with
  | false =>
    refine .inr (.inl ⟨[], -ENOMEM, .noMemory, enomem_neg, ?_, ?_, ?_⟩)
    · exact fun h => nomatch hpzd.symm.trans h.pzdAlloc
    · exact fun h => nomatch hpzd.symm.trans h.pzdAlloc
    · simp only [pxChangelogStart, hpzd]
      rfl
  | true =>
    rcases pzd_init_cases io mdtname ([.acquired .ctx] ++ [.acquired .pzd]) with
      ⟨hzctx, hsock, hshort, hlong, hi⟩ | ⟨undone, rc, hu, hneg, hi, hno, hover⟩ |
        ⟨hname, hzctx, hsock, hgrow, hi⟩
    · refine .inl ⟨⟨hctx, hpzd, hzctx, hsock, hshort, hlong⟩, ?_⟩
      simp only [pxChangelogStart, hpzd, hi]
      rfl
    · refine .inr (.inl ⟨_, rc, .init hu, hneg, hno, hover, ?_⟩)
      simp only [pxChangelogStart, hpzd, hi, if_pos (Int.ne_of_lt hneg)]
      simp [giveUp, release]
    · have hover : ¬ Overruns io mdtname := by
        intro h
        have hlong := h.long
        omega
      -- From here on every failure goes through `pzd_destroy`.
      have hundo : ∀ rc, giveUpInitialized (ready mdtname)
          ([.acquired .ctx] ++ [.acquired .pzd] ++
            [.acquired .zmqCtx, .acquired .zmqSrv, .acquired .records]) rc =
          ⟨none, .acquired .ctx :: [.acquired .pzd, .acquired .zmqCtx, .acquired .zmqSrv,
            .acquired .records,
            .released .zmqSrv, .released .zmqCtx, .released .records, .released .pzd], rc⟩ :=
              fun _ => rfl
      have hfail : ∀ rc, rc < 0 → ¬ ReachesReply io mdtname →
          pxChangelogStart io flags mdtname startrec [.acquired .ctx] =
            .ok (giveUpInitialized (ready mdtname) ([.acquired .ctx] ++ [.acquired .pzd] ++
              [.acquired .zmqCtx, .acquired .zmqSrv, .acquired .records]) rc) →
          ∃ undone rc, ChannelUndone undone ∧ rc < 0 ∧ ¬ ReachesReply io mdtname ∧
            ¬ Overruns io mdtname ∧ pxChangelogStart io flags mdtname startrec [.acquired .ctx] =
              .ok ⟨none, .acquired .ctx :: undone, rc⟩ := by
        intro rc hneg hno hs
        rw [hundo] at hs
        exact ⟨_, rc, .initialized, hneg, hno, hover, hs⟩
      cases hconnect : io.connect with
      | some e =>
        refine .inr (.inl (hfail (-(e.val : Int)) (errno_neg e) ?_ ?_))
        · exact fun h => nomatch hconnect.symm.trans h.connect
        · simp only [pxChangelogStart, hpzd, hi, hconnect]
          rfl
      | none =>
        rcases rpc_send_rc ((ready mdtname).recMdt.take (ready mdtname).recMdtLen.toNat)
            (clStartPack flags mdtname startrec) io.send with ⟨hsend, hneg⟩ | ⟨hsend, hzero⟩
        · refine .inr (.inl (hfail _ hneg (fun h => h.send hsend) ?_))
          simp only [pxChangelogStart, hpzd, hi, hconnect, if_pos hneg]
          rfl
        have hpos : ¬ (0 : Int) < 0 := Int.lt_irrefl 0
        cases hrecv : io.recv with
        | some e =>
          refine .inr (.inl (hfail (-(e.val : Int)) (errno_neg e) ?_ ?_))
          · exact fun h => nomatch hrecv.symm.trans h.recv
          · simp only [pxChangelogStart, hpzd, hi, hconnect, hzero, if_neg hpos, hrecv]
            rfl
        | none =>
          by_cases hshort : io.reply.length < sizeofAck
          · refine .inr (.inl (hfail (-EINVAL) einval_neg ?_ ?_))
            · exact fun h => Nat.not_le.mpr hshort h.size
            · simp only [pxChangelogStart, hpzd, hi, hconnect, hzero, if_neg hpos, hrecv,
                if_pos hshort]
              rfl
          · refine .inr (.inr ⟨⟨hctx, hpzd, hzctx, hsock, hname, hgrow, hconnect, hsend, hrecv,
              Nat.le_of_not_lt hshort⟩, hover, ?_⟩)
            simp only [pxChangelogStart, hpzd, hi, hconnect, hzero, if_neg hpos, hrecv,
              if_neg hshort]
            rfl

/-- A start cleans up behind each of its own failures, and leaves everything behind when
it is the server that refuses it. -/
theorem failed_start_iff (io : StartIo) (pctx : CtxPtr) (flags : Nat) (mdtname : List UInt8)
    (startrec : Int) :
    CleanFailure (lcapChangelogStart io pctx flags mdtname startrec) ↔ NoLeak io pctx mdtname := by
  cases hctx : io.ctxAlloc with
  | false =>
    have hno : ¬ Refused io mdtname := fun h => nomatch hctx.symm.trans h.1.ctxAlloc
    have hover : ¬ Overruns io mdtname := fun h => nomatch hctx.symm.trans h.ctxAlloc
    have hs : lcapChangelogStart io pctx flags mdtname startrec = .ok ⟨pctx, [], -ENOMEM⟩ := by
      simp only [lcapChangelogStart, hctx]
      rfl
    rw [hs]
    constructor
    · rintro ⟨r, hr, h⟩
      cases hr
      exact ⟨fun _ => (h enomem_neg).1, hno, hover⟩
    · intro h
      exact ⟨_, rfl, fun _ => ⟨h.1 hctx, fun _ => ⟨rfl, Nat.zero_le 1⟩⟩⟩
  | true =>
    have hnull : io.ctxAlloc = false → pctx = .null := fun h => nomatch hctx.symm.trans h
    rcases channel_cases io flags mdtname startrec hctx with
      ⟨hover, hs⟩ | ⟨undone, rc, hu, hneg, hno, hover, hs⟩ | ⟨hyes, hover, hs⟩
    · refine iff_of_false ?_ fun h => h.2.2 hover
      simp only [lcapChangelogStart, hctx, hs]
      rintro ⟨r, hr, _⟩
      cases hr
    · refine iff_of_true ?_ ⟨hnull, fun h => hno h.1, hover⟩
      simp only [lcapChangelogStart, hctx, hs, if_pos hneg]
      exact ⟨_, rfl, fun _ => ⟨rfl, hu.released⟩⟩
    · have hrefused : Refused io mdtname ↔ Wire.prRetcode io.reply < 0 :=
        ⟨fun h => h.2, fun h => ⟨hyes, h⟩⟩
      have hleak : NoLeak io pctx mdtname ↔ ¬ Wire.prRetcode io.reply < 0 := by
        rw [NoLeak, hrefused]
        exact ⟨fun h => h.2.1, fun h => ⟨hnull, h, hover⟩⟩
      rw [hleak]
      simp only [lcapChangelogStart, hctx, hs]
      generalize Wire.prRetcode io.reply = code
      by_cases hneg : code < 0
      · refine iff_of_false ?_ (not_not.mpr hneg)
        rw [if_pos hneg]
        rintro ⟨r, hr, h⟩
        cases hr
        have hpzd : (release held (some .ctx)).count (.released .pzd) =
            (release held (some .ctx)).count (.acquired .pzd) := ((h hneg).2 .pzd).1
        exact absurd hpzd (by decide)
      · refine iff_of_true ?_ hneg
        rw [if_neg hneg]
        exact ⟨_, rfl, fun hlt => absurd hlt hneg⟩

namespace Sample

/-- The server has a client of this identity already. -/
def refusal : StartIo := { reply := packAck (-EALREADY) }

end Sample

/-- The refusal is returned as it is, with only the context released. Where there is no
memory for that, the caller's pointer stays as it was. -/
theorem refusal_leaks :
    lcapChangelogStart Sample.refusal .null 0 [109] 0 =
      .ok ⟨.null, held ++ [.released .ctx], -EALREADY⟩ ∧
      ¬ CleanFailure (lcapChangelogStart Sample.refusal .null 0 [109] 0) ∧
      lcapChangelogStart { ctxAlloc := false, reply := [] } .callers 0 [109] 0 =
        .ok ⟨.callers, [], -ENOMEM⟩ ∧
      ¬ CleanFailure (lcapChangelogStart { ctxAlloc := false, reply := [] } .callers 0
        [109] 0) := by
  have hleak : lcapChangelogStart Sample.refusal .null 0 [109] 0 =
      .ok ⟨.null, held ++ [.released .ctx], -EALREADY⟩ := by decide +kernel
  refine ⟨hleak, ?_, rfl, ?_⟩
  · rintro ⟨r, hr, h⟩
    cases hleak.symm.trans hr
    have hpzd := ((h ealready_neg).2 .pzd).1
    exact absurd hpzd (by decide)
  · rintro ⟨r, hr, h⟩
    cases hr
    exact nomatch (h enomem_neg).1

end Lcap.Proofs
