import Lcap.Net.Network
import Lcap.Proofs.Rendering

namespace Lcap.Proofs
open Reader Wire Network Systems
open Client (ApiCall StartArgs WireRequest PxZmqData Peer Outcome Done repSize repRetcode cacheReply
  recvBufferLength EOVERFLOW eoverflow_neg)

/-- Both calls leave the same context and return the same. -/
def SameLeft (L : RecLayout) : Except Crash Left → Done → Prop
  | .error _, _ => True
  | .ok d, d' =>
    d.stage = d'.stage ∧ Mirrors L d.cache d'.pzd ∧ Option.Rel (SameResult L d.cache) d.res d'.res

/-- What the socket gives a call: nothing, or the bytes of a reply to its request. -/
def Heard (L : RecLayout) (req : WireRequest) (recv : Option Errno) (bytes : List UInt8)
    (rep : Reply) : Prop :=
  recv = none → Renders L rep bytes ∧ (req = .px .dequeue → rep ≠ .ack 0)

/-- A call on bytes goes the way of one on records. -/
inductive Alike (L : RecLayout) (recv : Option Errno) : Turn → Outcome → Prop
  | ret (h : SameLeft L r d) : Alike L recv (.ret r) (.ret d)
  | leave (h : SameLeft L r d) : Alike L recv (.leave req r) (.leave req d)
  | ask (h : ∀ bytes rep, Heard L req recv bytes rep → SameLeft L (resume [bytes]) (resume' rep)) :
    Alike L recv (.ask req resume) (.ask req resume')

section
variable {L : RecLayout} {z : PxCache} {pzd : PxZmqData} {io : CallIo} {recv : Option Errno}
  {bytes : List UInt8} {rep : Reply}

theorem one_frame (bufflen : Nat) (io : CallIo) (bytes : List UInt8) :
    clRepRecv bufflen (io.dequeue none).frame 0 [] [bytes] =
      if bytes.length > bufflen then (bytes.take bufflen, -EOVERFLOW, [])
      else (bytes, (bytes.length : Int), []) := by
  simp [clRepRecv, CallIo.dequeue]

theorem one_frame_fails (bufflen : Nat) (io : CallIo) (e : Errno) (bytes : List UInt8) :
    clRepRecv bufflen (io.dequeue (some e)).frame 0 [] [bytes] = ([], -(e.val : Int), [bytes]) :=
  rfl

/-- Receiving one frame fails only where its length says so already. -/
theorem cache_reply_frame (hrep : Renders L rep bytes) :
    cacheReply L.sizeofRec pzd (pxIo recvBufferLength (io.dequeue none) [bytes]) rep =
      cacheReply L.sizeofRec pzd (io.px none) rep := by
  have hrecv := one_frame recvBufferLength io bytes
  have hgrow : (pxIo recvBufferLength (io.dequeue none) [bytes]).grow = (io.px none).grow := rfl
  by_cases hlong : bytes.length > recvBufferLength
  · rw [if_pos hlong] at hrecv
    have hio : (pxIo recvBufferLength (io.dequeue none) [bytes]).recv =
        some ⟨75, Nat.succ_pos 74⟩ := by
      simp only [pxIo, hrecv]
      exact dif_pos eoverflow_neg
    simp only [cacheReply, hio, CallIo.px, hrep.size, if_pos hlong]
    rfl
  · rw [if_neg hlong] at hrecv
    have hpos : ¬ ((bytes.length : Nat) : Int) < 0 := by omega
    have hio : (pxIo recvBufferLength (io.dequeue none) [bytes]).recv = (io.px none).recv := by
      simp only [pxIo, hrecv]
      exact dif_neg hpos
    simp only [cacheReply, hio, hgrow]

/-- The reply to a DEQUEUE on both sides, or none on both. -/
theorem dequeue_kept (h : Mirrors L z pzd) (hempty : z.recNxt = z.recCnt)
    (hheard : Heard L (.px .dequeue) recv bytes rep) :
    KeptSame L (handleReply L (io.dequeue recv) z [bytes])
      (cacheReply L.sizeofRec pzd (io.px recv) rep) := by
  cases recv with
  | none =>
    obtain ⟨hrep, hne⟩ := hheard rfl
    rw [← cache_reply_frame hrep]
    exact reply_kept h hempty (by simpa using hrep) (hne rfl)
  | some e =>
    have hz : handleReply L (io.dequeue (some e)) z [bytes] =
        .ok ((z.malloc (laid [] (io.dequeue (some e)).garbage)).free z.nextBuf,
          -(e.val : Int)) := by
      simp only [handleReply, one_frame_fails]
      exact if_pos (errno_neg e)
    simp only [hz, cacheReply, CallIo.px]
    exact ⟨rfl, h.empty hempty rfl rfl rfl rfl, fun h0 => absurd h0 (Int.ne_of_lt (errno_neg e))⟩

theorem Agrees.left {res : Except Crash (PxCache × Wire.Received)}
    {got : PxZmqData × Client.RecvResult}
    (h : Agrees L res got) : SameLeft L (afterRecv res) { pzd := got.1, res := some got.2 } := by
  cases res with
  | error c => trivial
  | ok r =>
    obtain ⟨z', res'⟩ := r
    exact ⟨rfl, h.1, .some h.2⟩

theorem recv_alike (h : Mirrors L z pzd) (io : CallIo) (recv : Option Errno) :
    Alike L recv (turnOf (.px .dequeue) afterRecv (pxChangelogRecv L (io.dequeue recv) z))
      ((Client.pxChangelogRecv L.sizeofRec pzd (io.px recv)).outcome
        fun (pzd, res) => { pzd := pzd, res := some res }) := by
  unfold pxChangelogRecv Client.pxChangelogRecv
  rw [← h.nxt, ← h.cnt]
  by_cases hempty : z.recNxt = z.recCnt
  · rw [if_pos hempty, if_pos hempty]
    have hsend : (io.dequeue recv).send = io.send := rfl
    have halloc : (io.dequeue recv).alloc = io.alloc := rfl
    have hsend' : (io.px recv).send = io.send := rfl
    have halloc' : (io.px recv).alloc = io.alloc := rfl
    unfold pxDequeueRecords Client.pxDequeueRecords
    rw [hsend, halloc, hsend', halloc']
    cases io.send with
    | some e =>
      have hrc : -(e.val : Int) ≠ 0 := Int.ne_of_lt (errno_neg e)
      simp only [Dequeue.map, Client.Call.map, if_pos hrc]
      exact .ret ⟨rfl, h, .some (.code _)⟩
    | none =>
      cases io.alloc with
      | false =>
        have hrc : -ENOMEM ≠ 0 := Int.ne_of_lt enomem_neg
        simp only [Bool.false_eq_true, if_false, Dequeue.map, Client.Call.map, if_pos hrc]
        exact .leave ⟨rfl, h, .some (.code _)⟩
      | true =>
        refine .ask fun bytes rep hheard => ?_
        exact (dequeue_kept h hempty hheard).agrees.left
  · rw [if_neg hempty, if_neg hempty]
    exact .ret (h.next (Nat.lt_of_le_of_ne h.le hempty)).left

/-- Both ends receive the same code. -/
theorem ack_retcode_alike (hheard : Heard L req recv bytes rep) (io : CallIo) :
    clAckRetcode (io.dequeue recv) [bytes] = Client.clAckRetcode (io.px recv) rep := by
  cases recv with
  | some e =>
    simp only [clAckRetcode, one_frame_fails, Client.clAckRetcode, CallIo.px]
    exact if_pos (errno_neg e)
  | none =>
    obtain ⟨hrep, _⟩ := hheard rfl
    have hrecv := one_frame sizeofAck io bytes
    simp only [clAckRetcode, Client.clAckRetcode, CallIo.px, hrep.size, hrep.retcode.symm]
    by_cases hlong : bytes.length > sizeofAck
    · rw [if_pos hlong] at hrecv
      simp only [hrecv, if_pos hlong]
      exact if_pos eoverflow_neg
    · rw [if_neg hlong] at hrecv
      simp only [hrecv, if_neg hlong]
      rw [if_neg (by omega)]
      by_cases hshort : bytes.length < sizeofAck
      · rw [if_pos hshort, if_pos (by omega)]
      · rw [if_neg hshort, if_neg (by omega)]

theorem clear_alike (h : Mirrors L z pzd) (mdtname id : List UInt8) (endrec : Int) (io : CallIo)
    (recv : Option Errno) :
    Alike L recv (turnOf (.px (.clear mdtname id endrec)) (fun _ => .ok { cache := z })
        (pxChangelogClear z (io.dequeue recv)))
      ((Client.pxChangelogClear pzd mdtname id endrec (io.px recv)).outcome fun _ =>
        { pzd := pzd }) := by
  have hkeep : SameLeft L (.ok { cache := z }) { pzd := pzd } := ⟨rfl, h, .none⟩
  have hsend : (io.dequeue recv).send = io.send := rfl
  have halloc : (io.dequeue recv).alloc = io.alloc := rfl
  have hsend' : (io.px recv).send = io.send := rfl
  have halloc' : (io.px recv).alloc = io.alloc := rfl
  unfold pxChangelogClear Client.pxChangelogClear
  rw [← h.nxt, ← h.cnt, hsend, halloc, hsend', halloc']
  split
  · exact .ret hkeep
  split
  · exact .ret hkeep
  cases io.send with
  | some e => exact .ret hkeep
  | none => exact .ask fun _ _ _ => hkeep

theorem start_left (rc : Int) :
    SameLeft L (afterStart rc) { stage := if rc < 0 then .ended else .started, pzd := {} } :=
  ⟨rfl, init_mirrors, .none⟩

theorem start_alike (args : StartArgs) (io : CallIo) (recv : Option Errno) :
    Alike L recv (pxChangelogStart args io recv)
      ((Client.pxChangelogStart args.flags args.mdtname args.startrec (io.px recv)).outcome
        fun (pzd, rc) => { stage := if rc < 0 then .ended else .started, pzd := pzd }) := by
  have hsetup : (io.px recv).setup = io.setup := rfl
  have hsend : (io.px recv).send = io.send := rfl
  have halloc : (io.px recv).alloc = io.alloc := rfl
  unfold pxChangelogStart Client.pxChangelogStart
  rw [hsetup, hsend, halloc]
  split
  · exact .ret (start_left _)
  cases io.setup with
  | some e => exact .ret (start_left _)
  | none =>
    cases io.send with
    | some e => exact .ret (start_left _)
    | none =>
      refine .ask fun bytes rep hheard => ?_
      cases recv with
      | some e => exact start_left _
      | none =>
        obtain ⟨hrep, _⟩ := hheard rfl
        have hret : startRetcode none [bytes] =
            if repSize rep < sizeofAck then -EINVAL else repRetcode rep := by
          rw [startRetcode, hrep.size, ← hrep.retcode]
          rfl
        rw [hret]
        exact start_left _

theorem fini_alike (h : Mirrors L z pzd) (io : CallIo) (recv : Option Errno) :
    Alike L recv (pxChangelogFini z io recv) (Client.pxChangelogFini pzd (io.px recv)) := by
  have hsend : (io.px recv).send = io.send := rfl
  unfold pxChangelogFini Client.pxChangelogFini
  rw [hsend]
  cases io.send with
  | some e => exact .ret ⟨rfl, h, .none⟩
  | none =>
    refine .ask fun bytes rep hheard => ?_
    rw [ack_retcode_alike hheard io]
    split
    · exact ⟨rfl, h, .none⟩
    · exact ⟨rfl, destroyed_mirrors, .none⟩

/-- A process on bytes is where one on records is. -/
structure Same (L : RecLayout) (c : Proc) (q : Peer) : Prop where
  stage : c.stage = q.stage
  cache : Mirrors L c.cache q.pzd
  waiting : c.waiting.map (fun w => (w.1, w.2.px none)) = q.waiting
  owed : c.owed = q.owed

/-- Every call of a process on bytes is one on records, if it is a call of either. -/
theorem turn_alike {c : Proc} {q : Peer} (hstage : c.stage = q.stage) (h : Mirrors L c.cache q.pzd)
    (args : StartArgs) (io : CallIo) (recv : Option Errno) (call : ApiCall) :
    (c.turn L args io recv call = none ∧ q.outcome L.sizeofRec args (io.px recv) call = none) ∨
    ∃ t o, c.turn L args io recv call = some t ∧
      q.outcome L.sizeofRec args (io.px recv) call = some o ∧
      Alike L recv t o := by
  cases call with
  | start =>
    simp only [Proc.turn, Peer.outcome, hstage]
    split
    · exact .inl ⟨rfl, rfl⟩
    · exact .inr ⟨_, _, rfl, rfl, start_alike args io recv⟩
  | recv =>
    simp only [Proc.turn, Peer.outcome, hstage]
    split
    · exact .inl ⟨rfl, rfl⟩
    · exact .inr ⟨_, _, rfl, rfl, recv_alike h io recv⟩
  | free =>
    simp only [Proc.turn, Peer.outcome, hstage]
    split
    · exact .inl ⟨rfl, rfl⟩
    · exact .inr ⟨_, _, rfl, rfl, .ret ⟨rfl, free_mirrors h, .none⟩⟩
  | clear mdtname id endrec =>
    simp only [Proc.turn, Peer.outcome, hstage]
    split
    · exact .inl ⟨rfl, rfl⟩
    · exact .inr ⟨_, _, rfl, rfl, clear_alike h mdtname id endrec io recv⟩
  | fini =>
    simp only [Proc.turn, Peer.outcome, hstage]
    split
    · exact .inl ⟨rfl, rfl⟩
    · exact .inr ⟨_, _, rfl, rfl, fini_alike h io recv⟩

end

end Lcap.Proofs
