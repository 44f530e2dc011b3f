import Lcap.Wire.Context

namespace Lcap.Proofs
open Client Systems Wire

/-- A buffer; its length is a `size_t`. -/
structure RepBuffer where
  bytes : List UInt8
  length_lt : bytes.length < 2 ^ 64

/-- What `cl_rep_recv` should make of a reply: its bytes at the start of the buffer and
their number, or an error if they do not fit. In any case the socket can send again. -/
def Reassembled (buff : List UInt8) (reply : Parts UInt8)
    (res : Except RepFault (List UInt8 × Int × Parts UInt8)) : Prop :=
  ∃ buff' rc rest, res = .ok (buff', rc, rest) ∧ buff'.length = buff.length ∧
    (∀ msg, ReqSocket.left msg rest = .ready) ∧
    if reply.flatten.length ≤ buff.length then
      rc = reply.flatten.length ∧ buff' = reply.flatten ++ buff.drop reply.flatten.length
    else rc = -EOVERFLOW

/-- All frames but the last fit the buffer, and no size exceeds an `int`. -/
def OnlyLastMayExceed (bufflen : Nat) (reply : Parts UInt8) : Prop :=
  reply.dropLast.flatten.length ≤ bufflen ∧ reply.dropLast.flatten.length ≤ intMax ∧
    (reply.getLast?.getD []).length ≤ intMax ∧
    (reply.flatten.length ≤ bufflen → reply.flatten.length ≤ intMax)

instance (bufflen : Nat) (reply : Parts UInt8) : Decidable (OnlyLastMayExceed bufflen reply) :=
  inferInstanceAs (Decidable (_ ∧ _ ∧ _ ∧ (_ → _)))

theorem left_ready_iff {rest : Parts UInt8} :
    (∀ msg, ReqSocket.left msg rest = .ready) ↔ rest = [] := by
  cases rest with
  | nil => exact iff_of_true (fun _ => rfl) rfl
  | cons frame rest =>
    exact iff_of_false (fun h => nomatch h (.ack 0)) (List.cons_ne_nil frame rest)

/-! ## The loop over the frames -/

theorem capacity_eq (hle : rcvd ≤ bufflen) (hlt : bufflen < 2 ^ 64) :
    capacity bufflen rcvd = bufflen - rcvd := by
  unfold capacity
  omega

/-- What is copied behind `got` takes the place of the bytes that were there. -/
theorem memcpy_behind {got tail bytes : List UInt8} (h : bytes.length ≤ tail.length) :
    memcpyAt (got ++ tail) got.length bytes = some (got ++ bytes ++ tail.drop bytes.length) := by
  rw [memcpyAt, if_pos (by rw [List.length_append]; omega), List.take_left, List.drop_append]
  simp

theorem length_behind (got : List UInt8) {tail frame : List UInt8}
    (hfit : frame.length ≤ tail.length) :
    (got ++ frame ++ tail.drop frame.length).length = (got ++ tail).length := by
  simp only [List.length_append, List.length_drop]
  omega

/-- One turn of the loop: the sizes exceed an `int`, the frame is cut, or it is added. -/
theorem rep_recv_frame (got tail frame : List UInt8) (hlt : (got ++ tail).length < 2 ^ 64) :
    ((frame.length > intMax ∨ frame.length ≤ tail.length ∧ got.length + frame.length > intMax) ∧
      repRecvFrame (got ++ tail).length (got ++ tail) got.length frame = .error .intOverflow) ∨
    (frame.length ≤ intMax ∧ frame.length > tail.length ∧
      repRecvFrame (got ++ tail).length (got ++ tail) got.length frame =
        .ok (got ++ frame.take tail.length, none)) ∨
    (frame.length ≤ tail.length ∧ got.length + frame.length ≤ intMax ∧
      repRecvFrame (got ++ tail).length (got ++ tail) got.length frame =
        .ok (got ++ frame ++ tail.drop frame.length, some (got ++ frame).length)) := by
  have hcap : capacity (got ++ tail).length got.length = tail.length := by
    rw [capacity_eq (by rw [List.length_append]; omega) hlt, List.length_append]
    omega
  rw [repRecvFrame, hcap, memcpy_behind (List.length_take_le _ _)]
  by_cases hbig : frame.length > intMax
  · exact .inl ⟨.inl hbig, by rw [if_pos hbig]⟩
  have hsize := Nat.le_of_not_lt hbig
  rw [if_neg hbig]
  simp only
  by_cases hcut : frame.length > tail.length
  · refine .inr (.inl ⟨hsize, hcut, ?_⟩)
    rw [if_pos hcut, List.length_take, Nat.min_eq_left (Nat.le_of_lt hcut), List.drop_length,
      List.append_nil]
  have hfit := Nat.le_of_not_lt hcut
  rw [if_neg hcut]
  by_cases hsum : got.length + frame.length > intMax
  · exact .inl ⟨.inr ⟨hfit, hsum⟩, by rw [if_pos hsum]⟩
  · refine .inr (.inr ⟨hfit, Nat.le_of_not_lt hsum, ?_⟩)
    rw [if_neg hsum, List.take_of_length_le hfit, List.length_append]

/-- The frames to come are reassembled behind `got`. -/
def Behind (got tail : List UInt8) (reply : Parts UInt8)
    (res : Except RepFault (List UInt8 × Int × Parts UInt8)) : Prop :=
  ∃ buff' rc, res = .ok (buff', rc, []) ∧ buff'.length = (got ++ tail).length ∧
    if reply.flatten.length ≤ tail.length then
      rc = (got.length + reply.flatten.length : Nat) ∧
        buff' = got ++ reply.flatten ++ tail.drop reply.flatten.length
    else rc = -EOVERFLOW

theorem not_behind_error : ¬ Behind got tail reply (.error fault) := by
  rintro ⟨buff', rc, h, _⟩
  cases h

theorem not_behind_left (hne : rest ≠ []) : ¬ Behind got tail reply (.ok (buff, rc, rest)) := by
  rintro ⟨buff', rc', h, _⟩
  cases h
  exact hne rfl

/-- A frame that fits moves the bytes received so far. -/
theorem behind_cons (got tail : List UInt8) {frame : List UInt8}
    (hfit : frame.length ≤ tail.length) :
    Behind (got ++ frame) (tail.drop frame.length) rest res ↔
      Behind got tail (frame :: rest) res := by
  have hlen := length_behind got hfit
  have hroom : rest.flatten.length ≤ (tail.drop frame.length).length ↔
      (frame :: rest).flatten.length ≤ tail.length := by
    simp only [List.flatten_cons, List.length_append, List.length_drop]
    omega
  have hsum : (got ++ frame).length + rest.flatten.length = got.length +
      (frame :: rest).flatten.length := by
    simp only [List.flatten_cons, List.length_append]
    omega
  simp only [Behind, hlen, hroom, hsum]
  simp only [List.flatten_cons, List.append_assoc, List.length_append, List.drop_drop]

/-- The condition on what is left of a reply, with bytes received before. -/
def OnlyLast (got room : Nat) (reply : Parts UInt8) : Prop :=
  reply.dropLast.flatten.length ≤ room ∧ got + reply.dropLast.flatten.length ≤ intMax ∧
    (reply.getLast?.getD []).length ≤ intMax ∧
    (reply.flatten.length ≤ room → got + reply.flatten.length ≤ intMax)

theorem only_last_cons (hne : rest ≠ []) :
    OnlyLast got room (frame :: rest) ↔
      frame.length ≤ room ∧ got + frame.length ≤ intMax ∧ frame.length ≤ intMax ∧
        OnlyLast (got + frame.length) (room - frame.length) rest := by
  obtain ⟨next, rest, rfl⟩ := List.exists_cons_of_ne_nil hne
  simp only [OnlyLast, List.dropLast_cons_of_ne_nil (List.cons_ne_nil next rest), List.flatten_cons,
    List.length_append, List.getLast?_cons_cons]
  omega

/-- The loop keeps to the condition frame by frame. -/
theorem behind_iff (got tail : List UInt8) {reply : Parts UInt8} (hne : reply ≠ [])
    (hgot : got.length ≤ intMax) (hlt : (got ++ tail).length < 2 ^ 64) :
    Behind got tail reply (clRepRecvInt (got ++ tail).length (got ++ tail) got.length reply) ↔
      OnlyLast got.length tail.length reply := by
  induction reply generalizing got tail with
  | nil => exact absurd rfl hne
  | cons frame rest ih =>
    rcases rep_recv_frame got tail frame hlt with ⟨hbig, hf⟩ | ⟨hsize, hcut, hf⟩ | ⟨hfit, hsum, hf⟩
    · simp only [clRepRecvInt, hf]
      refine iff_of_false not_behind_error fun h => ?_
      by_cases hrest : rest = []
      · subst hrest
        obtain ⟨_, _, hlast, htotal⟩ := h
        simp only [List.getLast?_singleton, Option.getD_some, List.flatten_cons, List.flatten_nil,
          List.append_nil] at hlast htotal
        omega
      · rw [only_last_cons hrest] at h
        omega
    · simp only [clRepRecvInt, hf]
      by_cases hrest : rest = []
      · -- The frame that is cut is the last one.
        subst hrest
        refine iff_of_true ⟨_, _, rfl, ?_, ?_⟩ ⟨Nat.zero_le _, hgot, hsize, fun h => ?_⟩
        · rw [List.length_append, List.length_append, List.length_take,
            Nat.min_eq_left (Nat.le_of_lt hcut)]
        · rw [if_neg (by simpa using hcut)]
        · simp only [List.flatten_cons, List.flatten_nil, List.append_nil] at h
          exact absurd h (Nat.not_le.mpr hcut)
      · rw [only_last_cons hrest]
        exact iff_of_false (not_behind_left hrest) fun h => Nat.not_le.mpr hcut h.1
    · have hlen : (got ++ frame ++ tail.drop frame.length).length = (got ++ tail).length := by
        simp only [List.length_append, List.length_drop]
        omega
      have hgot' : (got ++ frame).length ≤ intMax := by rwa [List.length_append]
      simp only [clRepRecvInt, hf]
      rw [← behind_cons got tail hfit, ← hlen]
      by_cases hrest : rest = []
      · subst hrest
        refine iff_of_true ?_ ⟨Nat.zero_le _, hgot,
          Nat.le_trans (Nat.le_add_left _ _) hsum, fun _ => ?_⟩
        · exact ⟨_, _, rfl, rfl, by simp⟩
        · simpa using hsum
      · rw [ih (got ++ frame) (tail.drop frame.length) hrest hgot' (hlen ▸ hlt),
          only_last_cons hrest, List.length_append, List.length_drop]
        have hsize : frame.length ≤ intMax := Nat.le_trans (Nat.le_add_left _ _) hsum
        simp only [hfit, hsum, hsize, true_and]

theorem rep_recv_in_bounds (got tail : List UInt8) (reply : Parts UInt8)
    (hlt : (got ++ tail).length < 2 ^ 64) :
    clRepRecvInt (got ++ tail).length (got ++ tail) got.length reply ≠ .error .overrun := by
  induction reply generalizing got tail with
  | nil => exact nofun
  | cons frame rest ih =>
    rcases rep_recv_frame got tail frame hlt with ⟨_, hf⟩ | ⟨_, _, hf⟩ | ⟨hfit, _, hf⟩
    · simp only [clRepRecvInt, hf]
      exact nofun
    · simp only [clRepRecvInt, hf]
      exact nofun
    · have hlen : (got ++ frame ++ tail.drop frame.length).length = (got ++ tail).length := by
        simp only [List.length_append, List.length_drop]
        omega
      simp only [clRepRecvInt, hf]
      rw [← hlen]
      exact ih (got ++ frame) (tail.drop frame.length) (hlen ▸ hlt)

theorem drop_behind (got tail : List UInt8) {frame : List UInt8}
    (h : got.length + frame.length ≤ n) :
    (got ++ frame ++ tail.drop frame.length).drop n = (got ++ tail).drop n := by
  obtain ⟨d, rfl⟩ := Nat.exists_eq_add_of_le h
  rw [← List.length_append, List.drop_length_add_append, List.drop_drop, List.length_append,
    Nat.add_assoc, List.drop_length_add_append]

/-- Within an `int` the arithmetic does not show: this is the loop that the calls of the
client are modelled with. -/
theorem rep_recv_int_agrees {io : Nat → RepIo} (hio : ∀ k, io k = {}) (k : Nat)
    (got tail : List UInt8) {reply : Parts UInt8} (hmax : (got ++ tail).length ≤ intMax)
    (hsizes : ∀ frame ∈ reply, frame.length ≤ intMax) :
    ∃ bytes rc rest, clRepRecv (got ++ tail).length io k got reply = (bytes, rc, rest) ∧
      got.length ≤ bytes.length ∧ clRepRecvInt (got ++ tail).length (got ++ tail) got.length reply =
        .ok (bytes ++ (got ++ tail).drop bytes.length, rc, rest) := by
  induction reply generalizing k got tail with
  | nil => exact ⟨got, got.length, [], rfl, Nat.le_refl _, by simp [clRepRecvInt]⟩
  | cons frame rest ih =>
    have hlt : (got ++ tail).length < 2 ^ 64 := Nat.lt_of_le_of_lt hmax (by decide)
    have hsize := hsizes frame List.mem_cons_self
    have hroom : (got ++ tail).length - got.length = tail.length := by
      rw [List.length_append, Nat.add_sub_cancel_left]
    rcases rep_recv_frame got tail frame hlt with ⟨hbig, _⟩ | ⟨_, hcut, hf⟩ | ⟨hfit, _, hf⟩
    · rw [List.length_append] at hmax
      omega
    · refine ⟨got ++ frame.take tail.length, -EOVERFLOW, rest, ?_, ?_, ?_⟩
      · simp only [clRepRecv, hio, hroom, if_pos hcut]
      · rw [List.length_append]
        exact Nat.le_add_right _ _
      · simp only [clRepRecvInt, hf]
        have hfull : tail.length = (frame.take tail.length).length := by
          rw [List.length_take, Nat.min_eq_left (Nat.le_of_lt hcut)]
        rw [List.drop_eq_nil_of_le, List.append_nil]
        simp only [List.length_append]
        omega
    · have hlen : (got ++ frame ++ tail.drop frame.length).length = (got ++ tail).length := by
        simp only [List.length_append, List.length_drop]
        omega
      obtain ⟨bytes, rc, left, hr, hle, hri⟩ := ih (k + 1) (got ++ frame) (tail.drop frame.length)
        (hlen ▸ hmax) fun f h => hsizes f (List.mem_cons_of_mem frame h)
      rw [hlen] at hr hri
      rw [List.length_append] at hle
      refine ⟨bytes, rc, left, ?_, Nat.le_trans (Nat.le_add_right _ _) hle, ?_⟩
      · simp only [clRepRecv, hio, hroom, if_neg (Nat.not_lt.mpr hfit)]
        exact hr
      · simp only [clRepRecvInt, hf]
        rw [hri, drop_behind got tail hle]

/-- A reply is reassembled, or refused with nothing of it left behind, exactly when no
frame but the last finds the buffer full. Nothing is written outside the buffer. -/
theorem reply_reassembled_iff (buff : RepBuffer) {reply : Parts UInt8} (hne : reply ≠ []) :
    (Reassembled buff.bytes reply (clRepRecvInt buff.bytes.length buff.bytes 0 reply) ↔
        OnlyLastMayExceed buff.bytes.length reply) ∧
      clRepRecvInt buff.bytes.length buff.bytes 0 reply ≠ .error .overrun := by
  refine ⟨?_, rep_recv_in_bounds [] buff.bytes reply buff.length_lt⟩
  have h := behind_iff [] buff.bytes hne (Nat.zero_le _) buff.length_lt
  simp only [OnlyLast, List.length_nil, Nat.zero_add] at h
  refine Iff.trans ?_ h
  simp only [Reassembled, left_ready_iff, Behind, List.nil_append, List.length_nil, Nat.zero_add]
  constructor
  · rintro ⟨buff', rc, rest, hr, hlen, rfl, hres⟩
    exact ⟨buff', rc, hr, hlen, hres⟩
  · rintro ⟨buff', rc, hr, hlen, hres⟩
    exact ⟨buff', rc, [], hr, hlen, rfl, hres⟩

namespace Sample

/-- The buffer for an ACK. -/
def ackBuffer : RepBuffer := ⟨List.replicate sizeofAck 0, by decide⟩

end Sample

/-- An ACK in three frames, of which one is empty, and one that is too long by a frame. -/
theorem reply_reassembled_iff_ack :
    Reassembled Sample.ackBuffer.bytes [(Net.packAck 1).take 5, [], (Net.packAck 1).drop 5]
        (clRepRecvInt 12 Sample.ackBuffer.bytes 0 [(Net.packAck 1).take 5, [],
          (Net.packAck 1).drop 5]) ∧
      Reassembled Sample.ackBuffer.bytes [Net.packAck 1, [0]]
        (clRepRecvInt 12 Sample.ackBuffer.bytes 0 [Net.packAck 1, [0]]) :=
  ⟨(reply_reassembled_iff Sample.ackBuffer (by decide)).1.mpr (by decide +kernel),
    (reply_reassembled_iff Sample.ackBuffer (by decide)).1.mpr (by decide +kernel)⟩

/-- Behind a first frame that does not fit, the second one stays, and no further request
can be sent. -/
theorem overflow_leaves_frames :
    clRepRecvInt 12 Sample.ackBuffer.bytes 0 [List.replicate 13 1, [0]] =
        .ok (List.replicate 12 1, -EOVERFLOW, [[0]]) ∧
      ¬ Reassembled Sample.ackBuffer.bytes [List.replicate 13 1, [0]]
        (clRepRecvInt 12 Sample.ackBuffer.bytes 0 [List.replicate 13 1, [0]]) ∧
      ∀ msg io, ((ReqSocket.left msg [[0]]).gate io).send = some efsm := by
  have hr : clRepRecvInt 12 Sample.ackBuffer.bytes 0 [List.replicate 13 1, [0]] =
      .ok (List.replicate 12 1, -EOVERFLOW, [[0]]) := by decide +kernel
  refine ⟨hr, ?_, fun _ _ => rfl⟩
  rintro ⟨buff', rc, rest, h, _, hready, _⟩
  rw [hr] at h
  cases h
  exact nomatch hready (.ack 0)

end Lcap.Proofs
