import Mathlib.Algebra.Ring.Int.Defs
import Mathlib.Algebra.Ring.Nat
import Mathlib.Logic.Function.Basic

namespace Lcap

/-- The bytes of a connection identity; `ci_length` is their number. -/
abbrev ConnId := List UInt8

/-- A positive errno, as a failing call leaves it. -/
abbrev Errno := { n : Nat // 0 < n }

def EAGAIN : Int := 11
def ENOMEM : Int := 12
def EINVAL : Int := 22
def EPROTO : Int := 71
def EALREADY : Int := 114

theorem errno_neg (e : Errno) : -(e.val : Int) < 0 := by
  have := e.property
  omega

theorem enomem_neg : -ENOMEM < 0 := by decide
theorem einval_neg : -EINVAL < 0 := by decide
theorem eproto_neg : -EPROTO < 0 := by decide
theorem ealready_neg : -EALREADY < 0 := by decide

/-- The opcodes of `enum rpc_op_type`. -/
inductive RpcOpType
  | start | dequeue | clear | fini | enqueue | ack | signal
  deriving DecidableEq, Repr

def RpcOpType.code : RpcOpType → Nat
  | .start => 0
  | .dequeue => 1
  | .clear => 2
  | .fini => 3
  | .enqueue => 4
  | .ack => 5
  | .signal => 6

/-- A code between `RPC_OP_FIRST` and `RPC_OP_LAST` as the constant it stands for. -/
def rpcOpType : Nat → Option RpcOpType
  | 0 => some .start
  | 1 => some .dequeue
  | 2 => some .clear
  | 3 => some .fini
  | 4 => some .enqueue
  | 5 => some .ack
  | 6 => some .signal
  | _ => none

theorem rpc_op_type_code (op : RpcOpType) : rpcOpType op.code = some op := by
  cases op <;> rfl

theorem code_of_rpc_op_type (h : rpcOpType n = some op) : n = op.code := by
  unfold rpcOpType at h
  split at h <;> cases h <;> rfl

/-- The packed sizes of the messages of `lcap_idl.h`. -/
def sizeofHdr : Nat := 8
def sizeofRegister : Nat := 152
def sizeofClear : Nat := 20
def sizeofEnqueue : Nat := 12
def sizeofDequeue : Nat := 8
def sizeofFini : Nat := 8
def sizeofAck : Nat := 12
def sizeofSignal : Nat := 144

def rpcExpectedLength : RpcOpType → Nat
  | .start => sizeofRegister
  | .dequeue => sizeofDequeue
  | .clear => sizeofClear
  | .fini => sizeofFini
  | .enqueue => sizeofEnqueue
  | .ack => sizeofAck
  | .signal => sizeofSignal

/-- The little-endian field of `len` bytes at `off`. -/
def leField (body : List UInt8) (off len : Nat) : Nat :=
  ((body.drop off).take len).foldr (fun b acc => b.toNat + 256 * acc) 0

/-- A request as the receiving loop has recomposed it; `lr_body_len` is the body's length. -/
structure LcapnetRequest where
  lrForward : ConnId
  lrBody : List UInt8
  deriving DecidableEq, Repr

def LcapnetRequest.opType (req : LcapnetRequest) : Nat := leField req.lrBody 0 4

/-- `px_rpc_register::pr_start`, behind the header, the flags and the padding. -/
def LcapnetRequest.prStart (req : LcapnetRequest) : Nat := leField req.lrBody 16 8

/-- The request carries the opcode and the whole fixed part of its message. -/
def LcapnetRequest.WellFormed (req : LcapnetRequest) (op : RpcOpType) : Prop :=
  sizeofHdr ≤ req.lrBody.length ∧ rpcOpType req.opType = some op ∧
    rpcExpectedLength op ≤ req.lrBody.length

instance (req : LcapnetRequest) (op : RpcOpType) : Decidable (req.WellFormed op) :=
  inferInstanceAs (Decidable (_ ∧ _ ∧ _))

theorem LcapnetRequest.WellFormed.unique {req : LcapnetRequest} (h : req.WellFormed op)
    (h' : req.WellFormed op') : op = op' :=
  Option.some.inj (h.2.1.symm.trans h'.2.1)

end Lcap
