import Lcap.Idl

namespace Lcap.Client

/-- The low `len` bytes of a number, in memory order. -/
def leBytes : Nat → Nat → List UInt8
  | 0, _ => []
  | len + 1, n => UInt8.ofNat n :: leBytes len (n / 256)

/-- The bytes of a `long long`, in two's complement. -/
def leInt64 (n : Int) : List UInt8 := leBytes 8 (n % 2 ^ 64).toNat

/-- A header; every message is zeroed before it is filled. -/
def packHdr (op : RpcOpType) : List UInt8 := leBytes 4 op.code ++ leBytes 4 0

/-- `strncpy` into a field of `len` bytes: truncated, or padded with zeros. -/
def strncpy (s : List UInt8) (len : Nat) : List UInt8 :=
  s.take len ++ List.replicate (len - s.length) 0

def clStartPack (flags : Nat) (mdtname : List UInt8) (startrec : Int) : List UInt8 :=
  packHdr .start ++ leBytes 4 flags ++ leBytes 4 0 ++ leInt64 startrec ++ strncpy mdtname 128

def clDequeuePack : List UInt8 := packHdr .dequeue

/-- `pr_id` holds the reader's id and the device name, each with its terminator. -/
def clClearPack (mdtname id : List UInt8) (endrec : Int) : List UInt8 :=
  packHdr .clear ++ leInt64 endrec ++ leBytes 4 (id.length + mdtname.length + 2) ++
    id ++ [0] ++ mdtname ++ [0]

/-- The message of `px_changelog_fini`. -/
def finiPack : List UInt8 := packHdr .fini

theorem le_bytes_length (len n : Nat) : (leBytes len n).length = len := by
  induction len generalizing n with
  | zero => rfl
  | succ len ih => simp [leBytes, ih]

theorem le_bytes_value (len n : Nat) :
    (leBytes len n).foldr (fun b acc => b.toNat + 256 * acc) 0 = n % 256 ^ len := by
  induction len generalizing n with
  | zero => simp [leBytes, Nat.mod_one]
  | succ len ih =>
    have hb : (UInt8.ofNat n).toNat = n % 256 := by simp
    rw [leBytes, List.foldr_cons, ih, hb, Nat.pow_succ, Nat.mul_comm (256 ^ len), Nat.mod_mul]

/-- A field reads back as the number written at its place. -/
theorem le_field_append (pre post : List UInt8) (len n : Nat) :
    leField (pre ++ (leBytes len n ++ post)) pre.length len = n % 256 ^ len := by
  have ht : (leBytes len n ++ post).take len = leBytes len n := by
    rw [List.take_append_of_le_length (Nat.le_of_eq (le_bytes_length len n).symm)]
    exact List.take_of_length_le (Nat.le_of_eq (le_bytes_length len n))
  rw [leField, List.drop_left, ht, le_bytes_value]

theorem pack_hdr_op (op : RpcOpType) (rest : List UInt8) :
    leField (packHdr op ++ rest) 0 4 = op.code := by
  have h := le_field_append [] (leBytes 4 0 ++ rest) 4 op.code
  rw [packHdr, List.append_assoc]
  refine h.trans ?_
  cases op <;> rfl

theorem pack_hdr_length (op : RpcOpType) : (packHdr op).length = 8 := by
  simp [packHdr, le_bytes_length]

/-- A body that starts with a header and is long enough is a message of that kind. -/
theorem well_formed_pack (cid : ConnId) (op : RpcOpType) (rest : List UInt8)
    (hlen : rpcExpectedLength op ≤ 8 + rest.length) :
    LcapnetRequest.WellFormed ⟨cid, packHdr op ++ rest⟩ op := by
  refine ⟨?_, ?_, ?_⟩
  · simp [sizeofHdr, pack_hdr_length]
  · simp only [LcapnetRequest.opType, pack_hdr_op, rpc_op_type_code]
  · simpa [pack_hdr_length] using hlen

theorem strncpy_length (s : List UInt8) (len : Nat) : (strncpy s len).length = len := by
  simp [strncpy]
  omega

theorem start_well_formed (cid : ConnId) (flags : Nat) (mdtname : List UInt8) (startrec : Int) :
    LcapnetRequest.WellFormed ⟨cid, clStartPack flags mdtname startrec⟩ .start := by
  simp only [clStartPack, List.append_assoc]
  apply well_formed_pack
  simp [rpcExpectedLength, sizeofRegister, leInt64, le_bytes_length, strncpy_length]

theorem dequeue_well_formed (cid : ConnId) :
    LcapnetRequest.WellFormed ⟨cid, clDequeuePack⟩ .dequeue := by
  have h := well_formed_pack cid .dequeue [] (Nat.le_refl 8)
  rwa [List.append_nil] at h

theorem fini_well_formed (cid : ConnId) : LcapnetRequest.WellFormed ⟨cid, finiPack⟩ .fini := by
  have h := well_formed_pack cid .fini [] (Nat.le_refl 8)
  rwa [List.append_nil] at h

theorem clear_well_formed (cid : ConnId) (mdtname id : List UInt8) (endrec : Int) :
    LcapnetRequest.WellFormed ⟨cid, clClearPack mdtname id endrec⟩ .clear := by
  simp only [clClearPack, List.append_assoc]
  apply well_formed_pack
  simp [rpcExpectedLength, sizeofClear, leInt64, le_bytes_length]
  omega

end Lcap.Client
