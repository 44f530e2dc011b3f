import Lcap.Client.Proxy
import Lcap.Config
import Lcap.Proofs.Caching
import Lcap.Proofs.Cursors

namespace Lcap.Proofs
open Reader Systems Config

/-- The bytes that records take up in a message. -/
def recordsSize (rs : List ChangelogRec) : Nat :=
  (rs.map fun r => r.changelogRecSize + r.crNamelen).sum

theorem records_size_append (a b : List ChangelogRec) :
    recordsSize (a ++ b) = recordsSize a + recordsSize b := by
  simp [recordsSize]

/-- Records of at most `n` bytes each. -/
theorem records_size_le {rs : List ChangelogRec} {n : Int}
    (h : ∀ r ∈ rs, (r.changelogRecSize + r.crNamelen : Int) ≤ n) :
    (recordsSize rs : Int) ≤ rs.length * n := by
  induction rs with
  | nil => simp [recordsSize]
  | cons r rs ih =>
    have ih := ih fun r' hr' => h r' (List.mem_cons_of_mem r hr')
    have hr := h r List.mem_cons_self
    have hsum : recordsSize (r :: rs) = r.changelogRecSize + r.crNamelen + recordsSize rs := by
      simp [recordsSize]
    rw [hsum, List.length_cons, Int.natCast_succ, Int.add_mul, Int.one_mul]
    omega

/-- Every bucket knows the size of its records. -/
def Measured (s : ReaderEnv) : Prop := ∀ p, (s.mem p).lrbSize = recordsSize (s.mem p).lrbRecords

theorem Measured.quiet (h : Measured s) (hq : Quiet s t) : Measured t := by
  intro p
  rw [(hq.contents p).1, (hq.contents p).2]
  exact h p

theorem Measured.openBucket (h : Measured s) (b : Nat) : Measured (openBucket s b) := by
  intro p
  by_cases he : p = b
  · rw [he, open_bucket_new]
    rfl
  · rw [open_bucket_mem he]
    exact h p

theorem Measured.insert (h : Measured s) (p : Nat) (r : ChangelogRec) :
    Measured (recCounted (recInsert s p r) r) := by
  intro q
  by_cases he : q = p
  · subst he
    have hq := h q
    simp only [recCounted, recInsert, ReaderEnv.modify, ReaderEnv.log,
      Function.update_self, recAppend, records_size_append, hq]
    simp [recordsSize]
  · rw [insert_mem_other he]
    exact h q

/-- A message that was made of a bucket has records that were stored there, at most a batch,
and any other one is an ACK. -/
def PackedFrom (cfg : LcapCfg) (pre : List Event) : Event → Prop
  | .sent _ (some n) msg _ =>
    ∃ recs, msg = .enqueue (sizeofEnqueue + recordsSize recs) recs.length recs ∧
      (recs.length : Int) ≤ max 0 cfg.ccfRecBatchCount ∧ ∀ r ∈ recs, .stored n r ∈ pre
  | .sent _ none msg _ => ∃ ret, msg = .ack ret
  | _ => True

/-- What the buckets are, the messages made of them have been. -/
structure Loaded (cfg : LcapCfg) (s : ReaderEnv) : Prop where
  bounded : BatchBound cfg s
  measured : Measured s
  packed : Justified (PackedFrom cfg) s.trace

/-- Nothing is stored, and none of the new messages is made of a bucket. -/
theorem Loaded.quiet (h : Loaded cfg s) (hq : Quiet s t) (post : List Event)
    (ht : t.trace = s.trace ++ post) (hp : ∀ e ∈ post, ∀ pre, PackedFrom cfg pre e) :
    Loaded cfg t :=
  ⟨h.bounded.quiet hq, h.measured.quiet hq, ht ▸ h.packed.append hp⟩

theorem Loaded.openBucket (h : Loaded cfg s) (b : Nat) : Loaded cfg (openBucket s b) :=
  ⟨h.bounded.openBucket b, h.measured.openBucket b, h.packed.snoc trivial⟩

theorem Loaded.logAck (h : Loaded cfg s) (cid : ConnId) (ret : Int) (out : Option Errno) :
    Loaded cfg (logAck s cid ret out) :=
  h.quiet (.logAck _ _ _ _) [_] rfl (by simp [PackedFrom])

theorem Loaded.acknowledge (h : Loaded cfg s) (cid : ConnId) (p : Nat) :
    Loaded cfg (acknowledgeBucket s cid p) :=
  h.quiet (.acknowledge _ _ _) [_] rfl (by simp [PackedFrom])

theorem Loaded.logClear (h : Loaded cfg s) (endrec rc : Int) : Loaded cfg (logClear s endrec rc) :=
  h.quiet (.logClear _ _ _) [_] rfl (by simp [PackedFrom])

theorem Loaded.assign (h : Loaded cfg s) (cid : ConnId) (p : Nat) :
    Loaded cfg (assignBucket s cid p) :=
  h.quiet (.assign _ _ _) [_] rfl (by simp [PackedFrom])

/-- The message is made of what the history has stored in the bucket. -/
theorem Loaded.send (hfiled : Filed s) (h : Loaded cfg s) (hk : Known s p) (cid : ConnId)
    (io : RpcIo) :
    Loaded cfg (sendBucket s cid p io) := by
  have hq : Quiet s (sendBucket s cid p io) := .send _ _ _ _
  refine ⟨h.bounded.quiet hq, h.measured.quiet hq,
    h.packed.snoc ⟨(s.mem p).lrbRecords, ?_, h.bounded.count p, ?_⟩⟩
  · rw [packEnqueue, h.measured p]
  · intro r hr
    rw [← hfiled.kept p hk] at hr
    exact mem_stored_in.mp hr

theorem Loaded.served (hshape : Shape s) (hfiled : Filed s) (h : Loaded cfg s)
    (hs : Served s req io t rc) : Loaded cfg t := by
  have hgive : ∀ {u p}, Fetch s io u (some p) →
      Loaded cfg (assignBucket (sealOpen u p io) req.lrForward p) := by
    intro u p hf
    have hu : Loaded cfg u :=
      h.quiet (.fetch hf) [] ((fetch_frame hf).2.2.2.2.1.trans (List.append_nil _).symm) (by simp)
    exact (seal_open_preserve (fun hu => hu.openBucket _) hu p).assign _ p
  cases hs with
  | refused _ _ | eof _ _ _ | vacuous _ _ => exact h
  | registered _ _ =>
    exact (h.quiet (.register s req) [] (List.append_nil _).symm (by simp)).logAck _ _ _
  | deregistered _ _ =>
    exact (h.quiet (.deregister s _) [] (List.append_nil _).symm (by simp)).logAck _ _ _
  | unopened _ _ hf _ _ =>
    exact h.quiet (.fetch hf) [] ((fetch_frame hf).2.2.2.2.1.trans (List.append_nil _).symm)
      (by simp)
  | unpacked _ _ hf _ _ => exact hgive hf
  | @delivered u p _ _ hf _ _ _ =>
    have hu : Filed (sealOpen u p io) :=
      seal_open_preserve (fun hu => hu.openBucket _) (hfiled.quiet (.fetch hf)) p
    exact (hgive hf).send (hu.quiet (.assign _ _ _)) (((hshape.fetched hf).fetch hf).seal p io) _ io
  | pending _ _ _ _ => exact (h.acknowledge _ _).logAck _ _ _
  | failed _ _ _ _ _ _ => exact (h.acknowledge _ _).logClear _ _
  | purged _ _ _ _ _ _ _ =>
    exact (((h.acknowledge _ _).logClear _ _).quiet (.destroy _ _) [_] rfl
      (by simp [PackedFrom])).logAck _ _ _

theorem reach_loaded (h : Reach (reader cfg idx) C s) : Loaded cfg s := by
  apply filed_induct h
  · exact ⟨⟨rfl, fun _ => Int.le_max_left _ _⟩, fun _ => rfl, Justified.nil.snoc trivial⟩
  · exact fun s b c d hs => ⟨hs.bounded.quiet (.flags s b c d), hs.measured, hs.packed⟩
  · exact fun s p r hs _ _ hlt =>
      ⟨hs.bounded.insert hlt r, hs.measured.insert p r, hs.packed.snoc trivial⟩
  · exact fun s b _ hs _ _ _ => hs.openBucket b
  · exact fun s cid ret out hs => hs.logAck cid ret out
  · exact fun s req io t rc hshape hfiled hs _ hst => hs.served hshape hfiled hst

theorem reach_measured (h : Reach (reader cfg idx) C s) : Measured s := (reach_loaded h).measured

/-- A message made of a bucket has at most a batch of records, all stored in that bucket. -/
theorem message_packed (h : Reach (reader cfg idx) C s) (hm : .sent dst (some p) msg rc ∈ s.trace) :
    ∃ recs, msg = .enqueue (sizeofEnqueue + recordsSize recs) recs.length recs ∧
      (recs.length : Int) ≤ max 0 cfg.ccfRecBatchCount ∧ ∀ r ∈ recs, .stored p r ∈ s.trace := by
  obtain ⟨pre, post, htr⟩ := List.append_of_mem hm
  obtain ⟨recs, hmsg, hlen, hrecs⟩ := (reach_loaded h).packed pre _ post htr
  refine ⟨recs, hmsg, hlen, fun r hr => ?_⟩
  rw [htr]
  exact List.mem_append_left _ (hrecs r hr)

theorem message_plain (h : Reach (reader cfg idx) C s) (hm : .sent dst none msg rc ∈ s.trace) :
    ∃ ret, msg = .ack ret := by
  obtain ⟨pre, post, htr⟩ := List.append_of_mem hm
  exact (reach_loaded h).packed pre _ post htr

namespace Sample

/-- A configuration file that asks for batches of 128 records. -/
def cfgFile : List UInt8 :=
  bytes "# sample\nMDTDevice lustre-MDT0000\nCLReader cl1\nBatch_Records 128\n"

def parsed : ParsedCfg :=
  ((lcapCfgInit [] (fun _ => some cfgFile) (fun _ => {}) 0).map Prod.fst).getD {}

/-- A record with the longest name that its 16-bit length can tell. -/
def longNamed (n : Nat) : ChangelogRec where
  crIndex := n % 2 ^ 32
  crNamelen := 65535
  changelogRecSize := 64
  crIndex_lt := by omega

/-- A full bucket of such records, sent to a client. -/
def longBatch : List Label :=
  [batch ((List.range 128).map longNamed), .request (start [1]) (calm 5),
    .request (dequeue [1]) (calm 5)]

def oversized : ReaderEnv :=
  replay (reader parsed.lcapCfg 0) (reader parsed.lcapCfg 0).init longBatch

end Sample

end Lcap.Proofs
