import Lcap.Reader.Loop

namespace Lcap.Proofs
open Reader

theorem bind_ok {x : Except Halt β} {f : β → Except Halt γ} (h : x >>= f = .ok c) :
    ∃ b, x = .ok b ∧ f b = .ok c := by
  cases x with
  | error e => cases h
  | ok b => exact ⟨b, rfl, h⟩

/-- `m'` differs from `m` by ready flags that have been reset. -/
def Unmarked (m m' : Nat → LcapRecBucket) : Prop :=
  ∀ p, m' p = m p ∨ m' p = { m p with lrbReady := false }

theorem Unmarked.records (h : Unmarked m m') (p : Nat) :
    (m' p).lrbRecords = (m p).lrbRecords ∧ (m' p).lrbSize = (m p).lrbSize := by
  rcases h p with h | h <;> simp [h]

theorem Unmarked.expiry (h : Unmarked m m') (p : Nat) :
    (m' p).lrbExpiry = (m p).lrbExpiry ∧ (m' p).lrbIndex = (m p).lrbIndex := by
  rcases h p with h | h <;> simp [h]

theorem Unmarked.freed (h : Unmarked m m') (p : Nat) : (m' p).freed = (m p).freed := by
  rcases h p with h | h <;> simp [h]

theorem Unmarked.ready (h : Unmarked m m') (p : Nat) (hr : (m' p).lrbReady = true) :
    (m p).lrbReady = true := by
  rcases h p with h | h
  · rwa [h] at hr
  · simp [h] at hr

/-- Resetting flags along the list touches nothing else, wherever it stops. -/
theorem mark_non_ready_unmarked (stop : Option Nat) (s : ReaderEnv) (l : List Nat) :
    ∃ m, markNonReady stop s l = { s with mem := m } ∧ Unmarked s.mem m := by
  induction l generalizing s with
  | nil => exact ⟨s.mem, rfl, fun _ => .inl rfl⟩
  | cons tmp rest ih =>
    unfold markNonReady
    split
    · exact ⟨s.mem, rfl, fun _ => .inl rfl⟩
    · obtain ⟨m, he, hm⟩ := ih (s.modify tmp (fun b => { b with lrbReady := false }))
      refine ⟨m, by simpa [ReaderEnv.modify] using he, fun p => ?_⟩
      have hp := hm p
      by_cases hpt : p = tmp
      · subst hpt
        right
        simpa [ReaderEnv.modify] using hp
      · simpa [ReaderEnv.modify, Function.update_of_ne hpt] using hp

/-- On an ordered list everything before the cursor is reset. -/
theorem mark_non_ready_resets (f : Nat → Nat) (p : Nat) (stop : Option Nat) (s : ReaderEnv)
    (l : List Nat) (hp : p ∈ l) (hsorted : l.Pairwise fun a b => f a < f b)
    (hstop : ∀ q, stop = some q → f p < f q) :
    ((markNonReady stop s l).mem p).lrbReady = false := by
  induction l generalizing s with
  | nil => cases hp
  | cons tmp rest ih =>
    obtain ⟨hlt, hsorted⟩ := List.pairwise_cons.mp hsorted
    unfold markNonReady
    split
    · rename_i he
      have hpt := hstop tmp he.symm
      rcases List.mem_cons.mp hp with rfl | hp
      · exact absurd hpt (Nat.lt_irrefl _)
      · exact absurd hpt (Nat.lt_asymm (hlt p hp))
    · rcases List.mem_cons.mp hp with rfl | hp
      · obtain ⟨m, he, hm⟩ := mark_non_ready_unmarked stop
          (s.modify p (fun b => { b with lrbReady := false })) rest
        rw [he]
        rcases hm p with h | h <;> simp [h, ReaderEnv.modify]
      · exact ih _ hp hsorted

/-- And nothing outside the list that is walked. -/
theorem mark_non_ready_others (stop : Option Nat) (s : ReaderEnv) (l : List Nat) (hp : p ∉ l) :
    (markNonReady stop s l).mem p = s.mem p := by
  induction l generalizing s with
  | nil => rfl
  | cons tmp rest ih =>
    have hne : p ≠ tmp := List.ne_of_not_mem_cons hp
    have hrest : p ∉ rest := List.not_mem_of_not_mem_cons hp
    unfold markNonReady
    split
    · rfl
    · rw [ih _ hrest]
      exact Function.update_of_ne hne _ _

/-- What going back to the head makes of the buckets: the ones from there to the cursor,
on a list in any order, are no longer ready. -/
structure Walked (s : ReaderEnv) (head : Nat) (m : Nat → LcapRecBucket) : Prop where
  reset : ∀ (f : Nat → Nat), ∀ p ∈ nodesFrom s.reBuckets head,
    (nodesFrom s.reBuckets head).Pairwise (fun a b => f a < f b) →
    (∀ q, s.reDeliverNext = some q → f p < f q) → (m p).lrbReady = false
  others : ∀ p ∉ nodesFrom s.reBuckets head, m p = s.mem p

/-- The three ways of `rec_bucket_get`: back to the expired head, nothing to
give, or one bucket further. -/
inductive Fetch (s : ReaderEnv) (io : RpcIo) : ReaderEnv → Option Nat → Prop
  | rewind (hc : s.reCleanupNext = some head) (hx : headExpired s io head = true)
      (hm : Unmarked s.mem m) (hw : Walked s head m) :
      Fetch s io { s with mem := m, reDeliverNext := lnNext s.reBuckets head } (some head)
  | eof (hc : s.reCleanupNext = some head) (hx : headExpired s io head = false)
      (hd : s.reDeliverNext = none) : Fetch s io s none
  | advance (hc : s.reCleanupNext = some head) (hx : headExpired s io head = false)
      (hd : s.reDeliverNext = some bkt) :
      Fetch s io { s with reDeliverNext := lnNext s.reBuckets bkt } (some bkt)

theorem fetch_of_get (h : recBucketGet s io = .ok (t, b)) : Fetch s io t b := by
  unfold recBucketGet at h
  simp only [pure, Except.pure] at h
  split at h
  · rename_i head hc
    split at h
    · rename_i hx
      obtain ⟨m, he, hm⟩ :=
        mark_non_ready_unmarked s.reDeliverNext s (nodesFrom s.reBuckets head)
      have hreset := fun f p =>
        mark_non_ready_resets f p s.reDeliverNext s (nodesFrom s.reBuckets head)
      have hothers := fun p =>
        mark_non_ready_others (p := p) s.reDeliverNext s (nodesFrom s.reBuckets head)
      rw [he] at h hreset hothers
      cases h
      exact .rewind hc hx hm ⟨hreset, hothers⟩
    · rename_i hx
      have hx := Bool.eq_false_iff.mpr hx
      split at h
      · rename_i bkt hd
        cases h
        exact .advance hc hx hd
      · rename_i hd
        cases h
        exact .eof hc hx (Option.eq_none_iff_forall_ne_some.mpr hd)
  · cases h

/-- The bucket that `rec_bucket_get` would return. -/
def offered (s : ReaderEnv) (io : RpcIo) : Option Nat :=
  match s.reCleanupNext with
  | some head => if headExpired s io head then some head else s.reDeliverNext
  | none => none

theorem offered_of_fetch (hf : Fetch s io t b) : offered s io = b := by
  cases hf with
  | rewind hc hx _ _ => simp [offered, hc, hx]
  | eof hc hx hd => simp [offered, hc, hx, hd]
  | advance hc hx hd => simp [offered, hc, hx, hd]

def Idle (s : ReaderEnv) (cid : ConnId) : Prop :=
  ∃ cs, clientStateGet s cid = some cs ∧ cs.csBucket = none

instance (s : ReaderEnv) (cid : ConnId) : Decidable (Idle s cid) :=
  match h : clientStateGet s cid with
  | none => isFalse (by rintro ⟨cs, hg, _⟩; simp [h] at hg)
  | some cs =>
    if hb : cs.csBucket = none then isTrue ⟨cs, h, hb⟩
    else isFalse (by
      rintro ⟨cs', hg, hb'⟩
      rw [h] at hg
      cases hg
      exact hb hb')

def Holds (s : ReaderEnv) (cid : ConnId) (bkt : Nat) : Prop :=
  ∃ cs, clientStateGet s cid = some cs ∧ cs.csBucket = some bkt

theorem Idle.congr (hs : clientStateGet t cid = clientStateGet s cid) (hi : Idle s cid) :
    Idle t cid := by
  obtain ⟨cs, hg, hn⟩ := hi
  exact ⟨cs, hs.trans hg, hn⟩

theorem Holds.congr (hs : clientStateGet t cid = clientStateGet s cid) (hh : Holds s cid p) :
    Holds t cid p := by
  obtain ⟨cs, hg, hb⟩ := hh
  exact ⟨cs, hs.trans hg, hb⟩

theorem Holds.unique (hh : Holds s cid p) (hh' : Holds s cid q) : p = q := by
  obtain ⟨cs, hg, hb⟩ := hh
  obtain ⟨cs', hg', hb'⟩ := hh'
  cases hg.symm.trans hg'
  exact Option.some.inj (hb.symm.trans hb')

theorem Holds.not_idle (hh : Holds s cid p) : ¬ Idle s cid := by
  rintro ⟨cs, hg, hn⟩
  obtain ⟨cs', hg', hb⟩ := hh
  cases hg.symm.trans hg'
  cases hn.symm.trans hb

theorem Holds.known (hh : Holds s cid p) : (clientStateGet s cid).isSome = true := by
  obtain ⟨cs, hg, _⟩ := hh
  exact Option.isSome_iff_exists.mpr ⟨cs, hg⟩

theorem Idle.known (hi : Idle s cid) : (clientStateGet s cid).isSome = true := by
  obtain ⟨cs, hg, _⟩ := hi
  exact Option.isSome_iff_exists.mpr ⟨cs, hg⟩

/-- A DEQUEUE of a client without a bucket, or a CLEAR of a registered client. -/
def Entitled (s : ReaderEnv) (req : LcapnetRequest) : Prop :=
  (req.WellFormed .dequeue ∧ Idle s req.lrForward) ∨
    (req.WellFormed .clear ∧ (clientStateGet s req.lrForward).isSome = true)

/-- A delivery first replaces the open bucket when it takes that one. -/
def sealOpen (s : ReaderEnv) (bkt : Nat) (io : RpcIo) : ReaderEnv :=
  if some bkt = s.reCurrentOpen then openBucket s (callocBlock s io.bktBlock) else s

theorem seal_open_preserve {P : ReaderEnv → Prop}
    (hopen : P s → P (openBucket s (callocBlock s io.bktBlock))) (hs : P s) (bkt : Nat) :
    P (sealOpen s bkt io) := by
  unfold sealOpen
  split
  · exact hopen hs
  · exact hs

/-- The bucket's message leaves, with its expiry time set. -/
def sendBucket (s : ReaderEnv) (cid : ConnId) (bkt : Nat) (io : RpcIo) : ReaderEnv :=
  (bucketSetExpiryTime s bkt io.sendNow).log
    (.sent cid (some (s.mem bkt).lrbIndex) (packEnqueue (s.mem bkt)) (sendRc io.send))

def logAck (s : ReaderEnv) (cid : ConnId) (ret : Int) (out : Option Errno) : ReaderEnv :=
  s.log (.sent cid none (.ack ret) (sendRc out))

/-- The call of `llapi_changelog_clear` and its result. -/
def logClear (s : ReaderEnv) (endrec rc : Int) : ReaderEnv :=
  s.log (.cleared (readerDevice s) s.reCfg.ccfClreader endrec rc)

/-- Every way in which a handler returns, with the state it leaves. -/
inductive Served (s : ReaderEnv) (req : LcapnetRequest) (io : RpcIo) : ReaderEnv → Int → Prop
  | refused (hrc : rc < 0) (hno : ¬ Entitled s req) : Served s req io s rc
  | registered (hop : req.WellFormed .start)
      (hnew : clientStateGet s req.lrForward = none) :
      Served s req io (logAck (registerClient s req) req.lrForward 0 io.send) (sendRc io.send)
  | deregistered (hop : req.WellFormed .fini)
      (hknown : (clientStateGet s req.lrForward).isSome) :
      Served s req io (logAck (deregisterClient s req.lrForward) req.lrForward 0 io.send)
        (sendRc io.send)
  | eof (hop : req.WellFormed .dequeue) (hi : Idle s req.lrForward)
      (hf : Fetch s io s none) : Served s req io s 1
  | unopened (hop : req.WellFormed .dequeue) (hi : Idle s req.lrForward)
      (hf : Fetch s io t (some bkt)) (ho : some bkt = t.reCurrentOpen)
      (ha : io.bktAlloc = false) : Served s req io t (-ENOMEM)
  | unpacked (hop : req.WellFormed .dequeue) (hi : Idle s req.lrForward)
      (hf : Fetch s io t (some bkt)) (hb : some bkt = t.reCurrentOpen → io.bktAlloc = true)
      (ha : io.rpcAlloc = false) :
      Served s req io (assignBucket (sealOpen t bkt io) req.lrForward bkt) (-ENOMEM)
  | delivered (hop : req.WellFormed .dequeue) (hi : Idle s req.lrForward)
      (hf : Fetch s io t (some bkt)) (hb : some bkt = t.reCurrentOpen → io.bktAlloc = true)
      (ha : io.rpcAlloc = true)
      (hl : ((sealOpen t bkt io).mem bkt).freed = 0) :
      Served s req io
        (sendBucket (assignBucket (sealOpen t bkt io) req.lrForward bkt) req.lrForward bkt io)
        (sendRc io.send)
  | vacuous (hop : req.WellFormed .clear) (hi : Idle s req.lrForward) :
      Served s req io s 0
  | pending (hop : req.WellFormed .clear) (hh : Holds s req.lrForward bkt)
      (hc : s.reCleanupNext = some head)
      (hr : lrbReady (acknowledgeBucket s req.lrForward bkt) (io.garbage.afterAck s bkt)
        head = false) :
      Served s req io
        (logAck (acknowledgeBucket s req.lrForward bkt) req.lrForward 0 io.send)
        (sendRc io.send)
  | failed (hop : req.WellFormed .clear) (hh : Holds s req.lrForward bkt)
      (hc : s.reCleanupNext = some head)
      (hr : lrbReady (acknowledgeBucket s req.lrForward bkt) (io.garbage.afterAck s bkt)
        head = true)
      (he : recBucketMaxIndex s head = .ok endrec) (hrc : io.clearRc 0 < 0) :
      Served s req io
        (logClear (acknowledgeBucket s req.lrForward bkt) endrec (io.clearRc 0)) (io.clearRc 0)
  | purged (hop : req.WellFormed .clear) (hh : Holds s req.lrForward bkt)
      (hc : s.reCleanupNext = some head)
      (hr : lrbReady (acknowledgeBucket s req.lrForward bkt) (io.garbage.afterAck s bkt)
        head = true)
      (he : recBucketMaxIndex s head = .ok endrec) (hrc : 0 ≤ io.clearRc 0)
      (hl : head ∈ s.reBuckets) :
      Served s req io
        (logAck (recBucketDestroy
          (logClear (acknowledgeBucket s req.lrForward bkt) endrec (io.clearRc 0)) head)
          req.lrForward 0 io.send)
        (sendRc io.send)

/-! ## Each handler returns in one of these ways -/

theorem Entitled.code (h : Entitled s req) (hcode : rpcOpType req.opType = some op) :
    (op = .dequeue ∧ req.WellFormed .dequeue ∧ Idle s req.lrForward) ∨
      (op = .clear ∧ req.WellFormed .clear ∧ (clientStateGet s req.lrForward).isSome = true) := by
  rcases h with ⟨hop, hi⟩ | ⟨hop, hk⟩
  · exact .inl ⟨Option.some.inj (hcode.symm.trans hop.2.1), hop, hi⟩
  · exact .inr ⟨Option.some.inj (hcode.symm.trans hop.2.1), hop, hk⟩

theorem not_entitled_of_code (hcode : rpcOpType req.opType = some op) (hd : op ≠ .dequeue)
    (hc : op ≠ .clear) : ¬ Entitled s req := by
  intro h
  rcases h.code hcode with ⟨he, _⟩ | ⟨he, _⟩
  · exact hd he
  · exact hc he

theorem start_served (hhdr : sizeofHdr ≤ req.lrBody.length)
    (hcode : rpcOpType req.opType = some .start)
    (h : readerHandleStart s req io = (t, rc)) : Served s req io t rc := by
  have hno : ¬ Entitled s req := not_entitled_of_code hcode (by decide) (by decide)
  unfold readerHandleStart at h
  split at h
  · cases h; exact .refused einval_neg hno
  rename_i hlen
  have hop : req.WellFormed .start := ⟨hhdr, hcode, Nat.le_of_not_lt hlen⟩
  split at h
  · cases h; exact .refused ealready_neg hno
  rename_i hn
  split at h
  · cases h; exact .refused enomem_neg hno
  split at h
  · cases h; exact .refused enomem_neg hno
  · cases h
    exact .registered hop (by simpa using hn)

theorem fini_served (hhdr : sizeofHdr ≤ req.lrBody.length)
    (hcode : rpcOpType req.opType = some .fini)
    (h : readerHandleFini s req io = (t, rc)) : Served s req io t rc := by
  have hno : ¬ Entitled s req := not_entitled_of_code hcode (by decide) (by decide)
  unfold readerHandleFini at h
  split at h
  · cases h; exact .refused eproto_neg hno
  rename_i hlen
  have hop : req.WellFormed .fini := ⟨hhdr, hcode, Nat.le_of_not_lt hlen⟩
  split at h
  · cases h; exact .refused eproto_neg hno
  · rename_i hn
    cases h
    exact .deregistered hop (by simpa [Option.isSome_iff_ne_none] using hn)

/-- What `enqueue_rec` leaves once the bucket has been assigned. -/
theorem enqueue_cases (h : enqueueRec s cid bkt io = .ok (t, rc)) :
    (io.rpcAlloc = false ∧ t = s ∧ rc = -ENOMEM) ∨
    (io.rpcAlloc = true ∧ (s.mem bkt).freed = 0 ∧
      t = sendBucket s cid bkt io ∧ rc = sendRc io.send) := by
  unfold enqueueRec at h
  simp only [pure, Except.pure] at h
  split at h
  · rename_i ha
    cases h
    exact .inl ⟨by simpa using ha, rfl, rfl⟩
  · rename_i ha
    split at h
    · cases h
    · rename_i hl
      cases h
      exact .inr ⟨by simpa using ha, Nat.eq_zero_of_not_pos hl, rfl, rfl⟩

theorem dequeue_served (hhdr : sizeofHdr ≤ req.lrBody.length)
    (hcode : rpcOpType req.opType = some .dequeue)
    (h : readerHandleDequeue s req io = .ok (t, rc)) : Served s req io t rc := by
  have hent : Entitled s req → req.WellFormed .dequeue ∧ Idle s req.lrForward := by
    intro he
    rcases he.code hcode with ⟨_, h⟩ | ⟨h, _⟩
    · exact h
    · cases h
  unfold readerHandleDequeue at h
  simp only [pure, Except.pure] at h
  split at h
  · rename_i hlen
    cases h
    exact .refused eproto_neg (fun he => absurd (hent he).1.2.2 (Nat.not_le_of_lt hlen))
  rename_i hlen
  have hop : req.WellFormed .dequeue := ⟨hhdr, hcode, Nat.le_of_not_lt hlen⟩
  split at h
  case h_2 hcs =>
    cases h
    refine .refused eproto_neg ?_
    intro he
    obtain ⟨cs, hg, _⟩ := (hent he).2
    exact hcs cs hg
  rename_i cs hcs
  split at h
  · rename_i hb
    cases h
    refine .refused eproto_neg ?_
    intro he
    obtain ⟨cs', hg, hn⟩ := (hent he).2
    rw [hcs] at hg
    cases hg
    simp [hn] at hb
  rename_i hb
  have hi : Idle s req.lrForward := ⟨cs, hcs, by simpa using hb⟩
  obtain ⟨⟨u, b⟩, hg, h⟩ := bind_ok h
  have hf := fetch_of_get hg
  simp only at h
  split at h
  case h_2 hne =>
    cases h
    cases b with
    | none =>
      cases hf with
      | eof hc hx hd => exact .eof hop hi (.eof hc hx hd)
    | some bkt => exact absurd rfl (hne bkt)
  rename_i bkt
  by_cases ho : some bkt = u.reCurrentOpen
  · simp only [if_pos ho, recBucketAdd] at h
    cases ha : io.bktAlloc with
    | false =>
      simp only [ha, ENOMEM] at h
      cases h
      exact .unopened hop hi hf ho ha
    | true =>
      simp only [ha, ↓reduceIte, ne_eq, not_true_eq_false] at h
      have hs : openBucket u (callocBlock u io.bktBlock) = sealOpen u bkt io := by
        simp [sealOpen, ho]
      rw [hs] at h
      rcases enqueue_cases h with ⟨hp, rfl, rfl⟩ | ⟨hp, hl, rfl, rfl⟩
      · exact .unpacked hop hi hf (fun _ => ha) hp
      · exact .delivered hop hi hf (fun _ => ha) hp hl
  · simp only [if_neg ho, ne_eq, not_true_eq_false, ↓reduceIte] at h
    have hs : u = sealOpen u bkt io := by simp [sealOpen, ho]
    rw [hs] at h
    rcases enqueue_cases h with ⟨hp, rfl, rfl⟩ | ⟨hp, hl, rfl, rfl⟩
    · exact .unpacked hop hi hf (fun h' => absurd h' ho) hp
    · exact .delivered hop hi hf (fun h' => absurd h' ho) hp hl

theorem ln_next_erase {l : List Nat} (hn : l.Nodup) : lnNext (l.erase p) p = none := by
  have hp : p ∉ l.erase p := fun h => (List.Nodup.mem_erase_iff hn).mp h |>.1 rfl
  exact ln_next_none hp

/-- The loop ends behind the first bucket it removes, whatever follows it:
`list_remove` has cleared the link by which it would go on. -/
theorem clear_loop_stops (hn : s.reBuckets.Nodup) (fuel k : Nat) :
    clearLoop io g fuel k (recBucketDestroy s bkt)
      (bucketNext (recBucketDestroy s bkt) (some bkt)) =
      .ok (recBucketDestroy s bkt, none) := by
  have hnext : bucketNext (recBucketDestroy s bkt) (some bkt) = none := ln_next_erase hn
  rw [hnext]
  cases fuel <;> rfl

theorem max_index_acknowledge (s : ReaderEnv) (cid : ConnId) (bkt head : Nat) :
    recBucketMaxIndex (acknowledgeBucket s cid bkt) head = recBucketMaxIndex s head := by
  unfold recBucketMaxIndex acknowledgeBucket
  by_cases h : head = bkt
  · subst h; simp
  · simp [Function.update_of_ne h]

/-- The index passed upstream: -1 for an empty bucket, else that of its last record. -/
theorem max_index_cases (h : recBucketMaxIndex s p = .ok endrec) :
    ((s.mem p).lrbRecords = [] ∧ endrec = -1) ∨
      ∃ last, (s.mem p).lrbRecords.getLast? = some last ∧
        (s.mem p).freed < (s.mem p).lrbRecords.length ∧ endrec = (last.crIndex : Int) := by
  unfold recBucketMaxIndex at h
  split at h
  · rename_i hnone
    cases h
    exact .inl ⟨List.getLast?_eq_none_iff.mp hnone, rfl⟩
  · rename_i last hlast
    split at h
    · rename_i hlive
      cases h
      exact .inr ⟨last, hlast, hlive, rfl⟩
    · cases h

theorem clear_served (hn : s.reBuckets.Nodup) (hhdr : sizeofHdr ≤ req.lrBody.length)
    (hcode : rpcOpType req.opType = some .clear)
    (h : readerHandleClear s req io = .ok (t, rc)) : Served s req io t rc := by
  have hent : Entitled s req → req.WellFormed .clear ∧
      (clientStateGet s req.lrForward).isSome = true := by
    intro he
    rcases he.code hcode with ⟨h, _⟩ | ⟨_, h⟩
    · cases h
    · exact h
  unfold readerHandleClear at h
  simp only [pure, Except.pure] at h
  split at h
  · rename_i hlen
    cases h
    exact .refused eproto_neg (fun he => absurd (hent he).1.2.2 (Nat.not_le_of_lt hlen))
  rename_i hlen
  have hop : req.WellFormed .clear := ⟨hhdr, hcode, Nat.le_of_not_lt hlen⟩
  split at h
  case h_2 hcs =>
    cases h
    refine .refused eproto_neg ?_
    intro he
    obtain ⟨cs, hg⟩ := Option.isSome_iff_exists.mp (hent he).2
    exact hcs cs hg
  rename_i cs hcs
  split at h
  case h_2 hne =>
    cases h
    exact .vacuous hop ⟨cs, hcs, Option.eq_none_iff_forall_ne_some.mpr hne⟩
  rename_i bkt hb
  have hh : Holds s req.lrForward bkt := ⟨cs, hcs, hb⟩
  split at h
  case h_2 => cases h
  rename_i head hc
  obtain ⟨⟨u, r⟩, hl, h⟩ := bind_ok h
  have hcl : s.reCleanupNext = some head := hc
  have hbytes : io.garbage.afterAck (acknowledgeBucket s req.lrForward bkt) bkt =
      io.garbage.afterAck s bkt := rfl
  -- the loop's own write of the cursor changes nothing at its first node
  have hself : { acknowledgeBucket s req.lrForward bkt with reCleanupNext := some head } =
      acknowledgeBucket s req.lrForward bkt := by
    simp [acknowledgeBucket, hcl]
  unfold clearLoop at hl
  simp only [pure, Except.pure] at hl
  rw [hbytes, hself, max_index_acknowledge] at hl
  split at hl
  · rename_i hr
    cases hl
    cases h
    exact .pending hop hh hcl (by simpa using hr)
  rename_i hr
  simp only [Bool.not_eq_eq_eq_not, Bool.not_true, Bool.not_eq_false] at hr
  obtain ⟨endrec, he, hl⟩ := bind_ok hl
  split at hl
  · rename_i hrc
    cases hl
    cases h
    exact .failed hop hh hcl hr he hrc
  rename_i hrc
  split at hl
  · cases hl
  rename_i hm
  rw [clear_loop_stops (by exact hn)] at hl
  cases hl
  cases h
  exact .purged hop hh hcl hr he (by omega) (by simpa [acknowledgeBucket, ReaderEnv.log] using hm)

theorem dispatch_served (hn : s.reBuckets.Nodup) (h : rpcDispatch s req io = .ok (t, rc)) :
    Served s req io t rc := by
  unfold rpcDispatch at h
  split at h
  · rename_i hlen
    cases h
    refine .refused eproto_neg ?_
    rintro (⟨hop, _⟩ | ⟨hop, _⟩)
    · exact absurd hop.1 (Nat.not_le_of_lt hlen)
    · exact absurd hop.1 (Nat.not_le_of_lt hlen)
  rename_i hlen
  have hhdr : sizeofHdr ≤ req.lrBody.length := Nat.le_of_not_lt hlen
  split at h
  · rename_i hnone
    cases h
    refine .refused einval_neg ?_
    rintro (⟨hop, _⟩ | ⟨hop, _⟩)
    · cases hnone.symm.trans hop.2.1
    · cases hnone.symm.trans hop.2.1
  rename_i op hop
  cases op with
  | start => exact start_served hhdr hop (Except.ok.inj h)
  | dequeue => exact dequeue_served hhdr hop h
  | clear => exact clear_served hn hhdr hop h
  | fini => exact fini_served hhdr hop (Except.ok.inj h)
  | enqueue | ack | signal =>
    cases h
    exact .refused eproto_neg (not_entitled_of_code hop (by decide) (by decide))

/-- The dispatcher answers errors and the end of the stream itself. -/
def answered (s : ReaderEnv) (req : LcapnetRequest) (io : RpcIo) (rc : Int) : ReaderEnv :=
  if rc < 0 ∨ rc = 1 then logAck s req.lrForward rc io.ackSend else s

theorem answered_preserve {P : ReaderEnv → Prop}
    (hack : ∀ s ret out, P s → P (logAck s req.lrForward ret out)) (hs : P s) (rc : Int) :
    P (answered s req io rc) := by
  unfold answered
  split
  · exact hack s rc io.ackSend hs
  · exact hs

theorem dispatch_of_hdl (h : changelogReaderRpcHdl s req io = .ok (t, rc)) :
    ∃ u r, rpcDispatch s req io = .ok (u, r) ∧ t = answered u req io r := by
  unfold changelogReaderRpcHdl at h
  simp only [pure, Except.pure] at h
  obtain ⟨⟨u, r⟩, hd, h⟩ := bind_ok h
  refine ⟨u, r, hd, ?_⟩
  unfold answered
  simp only at h
  split at h
  · rename_i hr
    cases h
    simp [hr, logAck]
  · rename_i hr
    cases h
    simp [hr]

theorem request_served (hn : s.reBuckets.Nodup)
    (h : changelogReaderRpcHdl s req io = .ok (t, rc)) :
    ∃ u r, Served s req io u r ∧ t = answered u req io r := by
  obtain ⟨u, r, hd, ht⟩ := dispatch_of_hdl h
  exact ⟨u, r, dispatch_served hn hd, ht⟩

/-! ## What a call of `changelog_reader_enqueue` does -/

/-- Storing a record, in the open bucket or in a new one behind a full one. -/
inductive Stored (s : ReaderEnv) (rec : ChangelogRec) (block : Option Nat) : ReaderEnv → Prop
  | insert (ho : s.reCurrentOpen = some current)
      (hc : lrbRecCount s current < s.reCfg.ccfRecBatchCount) :
      Stored s rec block (recInsert s current rec)
  | spill (hfull : ∀ current, s.reCurrentOpen = some current →
        lrbRecCount s current = s.reCfg.ccfRecBatchCount)
      (hpos : 0 < s.reCfg.ccfRecBatchCount) :
      Stored s rec block
        (recInsert (openBucket s (callocBlock s block)) (callocBlock s block) rec)

theorem store_cases (h : changelogReaderRecStore s rec alloc block = .ok (t, rc)) :
    (rc = -ENOMEM ∧ t = s ∧ alloc = false) ∨ (rc = 0 ∧ Stored s rec block t) := by
  unfold changelogReaderRecStore recBucketAdd at h
  simp only [pure, Except.pure] at h
  by_cases hn : needsBucket s
  · cases ha : alloc with
    | false =>
      simp only [hn, ha, ENOMEM] at h
      cases h
      exact .inl ⟨rfl, rfl, rfl⟩
    | true =>
      have ho : (openBucket s (callocBlock s block)).reCurrentOpen =
          some (callocBlock s block) := rfl
      simp only [hn, ha, ↓reduceIte, ne_eq, not_true_eq_false, ho] at h
      split at h
      · cases h
      · rename_i hlt
        cases h
        refine .inr ⟨rfl, .spill ?_ ?_⟩
        · intro current hcur
          simpa [needsBucket, hcur] using hn
        · simpa [lrbRecCount, openBucket] using hlt
  · simp only [hn, Bool.false_eq_true, ↓reduceIte, ne_eq, not_true_eq_false] at h
    split at h
    · rename_i current hcur
      split at h
      · cases h
      · rename_i hlt
        cases h
        exact .inr ⟨rfl, .insert hcur (by simpa using hlt)⟩
    · cases h

/-- The block that `calloc` may hand out again when the record needs a new bucket. -/
def blockNamed : RecvEvent → Option Nat
  | .recv _ _ block => block
  | .fail _ | .sigterm => none

/-- The blocks that may be handed out again in a step. -/
def blocksNamed : Label → List Nat
  | .enqueue _ script => script.filterMap blockNamed
  | .request _ io => io.bktBlock.toList
  | .sigterm => []

/-- What the reading loop keeps: it must survive a signal and each stored record,
for which there always is room. -/
theorem recv_loop_preserve {P : ReaderEnv → Prop}
    (hsig : ∀ s, P s → P { s with terminateSig := true })
    (hstore : ∀ s rec block t, P s → s.terminateSig = false → s.reSrec ≤ rec.crIndex →
      changelogReaderFull s = false → (∀ b ∈ block, b ∈ script.filterMap blockNamed) →
      Stored s rec block t → P (recCounted t rec))
    (h : recvLoop s n script = .ok (t, rc, rest)) (hroom : changelogReaderFull s = false)
    (hs : P s) : P t := by
  induction script generalizing s n with
  | nil => simp [recvLoop] at h
  | cons e script ih =>
    have hrest : ∀ b ∈ script.filterMap blockNamed, b ∈ (e :: script).filterMap blockNamed :=
      ((List.sublist_cons_self e script).filterMap blockNamed).subset
    have ih := fun {s n} => ih (s := s) (n := n) fun s rec block t hs ht hi hr hb =>
      hstore s rec block t hs ht hi hr fun b hm => hrest b (hb b hm)
    cases e with
    | sigterm => exact ih h hroom (hsig s hs)
    | fail r =>
      simp only [recvLoop] at h
      cases h
      exact hs
    | recv rec alloc block =>
      simp only [recvLoop, pure, Except.pure] at h
      split at h
      · cases h; exact hs
      rename_i hterm
      split at h
      · exact ih h hroom hs
      rename_i hidx
      obtain ⟨⟨u, r⟩, hst, hk⟩ := bind_ok h
      rcases store_cases hst with ⟨rfl, rfl, _⟩ | ⟨rfl, hstored⟩
      · simp only [ENOMEM] at hk
        cases hk
        exact hs
      have hu : P (recCounted u rec) :=
        hstore s rec block u hs (by simpa using hterm) (by omega) hroom
          (fun b hb => List.mem_filterMap.mpr ⟨_, List.mem_cons_self, hb⟩) hstored
      simp only [ne_eq, not_true_eq_false, ↓reduceIte] at hk
      split at hk
      · cases hk; exact hu
      · rename_i hmore
        exact ih hk (Bool.eq_false_iff.mpr fun hfull => hmore (.inr hfull)) hu

theorem enqueue_preserve {P : ReaderEnv → Prop}
    (hopen : ∀ s b, P s → P { s with reClpriv := b })
    (hsig : ∀ s, P s → P { s with terminateSig := true })
    (hstore : ∀ s rec block t, P s → s.terminateSig = false → s.reSrec ≤ rec.crIndex →
      changelogReaderFull s = false → (∀ b ∈ block, b ∈ script.filterMap blockNamed) →
      Stored s rec block t → P (recCounted t rec))
    (h : changelogReaderEnqueue s startRc script = .ok (t, rc, rest)) (hs : P s) : P t := by
  unfold changelogReaderEnqueue at h
  simp only [pure, Except.pure] at h
  split at h
  · cases h; exact hs
  rename_i hroom
  split at h
  · cases h; exact hs
  obtain ⟨⟨u, r, rest'⟩, hl, h⟩ := bind_ok h
  cases h
  exact hopen _ _ (recv_loop_preserve hsig hstore hl (Bool.eq_false_iff.mpr hroom) (hopen _ _ hs))

theorem enqueue_step (h : readerStep s (.enqueue startRc script) = some t) :
    s.stopped = false ∧ s.terminateSig = false ∧
      ∃ u rc, changelogReaderEnqueue s startRc script = .ok (u, rc, []) ∧
        t = { u with stopped := decide (rc < 0) } := by
  simp only [readerStep] at h
  split at h
  · cases h
  rename_i hrun
  simp only [Bool.or_eq_true, not_or, Bool.not_eq_true] at hrun
  split at h
  · rename_i u rc he
    exact ⟨hrun.1, hrun.2, u, rc, he, (Option.some.inj h).symm⟩
  · cases h

theorem request_step (h : readerStep s (.request req io) = some t) :
    ∃ rc, changelogReaderRpcHdl s req io = .ok (t, rc) := by
  simp only [readerStep] at h
  split at h
  · cases h
  split at h
  · rename_i u rc he
    obtain rfl := Option.some.inj h
    exact ⟨rc, he⟩
  · cases h

/-- One step of the reader keeps what its parts keep. A step under a condition
passes the condition on to the request it serves and the buckets it allocates. -/
theorem step_preserve {P : ReaderEnv → Prop}
    (hflags : ∀ s b c d, P s → P { s with reClpriv := b, terminateSig := c, stopped := d })
    (hstore : ∀ s rec block t, P s → s.terminateSig = false → s.reSrec ≤ rec.crIndex →
      changelogReaderFull s = false → (∀ b ∈ block, b ∈ blocksNamed l) → Stored s rec block t →
      P (recCounted t rec))
    (hrequest : ∀ req io t rc, l = .request req io →
      changelogReaderRpcHdl s req io = .ok (t, rc) → P t)
    (h : readerStep s l = some t) (hs : P s) : P t := by
  cases l with
  | enqueue startRc script =>
    obtain ⟨_, _, u, rc, he, rfl⟩ := enqueue_step h
    exact hflags u u.reClpriv u.terminateSig _ (enqueue_preserve
      (fun s b => hflags s b s.terminateSig s.stopped)
      (fun s => hflags s s.reClpriv true s.stopped) hstore he hs)
  | request req io =>
    obtain ⟨rc, he⟩ := request_step h
    exact hrequest req io t rc rfl he
  | sigterm =>
    cases h
    exact hflags s s.reClpriv true s.stopped hs

end Lcap.Proofs
