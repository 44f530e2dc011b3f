import Lcap.Proofs.ClearsSeen
import Lcap.Wire.Holder

namespace Lcap.Proofs
open Systems Wire
open Client (recvBufferLength)

/-- The reply is received to its end, and fits the buffer. -/
def ReceivedWhole (io : DequeueIo) (reply : Parts UInt8) : Prop :=
  (∀ k < reply.length, (io.frame k).recv = none ∧ (io.frame k).getsockopt = none) ∧
    reply.flatten.length ≤ recvBufferLength

instance (io : DequeueIo) (reply : Parts UInt8) : Decidable (ReceivedWhole io reply) :=
  inferInstanceAs (Decidable (_ ∧ _))

/-- The message passes for a success and brings no record. -/
def Recordless (L : RecLayout) (bytes : List UInt8) : Prop :=
  rpcOpType (leField bytes 0 4) = some .ack ∧ sizeofAck ≤ bytes.length ∧ prRetcode bytes = 0 ∨
    rpcOpType (leField bytes 0 4) = some .enqueue ∧ sizeofEnqueue + L.sizeofRec ≤ bytes.length ∧
      prCount bytes = 0

instance (L : RecLayout) (bytes : List UInt8) : Decidable (Recordless L bytes) :=
  inferInstanceAs (Decidable (_ ∧ _ ∨ _ ∧ _))

/-- When the cache is used up, a record is freed only while no other one held lies in the
buffer at hand, and a request for more is answered by records or by an error. -/
def Prompt (L : RecLayout) (x : Holder) : HolderMove → Prop
  | .recv io reply => x.cache.recNxt = x.cache.recCnt → io.send = none → io.alloc = true →
    ReceivedWhole io reply → ¬ Recordless L reply.flatten
  | .free rec => x.cache.recNxt = x.cache.recCnt →
    ∀ other ∈ x.held.erase rec, x.cache.recBuff ≠ some other.buf

instance (L : RecLayout) (x : Holder) : (move : HolderMove) → Decidable (Prompt L x move)
  | .recv _ _ => inferInstanceAs (Decidable (_ → _ → _ → _ → _))
  | .free _ => inferInstanceAs (Decidable (_ → ∀ other ∈ x.held.erase _, _))

/-! ## What a reply does to the cache -/

/-- The buffer has been cached as a batch of at least one record. -/
structure Batch (z : PxCache) (buf : Nat) : Prop where
  nxt : z.recNxt = 0
  pos : 0 < z.recCnt
  buff : z.recBuff = some buf
  records : ∃ arr, z.records = some arr ∧ ∀ p ∈ arr.take z.recCnt, p.buf = buf

/-- Memory after a reply: the new buffer has been kept or released. -/
structure Extended (z z' : PxCache) (kept : Option (Nat → UInt8)) : Prop where
  heap : z'.heap = Function.update z.heap z.nextBuf kept
  next : z'.nextBuf = z.nextBuf + 1

theorem free_malloc (z : PxCache) (m : Nat → UInt8) :
    Extended z ((z.malloc m).free z.nextBuf) none :=
  ⟨Function.update_idem _ _ _, rfl⟩

theorem cache_records_batch {L : RecLayout} (hcount : 0 < count)
    (h : cacheRecords L z buf m count records = .ok (z', rc)) :
    rc = 0 ∧ Batch z' buf ∧ z'.heap = z.heap ∧ z'.nextBuf = z.nextBuf := by
  unfold cacheRecords at h
  split at h
  · rw [if_neg (Nat.ne_of_gt hcount)] at h
    cases h
  · split at h
    · cases h
    · cases h
      refine ⟨rfl, ⟨rfl, hcount, rfl, _, rfl, ?_⟩, rfl, rfl⟩
      intro p hp
      rw [List.take_left' (by rw [List.length_map, walk_length])] at hp
      obtain ⟨off, _, rfl⟩ := List.mem_map.mp hp
      rfl

/-- A reply that does not pass for a success without records is cached as a batch, or
refused and its buffer released. -/
theorem handle_reply_cases {L : RecLayout} (h : handleReply L io z reply = .ok (z', rc))
    (hrec : ReceivedWhole io reply → ¬ Recordless L reply.flatten) :
    (rc = 0 ∧ Batch z' z.nextBuf ∧ ∃ m, Extended z z' (some m)) ∨
      (rc ≠ 0 ∧ z'.recNxt = z.recNxt ∧ z'.recCnt = z.recCnt ∧ z'.recBuff = z.recBuff ∧
        Extended z z' none) := by
  have hneg : ∀ {rc : Int}, rc < 0 → rc ≠ 0 := fun hlt => Int.ne_of_lt hlt
  have hfilled : ∀ {m count records}, 0 < count →
      cacheRecords L (z.malloc m) z.nextBuf m count records = .ok (z', rc) →
      rc = 0 ∧ Batch z' z.nextBuf ∧ ∃ m, Extended z z' (some m) := by
    intro m count records hcount hc
    obtain ⟨hrc, hbatch, hheap, hnext⟩ := cache_records_batch hcount hc
    exact ⟨hrc, hbatch, m, hheap, hnext⟩
  unfold handleReply at h
  simp only at h
  split at h
  · rename_i hlt
    cases h
    exact .inr ⟨hneg hlt, rfl, rfl, rfl, free_malloc z _⟩
  rename_i hpos
  obtain ⟨hbytes, hrcvd, _⟩ := rep_recv_read rfl hpos
  rw [List.nil_append] at hbytes
  have hio := rep_recv_whole (Nat.zero_le _) hpos
  have hwhole : ReceivedWhole io reply := by
    simpa [ReceivedWhole] using hio
  replace hrec := hrec hwhole
  rw [hrcvd, hbytes] at h
  split at h
  · cases h
    exact .inr ⟨hneg einval_neg, rfl, rfl, rfl, free_malloc z _⟩
  split at h
  · rename_i hop
    split at h
    · cases h
      exact .inr ⟨hneg einval_neg, rfl, rfl, rfl, free_malloc z _⟩
    rename_i hlong
    split at h
    · rename_i hrc
      cases h
      exact .inr ⟨hrc, rfl, rfl, rfl, free_malloc z _⟩
    · rename_i hrc
      exact absurd (.inl ⟨hop, by omega, not_not.mp hrc⟩) hrec
  · rename_i hop
    split at h
    · cases h
      exact .inr ⟨hneg einval_neg, rfl, rfl, rfl, free_malloc z _⟩
    rename_i hlong
    have hcount : 0 < prCount reply.flatten := by
      by_contra hzero
      exact hrec (.inr ⟨hop, by omega, by omega⟩)
    split at h
    · split at h
      · exact .inl (hfilled hcount h)
      · cases h
        exact .inr ⟨hneg enomem_neg, rfl, rfl, rfl, (free_malloc z _).heap, rfl⟩
    · exact .inl (hfilled hcount h)
  · cases h
    exact .inr ⟨hneg eproto_neg, rfl, rfl, rfl, free_malloc z _⟩

/-! ## What an application holds -/

/-- The records still to be given lie in the buffer at hand, and that buffer and those of
the records held are allocated. -/
structure Custody (x : Holder) : Prop where
  next : x.cache.recNxt ≤ x.cache.recCnt
  buff : ∀ b, x.cache.recBuff = some b → (x.cache.heap b).isSome
  below : ∀ b, (x.cache.heap b).isSome → b < x.cache.nextBuf
  pending : x.cache.recNxt < x.cache.recCnt → ∃ b arr, x.cache.recBuff = some b ∧
    x.cache.records = some arr ∧ ∀ p ∈ arr.take x.cache.recCnt, p.buf = b
  live : ∀ p ∈ x.held, x.cache.Live p

section
variable {L : RecLayout} {x y : Holder} {z z' : PxCache} {io : DequeueIo}

/-- A buffer that is allocated is not the one that the next reply gets. -/
theorem Extended.keeps (h : Extended z z' kept) (hbelow : ∀ b, (z.heap b).isSome → b < z.nextBuf)
    (hb : (z.heap b).isSome) : (z'.heap b).isSome := by
  rw [h.heap, Function.update_of_ne (Nat.ne_of_lt (hbelow b hb))]
  exact hb

theorem Extended.below (h : Extended z z' kept) (hbelow : ∀ b, (z.heap b).isSome → b < z.nextBuf)
    (hb : (z'.heap b).isSome) : b < z'.nextBuf := by
  rw [h.next]
  by_cases he : b = z.nextBuf
  · exact he ▸ Nat.lt_succ_self _
  · rw [h.heap, Function.update_of_ne he] at hb
    exact Nat.lt_succ_of_lt (hbelow b hb)

/-- A request that is refused leaves an application with what it had. -/
theorem Custody.refused (h : Custody x) (hempty : x.cache.recNxt = x.cache.recCnt)
    (hnxt : z.recNxt = x.cache.recNxt) (hcnt : z.recCnt = x.cache.recCnt)
    (hbuff : z.recBuff = x.cache.recBuff) (hext : Extended x.cache z none) :
    Custody { x with cache := z } where
  next := by rw [hnxt, hcnt]; exact h.next
  buff b hb := hext.keeps h.below (h.buff b (hbuff ▸ hb))
  below _ hb := hext.below h.below hb
  pending hlt := by
    rw [hnxt, hcnt, hempty] at hlt
    exact absurd hlt (Nat.lt_irrefl _)
  live p hp := hext.keeps h.below (h.live p hp)

/-- A new batch replaces the buffer at hand, which is not released. -/
theorem Custody.batch (h : Custody x) (hb : Batch z x.cache.nextBuf)
    (hext : Extended x.cache z (some m)) : Custody { x with cache := z } where
  next := by rw [hb.nxt]; exact Nat.zero_le _
  buff b he := by
    obtain rfl : b = x.cache.nextBuf := Option.some.inj (he.symm.trans hb.buff)
    rw [hext.heap, Function.update_self]
    rfl
  below _ hb := hext.below h.below hb
  pending _ := by
    obtain ⟨arr, ha, hall⟩ := hb.records
    exact ⟨_, arr, hb.buff, ha, hall⟩
  live p hp := hext.keeps h.below (h.live p hp)

/-- A record that is given lies in the buffer at hand. -/
theorem Custody.given (h : Custody x) (hlt : x.cache.recNxt < x.cache.recCnt)
    (hn : takeNext x.cache = .ok (z, .record p)) : Custody ⟨z, x.held ++ [p]⟩ := by
  obtain ⟨b, arr, hb, ha, hall⟩ := h.pending hlt
  unfold takeNext at hn
  rw [ha] at hn
  simp only at hn
  split at hn
  · cases hn
  rename_i hget
  cases hn
  have hp : p ∈ arr.take x.cache.recCnt := by
    refine List.mem_of_getElem? (i := x.cache.recNxt) ?_
    rw [List.getElem?_take, if_pos hlt, hget]
  refine ⟨hlt, h.buff, h.below, fun _ => ⟨b, arr, hb, rfl, hall⟩, ?_⟩
  intro q hq
  rcases List.mem_append.mp hq with hq | hq
  · exact h.live q hq
  · obtain rfl := List.mem_singleton.mp hq
    exact h.buff q.buf (hb.trans (congrArg some (hall q hp).symm))

theorem take_next_record (hn : takeNext z = .ok (z', res)) : ∃ p, res = .record p := by
  unfold takeNext at hn
  split at hn
  · cases hn
  split at hn
  · cases hn
  · cases hn
    exact ⟨_, rfl⟩

/-- A call takes from the cache what there is, or else asks for more, which may fail
before there is a reply. -/
theorem recv_outcome_cases (L : RecLayout) (io : DequeueIo) (z : PxCache) (reply : Parts UInt8) :
    (z.recNxt ≠ z.recCnt ∧ recvOutcome L io z reply = takeNext z) ∨
      z.recNxt = z.recCnt ∧ ((∃ rc, recvOutcome L io z reply = .ok (z, .code rc)) ∨
        io.send = none ∧ io.alloc = true ∧
          recvOutcome L io z reply = afterReply (handleReply L io z reply)) := by
  rcases recv_cases L io z with ⟨hne, htake⟩ | ⟨hempty,
    ⟨rc, hcode⟩ | ⟨hsend, ⟨rc, hleave⟩ | ⟨halloc, hask⟩⟩⟩
  · exact .inl ⟨hne, by rw [recvOutcome, htake]⟩
  · exact .inr ⟨hempty, .inl ⟨rc, by rw [recvOutcome, hcode]⟩⟩
  · exact .inr ⟨hempty, .inl ⟨rc, by rw [recvOutcome, hleave]⟩⟩
  · exact .inr ⟨hempty, .inr ⟨hsend, halloc, by rw [recvOutcome, hask]⟩⟩

theorem recv_step (h : recvOutcome L io x.cache reply = .ok (z, res))
    (hs : holderStep L x (.recv io reply) = some y) :
    (∃ p, res = .record p ∧ y = ⟨z, x.held ++ [p]⟩) ∨
      ∃ rc, res = .code rc ∧ y = { x with cache := z } := by
  simp only [holderStep, h] at hs
  cases res with
  | record p => exact .inl ⟨p, rfl, (Option.some.inj hs).symm⟩
  | code rc => exact .inr ⟨rc, rfl, (Option.some.inj hs).symm⟩

theorem Custody.take (h : Custody { x with cache := z }) (hlt : z.recNxt < z.recCnt)
    (ho : recvOutcome L io x.cache reply = takeNext z)
    (hs : holderStep L x (.recv io reply) = some y) : Custody y := by
  cases hn : takeNext z with
  | error c =>
    rw [hn] at ho
    simp [holderStep, ho] at hs
  | ok taken =>
    obtain ⟨z', res⟩ := taken
    obtain ⟨p, rfl⟩ := take_next_record hn
    rcases recv_step (ho.trans hn) hs with ⟨p', hp, rfl⟩ | ⟨rc, hrc, _⟩
    · cases hp
      exact h.given hlt hn
    · cases hrc

theorem Custody.recv (h : Custody x) (hc : Prompt L x (.recv io reply))
    (hs : holderStep L x (.recv io reply) = some y) : Custody y := by
  rcases recv_outcome_cases L io x.cache reply with
    ⟨hne, ho⟩ | ⟨hempty, ⟨rc, ho⟩ | ⟨hsend, halloc, ho⟩⟩
  · exact h.take (Nat.lt_of_le_of_ne h.next hne) ho hs
  · rcases recv_step ho hs with ⟨p, hp, _⟩ | ⟨_, _, rfl⟩
    · cases hp
    · exact h
  · cases hr : handleReply L io x.cache reply with
    | error c =>
      rw [hr] at ho
      simp [holderStep, ho, afterReply] at hs
    | ok handled =>
      obtain ⟨z, rc⟩ := handled
      rw [hr] at ho
      rcases handle_reply_cases hr (hc hempty hsend halloc) with
        ⟨rfl, hb, m, hext⟩ | ⟨hrc, hnxt, hcnt, hbuff, hext⟩
      · simp only [afterReply, ne_eq, not_true_eq_false, if_false] at ho
        exact (h.batch hb hext).take (by rw [hb.nxt]; exact hb.pos) ho hs
      · simp only [afterReply, if_pos hrc] at ho
        rcases recv_step ho hs with ⟨p, hp, _⟩ | ⟨_, _, rfl⟩
        · cases hp
        · exact h.refused hempty hnxt hcnt hbuff hext

/-- The call releases the buffer at hand when the cache is used up, whoever holds records
of it. -/
theorem free_cases (z : PxCache) :
    pxChangelogFree z = z ∧ (z.recNxt = z.recCnt → z.recBuff = none) ∨
      ∃ b, z.recNxt = z.recCnt ∧ z.recBuff = some b ∧
        pxChangelogFree z = { z.free b with recBuff := none } := by
  unfold pxChangelogFree
  split
  · rename_i hempty
    cases hb : z.recBuff with
    | none => exact .inl ⟨rfl, fun _ => rfl⟩
    | some b => exact .inr ⟨b, hempty, rfl, rfl⟩
  · rename_i hne
    exact .inl ⟨rfl, fun he => absurd he hne⟩

theorem free_step (hs : holderStep L x (.free r) = some y) :
    y = ⟨pxChangelogFree x.cache, x.held.erase r⟩ := by
  simp only [holderStep] at hs
  split at hs
  · exact (Option.some.inj hs).symm
  · cases hs

theorem live_free (z : PxCache) (b : Nat) (p : Ptr) :
    ({ z.free b with recBuff := none } : PxCache).Live p ↔ p.buf ≠ b ∧ z.Live p := by
  by_cases he : p.buf = b
  · simp [PxCache.Live, PxCache.free, he]
  · simp [PxCache.Live, PxCache.free, he]

/-- Freeing a record leaves the others valid exactly when none of them lies in a buffer
that is released. -/
theorem Custody.free_live (h : Custody x) (hs : holderStep L x (.free r) = some y) :
    (∀ p ∈ y.held, y.cache.Live p) ↔ Prompt L x (.free r) := by
  obtain rfl := free_step hs
  have hheld : ∀ p ∈ x.held.erase r, x.cache.Live p :=
    fun p hp => h.live p (List.mem_of_mem_erase hp)
  rcases free_cases x.cache with ⟨hsame, hnone⟩ | ⟨b, hempty, hb, hfree⟩
  · refine iff_of_true ?_ ?_
    · rw [hsame]
      exact hheld
    · intro he other _ hsome
      cases (hnone he).symm.trans hsome
  · rw [hfree]
    constructor
    · intro hall _ other hother hsome
      have hbuf : b = other.buf := Option.some.inj (hb.symm.trans hsome)
      exact ((live_free x.cache b other).mp (hall other hother)).1 hbuf.symm
    · intro hc p hp
      refine (live_free x.cache b p).mpr ⟨?_, hheld p hp⟩
      intro hbuf
      exact hc hempty p hp (hb.trans (congrArg some hbuf.symm))

theorem Custody.free (h : Custody x) (hc : Prompt L x (.free r))
    (hs : holderStep L x (.free r) = some y) : Custody y := by
  have hlive := (h.free_live hs).mpr hc
  obtain rfl := free_step hs
  rcases free_cases x.cache with ⟨hsame, _⟩ | ⟨b, hempty, _, hfree⟩
  · rw [hsame] at hlive ⊢
    exact { h with live := hlive }
  · rw [hfree] at hlive ⊢
    refine ⟨h.next, fun _ hb => (nomatch hb), ?_, ?_, hlive⟩
    · intro b' hb'
      by_cases he : b' = b
      · simp [PxCache.free, he] at hb'
      · simp only [PxCache.free, Function.update_of_ne he] at hb'
        exact h.below b' hb'
    · intro hlt
      exact absurd hempty (Nat.ne_of_lt hlt)

theorem init_custody : Custody (holder L).init where
  next := le_rfl
  buff _ hb := nomatch hb
  below _ hb := nomatch hb
  pending hlt := absurd hlt (Nat.lt_irrefl 0)
  live _ hp := nomatch hp

theorem reach_custody (h : Reach (holder L) (Prompt L) x) : Custody x := by
  refine h.preserve (P := Custody) init_custody ?_
  intro x move y hx hc hs
  cases move with
  | recv io reply => exact hx.recv hc hs
  | free rec => exact hx.free hc hs

/-- No record received and not yet freed lies in a released buffer, in every run that never
frees a record while another one held lies in a buffer that is used up. A call that does
breaks it. -/
theorem held_records_live (h : Reach (holder L) (Prompt L) x) :
    (∀ p ∈ x.held, x.cache.Live p) ∧
      ∀ r y, (holder L).step x (.free r) = some y →
        ((∀ p ∈ y.held, y.cache.Live p) ↔ Prompt L x (.free r)) :=
  ⟨(reach_custody h).live, fun _ _ hs => (reach_custody h).free_live hs⟩

end

namespace Sample

def twoRecords : Parts UInt8 := [packRecords [rawRecord 1, rawRecord 2]]

/-- The application receives both records of a batch before it frees the first. -/
def holding : List HolderMove := [.recv {} twoRecords, .recv {} []]

def holderAfter (moves : List HolderMove) : Holder :=
  replay (holder layout) (holder layout).init moves

end Sample

set_option maxRecDepth 2000 in
theorem held_records_live_two :
    (Sample.holderAfter Sample.holding).cache.Live ⟨0, 12⟩ ∧
      (Sample.holderAfter Sample.holding).cache.Live ⟨0, 80⟩ := by
  have h : Reach (holder Sample.layout) (Prompt Sample.layout)
      (Sample.holderAfter Sample.holding) :=
    steps_of_obeys (by decide +kernel)
  exact ⟨(held_records_live h).1 _ (by decide +kernel),
    (held_records_live h).1 _ (by decide +kernel)⟩

set_option maxRecDepth 2000 in
/-- Freeing the first of the two records releases the buffer of both. -/
theorem second_record_dangles :
    Reach (holder Sample.layout) Always (Sample.holderAfter (Sample.holding ++ [.free ⟨0, 12⟩])) ∧
      (Sample.holderAfter Sample.holding).held = [⟨0, 12⟩, ⟨0, 80⟩] ∧
      (Sample.holderAfter (Sample.holding ++ [.free ⟨0, 12⟩])).held = [⟨0, 80⟩] ∧
      ¬ (Sample.holderAfter (Sample.holding ++ [.free ⟨0, 12⟩])).cache.Live ⟨0, 80⟩ :=
  ⟨steps_of_obeys (by decide +kernel), by decide +kernel, by decide +kernel, by decide +kernel⟩

end Lcap.Proofs
