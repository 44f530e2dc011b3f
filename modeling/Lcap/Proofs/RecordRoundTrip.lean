import Lcap.Proofs.Packing
import Lcap.Wire.Decode

namespace Lcap.Proofs
open Reader Systems Wire
open Client (leBytes le_bytes_length le_field_append packHdr
  pack_hdr_length pack_hdr_op recvBufferLength)

/-- Nothing fails while a reply is asked for, received and cached. -/
structure Calm (io : DequeueIo) : Prop where
  send : io.send = none
  alloc : io.alloc = true
  frame : ∀ k, io.frame k = {}
  grow : io.grow = true

/-- The caches of a client whose arrays have been grown whenever they had to be,
whatever replies it has received and in whatever order it has taken and freed records. -/
inductive Used (L : RecLayout) : PxCache → Prop
  | init : Used L pzdInit
  | returned (h : Used L z) (hr : pxChangelogRecv L io z = .ret (.ok (z', res))) : Used L z'
  | replied (h : Used L z) (hgrow : io.grow = true) (hr : pxChangelogRecv L io z = .ask resume)
      (hrep : resume reply = .ok (z', res)) : Used L z'
  | freed (h : Used L z) : Used L (pxChangelogFree z)

/-- The array has room for as many records as are counted. -/
def Room (z : PxCache) : Prop := ∃ arr, z.records = some arr ∧ z.recCnt ≤ arr.length

theorem Room.congr (h : Room z) (hr : z'.records = z.records)
    (hc : z'.recCnt = z.recCnt) : Room z' := by
  obtain ⟨arr, ha, hle⟩ := h
  exact ⟨arr, hr.trans ha, hc ▸ hle⟩

theorem take_next_room (h : Room z) (hn : takeNext z = .ok (z', res)) : Room z' := by
  unfold takeNext at hn
  split at hn
  · cases hn
  split at hn
  · cases hn
  · cases hn
    exact h.congr rfl rfl

theorem resize_length (records : Option (List Ptr)) (n : Nat) : (resize records n).length = n := by
  simp only [resize, List.length_append, List.length_take, List.length_replicate]
  omega

theorem cache_records_room {L : RecLayout} {arr : List Ptr}
    (h : cacheRecords L z buf m count (some arr) = .ok (z', rc)) : Room z' := by
  unfold cacheRecords at h
  simp only at h
  split at h
  · cases h
  · rename_i hle
    cases h
    refine ⟨_, rfl, ?_⟩
    simp only [List.length_append, List.length_map, walk_length, List.length_drop]
    omega

theorem handle_reply_room {L : RecLayout} (hgrow : io.grow = true) (h : Room z)
    (hr : handleReply L io z reply = .ok (z', rc)) : Room z' := by
  obtain ⟨arr, ha, hle⟩ := h
  have hfree : ∀ m, Room ((z.malloc m).free z.nextBuf) := fun m => ⟨arr, ha, hle⟩
  unfold handleReply at hr
  simp only at hr
  split at hr
  · cases hr; exact hfree _
  split at hr
  · cases hr; exact hfree _
  split at hr
  · split at hr
    · cases hr; exact hfree _
    split at hr
    · cases hr; exact hfree _
    · cases hr; exact ⟨arr, ha, hle⟩
  · split at hr
    · cases hr; exact hfree _
    split at hr
    · exact cache_records_room hr
    · have hmalloc :
          (z.malloc (laid (clRepRecv recvBufferLength io.frame 0 [] reply).1 io.garbage)).records =
          some arr := ha
      rw [hmalloc] at hr
      exact cache_records_room hr
  · cases hr; exact hfree _

theorem Used.room {L : RecLayout} (h : Used L z) : Room z := by
  induction h with
  | init => exact ⟨_, rfl, Nat.zero_le _⟩
  | returned _ hr ih =>
    unfold pxChangelogRecv pxDequeueRecords at hr
    split at hr
    · split at hr
      · have hr := Dequeue.ret.inj hr
        simp only at hr
        split at hr
        · cases hr
          exact ih
        · exact take_next_room ih hr
      · split at hr <;> cases hr
    · exact take_next_room ih (Dequeue.ret.inj hr)
  | replied _ hgrow hr hrep ih =>
    unfold pxChangelogRecv pxDequeueRecords at hr
    split at hr
    · split at hr
      · cases hr
      split at hr
      · cases hr
        simp only at hrep
        split at hrep
        · cases hrep
        rename_i hrep'
        split at hrep
        · cases hrep
          exact handle_reply_room hgrow ih hrep'
        · exact take_next_room (handle_reply_room hgrow ih hrep') hrep
      · cases hr
    · cases hr
  | freed _ ih =>
    unfold pxChangelogFree
    split
    · split
      · exact ih
      · exact ih.congr rfl rfl
    · exact ih

/-! ## One batch from the first byte to the last record -/

theorem rep_recv_all {io : Nat → RepIo} (k : Nat) (buff : List UInt8) {reply : Parts UInt8}
    (hio : ∀ i < reply.length, (io (k + i)).recv = none ∧ (io (k + i)).getsockopt = none)
    (hfit : buff.length + reply.flatten.length ≤ bufflen) :
    clRepRecv bufflen io k buff reply =
      (buff ++ reply.flatten, ((buff ++ reply.flatten).length : Int), []) := by
  induction reply generalizing k buff with
  | nil => simp [clRepRecv]
  | cons frame rest ih =>
    rw [List.flatten_cons, List.length_append] at hfit
    have hroom : ¬ frame.length > bufflen - buff.length := by omega
    obtain ⟨hrecv, hmore⟩ := hio 0 (Nat.succ_pos rest.length)
    rw [Nat.add_zero] at hrecv hmore
    simp only [clRepRecv, hrecv, if_neg hroom, hmore]
    rw [ih (k + 1) (buff ++ frame) ?_ (by rw [List.length_append]; omega)]
    · simp only [List.flatten_cons, List.append_assoc]
    · intro i hi
      have h := hio (i + 1) (Nat.succ_lt_succ hi)
      rwa [← Nat.add_assoc, Nat.add_right_comm] at h

/-- The array has, or is given, an entry for each of `count` records. -/
def HasRoom (io : DequeueIo) (z : PxCache) (count : Nat) : Prop :=
  (z.recCnt < count ∧ io.grow = true) ∨
    (count ≤ z.recCnt ∧ ∃ arr, z.records = some arr ∧ count ≤ arr.length)

/-- The new buffer has been cached from its first record on. -/
structure Filled (L : RecLayout) (z : PxCache) (m : Nat → UInt8) (count : Nat) (z' : PxCache) :
    Prop where
  nxt : z'.recNxt = 0
  cnt : z'.recCnt = count
  buff : z'.recBuff = some z.nextBuf
  heap : z'.heap z.nextBuf = some m
  records : ∃ rest, z'.records =
    some ((walk (L.stepAt m) count sizeofEnqueue).map (Ptr.mk z.nextBuf) ++ rest)

/-- An ENQUEUE message that is long enough goes into the array, which grows if there are
more records than in the last one. -/
theorem handle_long_enqueue {L : RecLayout} {bytes : List UInt8}
    (hrecv : clRepRecv recvBufferLength io.frame 0 [] reply = (bytes, (bytes.length : Int), []))
    (hop : rpcOpType (leField bytes 0 4) = some .enqueue)
    (hlong : sizeofEnqueue + L.sizeofRec ≤ bytes.length) :
    handleReply L io z reply =
      if prCount bytes > z.recCnt then
        if io.grow then
          cacheRecords L (z.malloc (laid bytes io.garbage)) z.nextBuf (laid bytes io.garbage)
            (prCount bytes) (some (resize z.records (prCount bytes)))
        else .ok ({ (z.malloc (laid bytes io.garbage)).free z.nextBuf with records := none },
            -ENOMEM)
      else
        cacheRecords L (z.malloc (laid bytes io.garbage)) z.nextBuf (laid bytes io.garbage)
          (prCount bytes) z.records := by
  have hpos : ¬ (bytes.length : Int) < 0 := by omega
  have hhdr : ¬ (bytes.length : Int) < (sizeofHdr : Int) := by
    simp only [sizeofEnqueue, sizeofHdr] at hlong ⊢
    omega
  have hfix : ¬ (bytes.length : Int) < (sizeofEnqueue : Int) + (L.sizeofRec : Int) := by omega
  simp only [handleReply, hrecv, if_neg hpos, if_neg hhdr, hop, if_neg hfix]
  rfl

/-- The cache after an ENQUEUE message of the given bytes. -/
theorem handle_enqueue {L : RecLayout} {bytes : List UInt8}
    (hrecv : clRepRecv recvBufferLength io.frame 0 [] reply = (bytes, (bytes.length : Int), []))
    (hop : leField bytes 0 4 = RpcOpType.enqueue.code)
    (hlong : sizeofEnqueue + L.sizeofRec ≤ bytes.length) (hroom : HasRoom io z (prCount bytes)) :
    ∃ z', handleReply L io z reply = .ok (z', 0) ∧
      Filled L z (laid bytes io.garbage) (prCount bytes) z' := by
  have hheap : ∀ m, (z.malloc m).heap z.nextBuf = some m := fun _ => Function.update_self _ _ _
  rw [handle_long_enqueue hrecv (hop ▸ rpc_op_type_code _) hlong]
  rcases hroom with ⟨hgt, hgrow⟩ | ⟨hle, arr, ha, hlen⟩
  · rw [if_pos hgt, if_pos hgrow]
    simp only [cacheRecords, resize_length, gt_iff_lt, Nat.lt_irrefl, if_false]
    exact ⟨_, rfl, rfl, rfl, rfl, hheap _, _, rfl⟩
  · rw [if_neg (Nat.not_lt.mpr hle), ha]
    simp only [cacheRecords, gt_iff_lt, Nat.not_lt.mpr hlen, if_false]
    exact ⟨_, rfl, rfl, rfl, rfl, hheap _, _, rfl⟩

/-- Records of which each occupies a byte or more are fewer than the bytes. -/
theorem length_le_flatten {recs : List (List UInt8)} (h : ∀ r ∈ recs, 0 < r.length) :
    recs.length ≤ recs.flatten.length := by
  induction recs with
  | nil => exact Nat.le_refl 0
  | cons r recs ih =>
    have hr := h r List.mem_cons_self
    have ih := ih fun r' hr' => h r' (List.mem_cons_of_mem r hr')
    simp only [List.length_cons, List.flatten_cons, List.length_append]
    omega

theorem pack_records_fields (recs : List (List UInt8)) :
    leField (packRecords recs) 0 4 = RpcOpType.enqueue.code ∧
      leField (packRecords recs) 8 4 = recs.length % 2 ^ 32 := by
  constructor
  · rw [packRecords, List.append_assoc]
    exact pack_hdr_op .enqueue _
  · have h := le_field_append (packHdr .enqueue) recs.flatten 4 recs.length
    rw [pack_hdr_length] at h
    rw [packRecords, List.append_assoc]
    exact h

/-- The bytes of each record are found again at the place where the walk over the
message comes to it. -/
theorem walk_records {L : RecLayout} {recs : List (List UInt8)} (garbage : Nat → UInt8)
    (hrecs : ∀ r ∈ recs, L.recLen (r.take L.sizeofRec) = r.length ∧ L.sizeofRec ≤ r.length) :
    (walk (L.stepAt (laid (packRecords recs) garbage)) recs.length sizeofEnqueue).map
      (fun o => slice (laid (packRecords recs) garbage) o
        (L.stepAt (laid (packRecords recs) garbage) o)) =
      recs := by
  apply walk_chunks
  · have hhdr : (packHdr .enqueue ++ leBytes 4 recs.length).length = sizeofEnqueue := by
      rw [List.length_append, pack_hdr_length, le_bytes_length]
      rfl
    rw [slice_laid (by rw [pack_records_length]), packRecords, ← hhdr, List.drop_left]
    exact List.take_length
  · intro r hr o ho
    obtain ⟨hlen, hge⟩ := hrecs r hr
    rw [RecLayout.stepAt, ← slice_take _ o hge, ho]
    exact hlen

/-- What the client reads off a message with records that fits its buffer. -/
theorem batch_fields {L : RecLayout} {recs : List (List UInt8)}
    (hall : ∀ r ∈ recs, L.recLen (r.take L.sizeofRec) = r.length ∧ L.sizeofRec ≤ r.length)
    (hne : recs ≠ []) (hfit : (packRecords recs).length ≤ recvBufferLength) :
    leField (packRecords recs) 0 4 = RpcOpType.enqueue.code ∧
      prCount (packRecords recs) = recs.length ∧
      sizeofEnqueue + L.sizeofRec ≤ (packRecords recs).length := by
  have hcount : recs.length < 2 ^ 32 := by
    have hle := length_le_flatten fun r hr => Nat.lt_of_lt_of_le L.sizeofRec_pos (hall r hr).2
    rw [pack_records_length] at hfit
    simp only [recvBufferLength] at hfit
    omega
  obtain ⟨hop, hcnt⟩ := pack_records_fields recs
  rw [Nat.mod_eq_of_lt hcount] at hcnt
  refine ⟨hop, hcnt, ?_⟩
  obtain ⟨r, rest, rfl⟩ := List.exists_cons_of_ne_nil hne
  have := (hall r List.mem_cons_self).2
  rw [pack_records_length, List.flatten_cons, List.length_append]
  omega

/-- Such a message is cached when the array can be grown for it. -/
theorem handle_batch {L : RecLayout} {recs : List (List UInt8)}
    (hall : ∀ r ∈ recs, L.recLen (r.take L.sizeofRec) = r.length ∧ L.sizeofRec ≤ r.length)
    (hne : recs ≠ []) (hfit : (packRecords recs).length ≤ recvBufferLength)
    (hrecv : clRepRecv recvBufferLength io.frame 0 [] reply =
      (packRecords recs, ((packRecords recs).length : Int), []))
    (hroom : Room z) (hgrow : z.recCnt < recs.length → io.grow = true) :
    ∃ z', handleReply L io z reply = .ok (z', 0) ∧
      Filled L z (laid (packRecords recs) io.garbage) recs.length z' := by
  obtain ⟨hop, hcnt, hlong⟩ := batch_fields hall hne hfit
  have hroom : HasRoom io z (prCount (packRecords recs)) := by
    obtain ⟨arr, ha, hle⟩ := hroom
    rw [hcnt]
    by_cases hgt : z.recCnt < recs.length
    · exact .inl ⟨hgt, hgrow hgt⟩
    · exact .inr ⟨Nat.le_of_not_lt hgt, arr, ha, by omega⟩
  obtain ⟨z', hhandle, hfilled⟩ := handle_enqueue hrecv hop hlong hroom
  rw [hcnt] at hfilled
  exact ⟨z', hhandle, hfilled⟩

/-- The records that `n` calls of `px_changelog_recv` return without a request. -/
def drain (L : RecLayout) (io : DequeueIo) :
    Nat → PxCache → Option (List (Option (List UInt8)) × PxCache)
  | 0, z => some ([], z)
  | n + 1, z =>
    match pxChangelogRecv L io z with
    | .ret (.ok (z, .record rec)) =>
      (drain L io n z).map fun (recs, z') => (recordBytes L z rec :: recs, z')
    | _ => none

/-- The records that a call with a request and `n` calls without one return. -/
def receiveBatch (L : RecLayout) (io io' : DequeueIo) (z : PxCache)
    (reply : Parts UInt8) (n : Nat) :
    Option (List (Option (List UInt8)) × PxCache) :=
  match pxChangelogRecv L io z with
  | .ask resume =>
    match resume reply with
    | .ok (z, .record rec) =>
      (drain L io' n z).map fun (recs, z') => (recordBytes L z rec :: recs, z')
    | _ => none
  | _ => none

theorem drain_cached {L : RecLayout} {io : DequeueIo} {m : Nat → UInt8} {places : List Nat}
    {rest : List Ptr} (hr : z.records = some (places.map (Ptr.mk buf) ++ rest))
    (hh : z.heap buf = some m) (hc : z.recCnt = places.length) (n : Nat)
    (hn : z.recNxt + n = places.length) :
    drain L io n z = some ((places.drop z.recNxt).map (fun o => some (slice m o (L.stepAt m o))),
      { z with recNxt := places.length }) := by
  induction n generalizing z with
  | zero =>
    have he : z.recNxt = places.length := hn
    simp only [drain, he, List.drop_length, List.map_nil]
    rw [← he]
  | succ n ih =>
    have hlt : z.recNxt < places.length := by omega
    have hne : ¬ z.recNxt = z.recCnt := by omega
    have hget : (places.map (Ptr.mk buf) ++ rest)[z.recNxt]? = some ⟨buf, places[z.recNxt]⟩ := by
      rw [List.getElem?_append_left (by simpa using hlt)]
      simp [hlt]
    have hnext : takeNext z = .ok ({ z with recNxt := z.recNxt + 1 },
        .record ⟨buf, places[z.recNxt]⟩) := by
      simp only [takeNext, hr, hget]
    have ih := @ih { z with recNxt := z.recNxt + 1 } hr hh hc (by simp only; omega)
    simp only [drain, pxChangelogRecv, if_neg hne, hnext, ih, Option.map_some, recordBytes, hh]
    rw [List.drop_eq_getElem_cons hlt, List.map_cons]

/-- The call that receives a reply goes on as those without a request do. -/
theorem receive_batch {L : RecLayout} (hempty : z.recNxt = z.recCnt) (hio : Calm io)
    (hr : handleReply L io z reply = .ok (z', 0)) (hne : z'.recNxt ≠ z'.recCnt) (n : Nat) :
    receiveBatch L io io' z reply n = drain L io' (n + 1) z' := by
  simp only [receiveBatch, drain, pxChangelogRecv, pxDequeueRecords, if_pos hempty, if_neg hne,
    hio.send, hio.alloc, if_true, Dequeue.map, hr]
  simp only [ne_eq, not_true_eq_false, if_false]
  match takeNext z' with
  | .error _ => rfl
  | .ok (_, .record _) => rfl
  | .ok (_, .code _) => rfl

/-- A bucket's message is filled exactly, and a client that receives it in frames of
any sizes hands out the bucket's records byte for byte, before it asks again. -/
theorem enqueue_round_trip {L : RecLayout} (h : Reach (reader cfg idx) Always s)
    (hrecs : List.Forall₂ L.Describes recs (s.mem p).lrbRecords) (hne : recs ≠ []) :
    ∃ message, enqueueMessage L (s.mem p) recs = some (message, message.length) ∧
      (message.length ≤ recvBufferLength →
        ∀ z io io' reply, Used L z → z.recNxt = z.recCnt → Calm io → reply.flatten = message →
          ∃ z', receiveBatch L io io' z reply (recs.length - 1) = some (recs.map some, z') ∧
            z'.recNxt = z'.recCnt) := by
  refine ⟨packRecords recs, enqueue_message_filled hrecs (reach_measured h p), ?_⟩
  intro hfit z io io' reply hused hempty hio hreply
  have hall := described_all hrecs
  have hpos : 0 < recs.length := List.length_pos_iff.mpr hne
  have hrecv : clRepRecv recvBufferLength io.frame 0 [] reply =
      (packRecords recs, ((packRecords recs).length : Int), []) := by
    rw [rep_recv_all 0 [] (fun i _ => by rw [hio.frame]; exact ⟨rfl, rfl⟩)
      (by simpa [hreply] using hfit), List.nil_append, hreply]
  obtain ⟨z₁, hhandle, hfilled⟩ := handle_batch hall hne hfit hrecv hused.room fun _ => hio.grow
  have hwalk := walk_records io.garbage hall
  obtain ⟨rest, hrest⟩ := hfilled.records
  have hlen := walk_length (L.stepAt (laid (packRecords recs) io.garbage)) recs.length sizeofEnqueue
  have hne : z₁.recNxt ≠ z₁.recCnt := by
    rw [hfilled.nxt, hfilled.cnt]
    exact Nat.ne_of_lt hpos
  rw [receive_batch hempty hio hhandle hne, Nat.sub_add_cancel hpos,
    drain_cached hrest hfilled.heap (hfilled.cnt.trans hlen.symm) recs.length
      (by rw [hfilled.nxt, hlen, Nat.zero_add])]
  have hbytes := congrArg (List.map some) hwalk
  rw [List.map_map] at hbytes
  refine ⟨{ z₁ with recNxt := _ }, ?_, hlen.trans hfilled.cnt.symm⟩
  rw [hfilled.nxt, List.drop_zero]
  exact congrArg (fun bytes => some (bytes, _)) hbytes

namespace Sample

theorem sizeof_rec_pos : 0 < 64 := by decide

/-- Records of 64 bytes, and 32 more for each of the extensions that the flags name: those
of a rename and of a job. -/
def layout : RecLayout where
  sizeofRec := 64
  crIndex fixed := leField fixed 8 8
  crNamelen fixed := leField fixed 0 2
  changelogRecSize fixed :=
    64 + (if (leField fixed 2 2).testBit 13 then 32 else 0) +
      if (leField fixed 2 2).testBit 14 then 32 else 0
  sizeofRec_pos := sizeof_rec_pos
  size_ge _ := by omega

/-- The bytes of a sample record with a name of four letters. -/
def rawRecord (n : Nat) : List UInt8 :=
  leBytes 2 4 ++ leBytes 2 0 ++ leBytes 4 1 ++ leBytes 8 n ++ List.replicate 48 0 ++
    [102, 105, 108, 101]

/-- A full bucket of two records. -/
def twoRead : ReaderEnv := after [batch [record 1, record 2]]

end Sample

set_option maxRecDepth 2000 in
theorem enqueue_round_trip_two :
    ∃ message, enqueueMessage Sample.layout (Sample.twoRead.mem 0)
      [Sample.rawRecord 1, Sample.rawRecord 2] =
        some (message, message.length) ∧
      ∃ z', receiveBatch Sample.layout {} {} pzdInit [message.take 100, message.drop 100] 1 =
          some ([some (Sample.rawRecord 1), some (Sample.rawRecord 2)], z') ∧
            z'.recNxt = z'.recCnt := by
  have hr : Reach (reader Sample.cfg 0) Always Sample.twoRead :=
    Sample.reach_after (by decide +kernel)
  have hstored : (Sample.twoRead.mem 0).lrbRecords = [Sample.record 1, Sample.record 2] := by
    decide +kernel
  have hraw : List.Forall₂ Sample.layout.Describes [Sample.rawRecord 1, Sample.rawRecord 2]
      (Sample.twoRead.mem 0).lrbRecords := by
    rw [hstored]
    exact .cons ⟨by decide, by decide, by decide, by decide⟩
      (.cons ⟨by decide, by decide, by decide, by decide⟩ .nil)
  obtain ⟨message, hm, hcached⟩ := enqueue_round_trip hr hraw (by simp)
  have hlen : (enqueueMessage Sample.layout (Sample.twoRead.mem 0)
      [Sample.rawRecord 1, Sample.rawRecord 2]).map Prod.snd = some 148 := by decide +kernel
  rw [hm] at hlen
  have hlen : message.length = 148 := Option.some.inj hlen
  refine ⟨message, hm, hcached (by rw [hlen]; decide) pzdInit {} {} _ .init rfl
    ⟨rfl, rfl, fun _ => rfl, rfl⟩ ?_⟩
  rw [List.flatten_cons, List.flatten_cons, List.flatten_nil, List.append_nil,
    List.take_append_drop]

end Lcap.Proofs
