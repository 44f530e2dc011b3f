import Lcap.Proofs.Shape
import Lcap.Proofs.Sequences
import Lcap.Reader.Linked
import Lcap.Systems.Lockstep
import Lcap.Systems.Simulation
import Mathlib.Data.List.Perm.Subperm

namespace Lcap.Proofs
open Reader Queue Systems
open Linked (LinkedEnv linkedStep linkedReader)

/-- What the reader's model has in place of two linked lists: the buckets, and the client
states at the given addresses. -/
def LinkedEnv.view (x : LinkedEnv) (buckets addrs : List Nat) : ReaderEnv where
  reCfg := x.reCfg
  reIndex := x.reIndex
  reClpriv := x.reClpriv
  reSrec := x.reSrec
  reBktIdx := x.reBktIdx
  reRecCnt := x.reRecCnt
  reCurrentOpen := x.reCurrentOpen
  reDeliverNext := x.reDeliverNext
  reCleanupNext := x.reCleanupNext
  reBuckets := buckets
  rePeers := addrs.map x.states
  mem := x.bkts
  terminateSig := x.terminateSig
  stopped := x.stopped
  trace := x.trace

/-- The links stand for these two lists, and the blocks that have been allocated and not
released are those on them. -/
structure Stands (x : LinkedEnv) (buckets addrs : List Nat) : Prop where
  bucketList : Represents x.reBuckets buckets
  loose : ∀ p, p ∉ buckets → x.reBuckets.lnNext p = none
  live : ∀ p, x.bktLive p = true ↔ p ∈ buckets
  named : ∀ p ∈ buckets, p < x.reBktIdx
  peerList : Represents x.rePeers addrs
  known : ∀ cs, x.stateLive cs = true ↔ cs ∈ addrs
  given : ∀ cs ∈ addrs, cs < x.stateCnt

/-- The state of the model is the one that the links stand for. -/
def Abstracts (s : ReaderEnv) (x : LinkedEnv) : Prop :=
  ∃ buckets addrs, Stands x buckets addrs ∧ s = LinkedEnv.view x buckets addrs

section
variable {x : LinkedEnv} {buckets addrs : List Nat} {cid : ConnId} {io : RpcIo} {g : Garbage}

theorem distinct_length {l : List Nat} (hd : l.Nodup) (hl : ∀ p ∈ l, p < n) : l.length ≤ n := by
  have hsub : l ⊆ List.range n := fun p hp => List.mem_range.mpr (hl p hp)
  have hle := (hd.subperm hsub).length_le
  rwa [List.length_range] at hle

/-! ## Buckets -/

theorem Stands.next (h : Stands x buckets addrs) (o : Option Nat) :
    bucketNext (LinkedEnv.view x buckets addrs) o = Linked.bucketNext x o := by
  cases o with
  | none => rfl
  | some p =>
    refine (ln_next_agrees h.bucketList ?_).1
    by_cases hp : p ∈ buckets
    · exact .inl hp
    · exact .inr (h.loose p hp)

/-- A block is live where it is on the list. -/
theorem Stands.live_if (h : Stands x buckets addrs) (p : Nat) (a b : α) :
    (if p ∈ buckets then a else b) = if x.bktLive p = true then a else b :=
  if_congr (h.live p).symm rfl rfl

theorem Stands.expiry (h : Stands x buckets addrs) (g : Garbage) (p : Nat) :
    lrbExpiry (LinkedEnv.view x buckets addrs) g p = Linked.lrbExpiry x g p := h.live_if p _ _

theorem Stands.ready (h : Stands x buckets addrs) (g : Garbage) (p : Nat) :
    lrbReady (LinkedEnv.view x buckets addrs) g p = Linked.lrbReady x g p := h.live_if p _ _

theorem max_index_view (x : LinkedEnv) (buckets addrs : List Nat) (p : Nat) :
    recBucketMaxIndex (LinkedEnv.view x buckets addrs) p = Linked.recBucketMaxIndex x p := rfl

/-- `calloc` finds the same blocks in use on both sides. -/
theorem Stands.calloc (h : Stands x buckets addrs) (block : Option Nat) :
    callocBlock (LinkedEnv.view x buckets addrs) block = Linked.callocBlock x block := by
  cases block with
  | none => rfl
  | some block =>
    have hfree : block ∉ buckets ↔ x.bktLive block = false := by
      rw [← h.live, Bool.not_eq_true]
    exact if_congr (and_congr Iff.rfl hfree) rfl rfl

/-- The block it returns is on no list. -/
theorem Stands.calloc_free (h : Stands x buckets addrs) (block : Option Nat) :
    Linked.callocBlock x block ∉ buckets ∧ Linked.callocBlock x block ≤ x.reBktIdx := by
  have hnew : x.reBktIdx ∉ buckets := fun hm => Nat.lt_irrefl _ (h.named _ hm)
  cases block with
  | none => exact ⟨hnew, le_rfl⟩
  | some block =>
    rw [Linked.callocBlock]
    split
    · rename_i hb
      refine ⟨fun hm => ?_, Nat.le_of_lt hb.1⟩
      rw [(h.live block).mpr hm] at hb
      exact absurd hb.2 Bool.noConfusion
    · exact ⟨hnew, le_rfl⟩

/-- A new bucket comes to the end of the list. -/
theorem Stands.opened (h : Stands x buckets addrs) (hb : b ∉ buckets ∧ b ≤ x.reBktIdx)
    (hroom : buckets.length + 1 < 2 ^ 31) :
    Stands (Linked.openBucket x b) (buckets ++ [b]) addrs := by
  have hadd := list_append_brings h.bucketList hb.1 (by simpa using hroom)
  refine ⟨hadd.represents, fun p hp => ?_, fun p => ?_, fun p hp => ?_, h.peerList,
    h.known, h.given⟩
  · have hp' : p ∉ buckets := fun hm => hp (List.mem_append_left _ hm)
    have hlinks : (listAppend x.reBuckets b).lnNext p = x.reBuckets.lnNext p :=
      congrArg Prod.snd (hadd.outside p hp' hp)
    exact hlinks.trans (h.loose p hp')
  · simp only [Linked.openBucket, List.mem_append, List.mem_singleton]
    by_cases he : p = b
    · subst he
      simp
    · rw [Function.update_of_ne he, h.live]
      simp [he]
  · rcases List.mem_append.mp hp with hp | hp
    · exact Nat.lt_succ_of_lt (h.named p hp)
    · rw [List.mem_singleton.mp hp]
      exact Nat.lt_succ_of_le hb.2

/-- Writes to the buckets alone. -/
theorem Stands.written (h : Stands x buckets addrs) (m : Nat → LcapRecBucket) :
    Stands { x with bkts := m } buckets addrs :=
  ⟨h.bucketList, h.loose, h.live, h.named, h.peerList, h.known, h.given⟩

/-- The walk along the links resets what the walk along the list does. -/
theorem mark_walk (buckets addrs : List Nat) (hw : Walk x.reBuckets.lnNext o l)
    (hf : l.length ≤ fuel) :
    ∃ m, Linked.markNonReady fuel x o = .ok { x with bkts := m } ∧
      markNonReady x.reDeliverNext (LinkedEnv.view x buckets addrs) l =
        LinkedEnv.view { x with bkts := m } buckets addrs := by
  generalize hnext : x.reBuckets.lnNext = next at hw
  induction hw generalizing x fuel with
  | stop =>
    refine ⟨x.bkts, ?_, rfl⟩
    cases fuel <;> rfl
  | @visit tmp l hw ih =>
    obtain ⟨fuel, rfl⟩ := Nat.exists_eq_succ_of_ne_zero
      (Nat.ne_of_gt (Nat.lt_of_lt_of_le (Nat.succ_pos _) hf))
    by_cases hstop : some tmp = x.reDeliverNext
    · exact ⟨x.bkts, if_pos hstop, if_pos hstop⟩
    · obtain ⟨m, hlinked, hlist⟩ := ih (x := x.modify tmp fun b => { b with lrbReady := false })
        (Nat.le_of_succ_le_succ hf) hnext
      refine ⟨m, ?_, ?_⟩
      · rw [Linked.markNonReady, if_neg hstop, Linked.bucketNext, hnext]
        exact hlinked
      · rw [markNonReady, if_neg hstop]
        exact hlist

/-- The same lists are on both sides. -/
def Aligned (buckets addrs : List Nat) (s : ReaderEnv) (x : LinkedEnv) : Prop :=
  Stands x buckets addrs ∧ s = LinkedEnv.view x buckets addrs

/-- `rec_bucket_get` finds the same bucket, and touches neither list nor client states. -/
theorem get_lockstep (h : Stands x buckets addrs) (io : RpcIo) :
    Lockstep (fun t y => Aligned buckets addrs t y ∧ y.states = x.states)
      (recBucketGet (LinkedEnv.view x buckets addrs) io) (Linked.recBucketGet x io) := by
  have hnext : ∀ (m : Nat → LcapRecBucket) (p : Nat),
      bucketNext (LinkedEnv.view { x with bkts := m } buckets addrs) (some p) =
        Linked.bucketNext { x with bkts := m } (some p) := fun m p => (h.written m).next (some p)
  unfold recBucketGet Linked.recBucketGet
  have hcleanup : (LinkedEnv.view x buckets addrs).reCleanupNext = x.reCleanupNext := rfl
  have hdeliver : (LinkedEnv.view x buckets addrs).reDeliverNext = x.reDeliverNext := rfl
  rw [hcleanup]
  cases hc : x.reCleanupNext with
  | none => exact .error _
  | some bkt =>
    refine Lockstep.ite ?_ (fun _ => ?_) fun _ => ?_
    · simp only [headExpired, Linked.headExpired, h.expiry]
    · have hwalk : Walk x.reBuckets.lnNext (some bkt) (nodesFrom buckets bkt) := by
        refine (ln_next_agrees h.bucketList ?_).2
        by_cases hp : bkt ∈ buckets
        · exact .inl hp
        · exact .inr (h.loose bkt hp)
      have hlen : (nodesFrom buckets bkt).length ≤ x.reBktIdx + 1 := by
        have hle := distinct_length h.bucketList.nodup h.named
        unfold nodesFrom
        split
        · exact Nat.le_succ_of_le (Nat.le_trans (List.dropWhile_sublist _).length_le hle)
        · exact Nat.succ_le_succ (Nat.zero_le _)
      obtain ⟨m, hlinked, hlist⟩ := mark_walk buckets addrs hwalk hlen
      have hlist : markNonReady (LinkedEnv.view x buckets addrs).reDeliverNext
          (LinkedEnv.view x buckets addrs)
          (nodesFrom (LinkedEnv.view x buckets addrs).reBuckets bkt) =
            LinkedEnv.view { x with bkts := m } buckets addrs := hlist
      rw [hlinked, hlist]
      refine .ok ⟨⟨?_, ?_⟩, rfl⟩ (some bkt)
      · exact { h.written m with }
      · rw [hnext]
        rfl
    · rw [hdeliver]
      cases hd : x.reDeliverNext with
      | none => exact .ok ⟨⟨h, rfl⟩, rfl⟩ none
      | some bkt =>
        refine .ok ⟨⟨{ h with }, ?_⟩, rfl⟩ (some bkt)
        rw [hnext x.bkts]
        rfl

/-! ## Client states -/

/-- The test of the loop of `client_state_get`. -/
abbrev holdsIdent (states : Nat → ClientState) (cid : ConnId) (cs : Nat) : Bool :=
  sameIdent cid (states cs)

theorem find_walk (hw : Walk x.rePeers.lnNext o l) (hf : l.length ≤ fuel) (cid : ConnId) :
    Linked.clientStateFrom x cid fuel o = .ok (l.find? (holdsIdent x.states cid)) := by
  induction hw generalizing fuel with
  | stop => cases fuel <;> rfl
  | @visit cs l hw ih =>
    obtain ⟨fuel, rfl⟩ := Nat.exists_eq_succ_of_ne_zero
      (Nat.ne_of_gt (Nat.lt_of_lt_of_le (Nat.succ_pos _) hf))
    rw [Linked.clientStateFrom]
    by_cases hsame : holdsIdent x.states cid cs = true
    · rw [if_pos hsame, List.find?_cons_of_pos (p := holdsIdent x.states cid) hsame]
    · rw [if_neg hsame, List.find?_cons_of_neg (p := holdsIdent x.states cid) hsame]
      exact ih (Nat.le_of_succ_le_succ hf)

/-- The address that is found, if the client is registered. -/
def stateOf (x : LinkedEnv) (addrs : List Nat) (cid : ConnId) : Option Nat :=
  addrs.find? (holdsIdent x.states cid)

theorem Stands.found (h : Stands x buckets addrs) (cid : ConnId) :
    Linked.clientStateGet x cid = .ok (stateOf x addrs cid) := by
  refine find_walk ?_ (distinct_length h.peerList.nodup h.given) cid
  rw [h.peerList.first]
  exact h.peerList.chained.walk_next

theorem state_get_view (x : LinkedEnv) (buckets addrs : List Nat) (cid : ConnId) :
    clientStateGet (LinkedEnv.view x buckets addrs) cid = (stateOf x addrs cid).map x.states :=
  List.find?_map

/-- A write to a state that is not on the list. -/
theorem map_update_outside {states : Nat → ClientState} {l : List Nat} (hout : cs ∉ l)
    (c : ClientState) :
    l.map (Function.update states cs c) = l.map states :=
  List.map_congr_left fun _ hm => Function.update_of_ne (ne_of_mem_of_not_mem hm hout) _ _

/-- The write goes to the state that is found. -/
theorem set_bucket_view {states : Nat → ClientState} (hd : addrs.Nodup)
    (hf : addrs.find? (holdsIdent states cid) = some cs) (bkt : Option Nat) :
    setCsBucket cid bkt (addrs.map states) =
      addrs.map (Function.update states cs { states cs with csBucket := bkt }) := by
  induction addrs with
  | nil => cases hf
  | cons a l ih =>
    obtain ⟨hout, hd⟩ := List.nodup_cons.mp hd
    rw [List.map_cons, List.map_cons, setCsBucket]
    by_cases hsame : holdsIdent states cid a = true
    · rw [List.find?_cons_of_pos hsame] at hf
      cases hf
      rw [if_pos hsame, map_update_outside hout, Function.update_self]
    · rw [List.find?_cons_of_neg hsame] at hf
      have hne : a ≠ cs := (ne_of_mem_of_not_mem (List.mem_of_find?_eq_some hf) hout).symm
      rw [if_neg hsame, ih hd hf, Function.update_of_ne hne]

/-- The entry that is erased is the one that is found. -/
theorem erase_view {states : Nat → ClientState}
    (hf : addrs.find? (holdsIdent states cid) = some cs) :
    (addrs.map states).eraseP (sameIdent cid) = (addrs.erase cs).map states := by
  induction addrs with
  | nil => cases hf
  | cons a l ih =>
    rw [List.map_cons]
    by_cases hsame : holdsIdent states cid a = true
    · rw [List.find?_cons_of_pos hsame] at hf
      cases hf
      rw [List.eraseP_cons_of_pos (p := sameIdent cid) hsame, List.erase_cons_head]
    · rw [List.find?_cons_of_neg hsame] at hf
      have hfound : holdsIdent states cid cs = true := List.find?_some hf
      have hne : a ≠ cs := fun he => hsame (he ▸ hfound)
      rw [List.eraseP_cons_of_neg (p := sameIdent cid) hsame, ih hf,
        List.erase_cons_tail (by simpa using hne), List.map_cons]

theorem Stands.logged (h : Stands x buckets addrs) (e : Event) :
    Stands (x.log e) buckets addrs := { h with }

theorem Stands.registered (h : Stands x buckets addrs) (req : LcapnetRequest)
    (hroom : addrs.length + 1 < 2 ^ 31) :
    Stands (Linked.registerClient x req) buckets (addrs ++ [x.stateCnt]) ∧
      registerClient (LinkedEnv.view x buckets addrs) req =
        LinkedEnv.view (Linked.registerClient x req) buckets (addrs ++ [x.stateCnt]) := by
  have hnew : x.stateCnt ∉ addrs := fun hm => Nat.lt_irrefl _ (h.given _ hm)
  have hp := list_append_brings h.peerList hnew (by simpa using hroom)
  refine ⟨⟨h.bucketList, h.loose, h.live, h.named, hp.represents, fun cs => ?_, fun cs hcs => ?_⟩,
    ?_⟩
  · simp only [Linked.registerClient, List.mem_append, List.mem_singleton]
    by_cases he : cs = x.stateCnt
    · subst he
      simp
    · rw [Function.update_of_ne he, h.known]
      simp [he]
  · rcases List.mem_append.mp hcs with hcs | hcs
    · exact Nat.lt_succ_of_lt (h.given cs hcs)
    · rw [List.mem_singleton.mp hcs]
      exact Nat.lt_succ_self _
  · have hold : addrs.map (Linked.registerClient x req).states = addrs.map x.states :=
      map_update_outside hnew _
    have hself : (Linked.registerClient x req).states x.stateCnt =
        { csStart := req.prStart, csIdent := req.lrForward } := Function.update_self _ _ _
    simp only [registerClient, LinkedEnv.view, List.map_append, List.map_singleton, hold, hself]
    rfl

theorem Stands.deregistered (h : Stands x buckets addrs) (hf : stateOf x addrs cid = some cs) :
    Stands (Linked.deregisterClient x cs) buckets (addrs.erase cs) ∧
      deregisterClient (LinkedEnv.view x buckets addrs) cid =
        LinkedEnv.view (Linked.deregisterClient x cs) buckets (addrs.erase cs) := by
  obtain ⟨a, b, rfl, ha⟩ := List.eq_append_cons_of_mem (List.mem_of_find?_eq_some hf)
  have herase : (a ++ cs :: b).erase cs = a ++ b := by
    rw [List.erase_append_right _ ha, List.erase_cons_head]
  have hp := list_remove_brings h.peerList
  have hnodup := h.peerList.nodup
  refine ⟨⟨h.bucketList, h.loose, h.live, h.named, herase ▸ hp.represents, fun c => ?_,
    fun c hc => ?_⟩, ?_⟩
  · rw [hnodup.mem_erase_iff]
    simp only [Linked.deregisterClient]
    by_cases he : c = cs
    · subst he
      simp
    · rw [Function.update_of_ne he, h.known]
      simp [he]
  · exact h.given c (List.mem_of_mem_erase hc)
  · have herased := erase_view hf
    simp only [deregisterClient, LinkedEnv.view, herased]
    rfl

/-! ## Records -/

/-- The lists on both sides are the same, with at most `n` buckets and `k` clients. -/
def AbstractsWithin (n k : Nat) (s : ReaderEnv) (x : LinkedEnv) : Prop :=
  ∃ buckets addrs, Stands x buckets addrs ∧ s = LinkedEnv.view x buckets addrs ∧
    buckets.length ≤ n ∧ addrs.length ≤ k

theorem AbstractsWithin.more {s : ReaderEnv} (h : AbstractsWithin n k s x) (hn : n ≤ n')
    (hk : k ≤ k') :
    AbstractsWithin n' k' s x := by
  obtain ⟨buckets, addrs, hs, he, hb, ha⟩ := h
  exact ⟨buckets, addrs, hs, he, Nat.le_trans hb hn, Nat.le_trans ha hk⟩

theorem Stands.abstractsWithin (h : Stands x buckets addrs) (hn : buckets.length ≤ n)
    (hk : addrs.length ≤ k) :
    AbstractsWithin n k (LinkedEnv.view x buckets addrs) x :=
  ⟨buckets, addrs, h, rfl, hn, hk⟩

/-- The store into the bucket that is open. -/
def storeOpen (s : ReaderEnv) (rec : ChangelogRec) : Except Halt (ReaderEnv × Int) :=
  match s.reCurrentOpen with
  | none => .error .assertion
  | some current =>
    if lrbRecCount s current < s.reCfg.ccfRecBatchCount then .ok (recInsert s current rec, 0)
    else .error .assertion

theorem rec_store_eq (s : ReaderEnv) (rec : ChangelogRec) (alloc : Bool) (block : Option Nat) :
    changelogReaderRecStore s rec alloc block =
      if needsBucket s then
        if alloc then storeOpen (openBucket s (callocBlock s block)) rec else .ok (s, -ENOMEM)
      else storeOpen s rec := by
  unfold changelogReaderRecStore recBucketAdd storeOpen
  cases needsBucket s with
  | false =>
    simp only [Bool.false_eq_true, ↓reduceIte, ne_eq, not_true_eq_false]
    cases s.reCurrentOpen with
    | none => rfl
    | some current => exact ite_not _ _ _
  | true =>
    cases alloc with
    | false => rfl
    | true =>
      have hopen : (openBucket s (callocBlock s block)).reCurrentOpen =
          some (callocBlock s block) := rfl
      simp only [↓reduceIte, ne_eq, not_true_eq_false, hopen]
      exact ite_not _ _ _

theorem open_lockstep {s : ReaderEnv} (h : AbstractsWithin n k s x) (rec : ChangelogRec) :
    Lockstep (AbstractsWithin n k) (storeOpen s rec) (Linked.storeInOpen x rec) := by
  obtain ⟨buckets, addrs, hs, rfl, hn, hk⟩ := h
  unfold storeOpen Linked.storeInOpen
  have hopen : (LinkedEnv.view x buckets addrs).reCurrentOpen = x.reCurrentOpen := rfl
  rw [hopen]
  cases x.reCurrentOpen with
  | none => exact .error _
  | some current =>
    refine Lockstep.ite Iff.rfl (fun _ => ?_) fun _ => .error _
    have hstored : Stands (Linked.recInsert x current rec) buckets addrs := { hs with }
    exact .ok (hstored.abstractsWithin hn hk) 0

theorem store_lockstep (h : Stands x buckets addrs) (hroom : buckets.length + 1 < 2 ^ 31)
    (rec : ChangelogRec) (alloc : Bool) (block : Option Nat) :
    Lockstep (AbstractsWithin (buckets.length + 1) addrs.length)
      (changelogReaderRecStore (LinkedEnv.view x buckets addrs) rec alloc block)
      (Linked.changelogReaderRecStore x rec alloc block) := by
  have hneeds : needsBucket (LinkedEnv.view x buckets addrs) = Linked.needsBucket x := by
    unfold needsBucket Linked.needsBucket
    have hopen : (LinkedEnv.view x buckets addrs).reCurrentOpen = x.reCurrentOpen := rfl
    rw [hopen]
    cases x.reCurrentOpen <;> rfl
  rw [rec_store_eq, Linked.changelogReaderRecStore, hneeds]
  refine Lockstep.ite Iff.rfl (fun _ => Lockstep.ite Iff.rfl (fun _ => ?_) fun _ => ?_) fun _ => ?_
  · have hlen : (buckets ++ [Linked.callocBlock x block]).length ≤ buckets.length + 1 := by simp
    rw [h.calloc]
    exact open_lockstep ((h.opened (h.calloc_free block) hroom).abstractsWithin hlen le_rfl) rec
  · exact .ok (h.abstractsWithin (Nat.le_succ _) (Nat.le_refl _)) _
  · exact open_lockstep (h.abstractsWithin (Nat.le_succ _) (Nat.le_refl _)) rec

/-- A record that is received adds one bucket at most. -/
theorem recv_lockstep {s : ReaderEnv} (h : AbstractsWithin n k s x) (batchCount : Int)
    (script : List RecvEvent)
    (hroom : n + script.length < 2 ^ 31) : Lockstep (AbstractsWithin (n + script.length) k)
      (recvLoop s batchCount script) (Linked.recvLoop x batchCount script) := by
  induction script generalizing n s x batchCount with
  | nil => exact .error _
  | cons e script ih =>
    have hsum : n + (e :: script).length = n + 1 + script.length := by
      rw [List.length_cons]
      omega
    have hlast : n ≤ n + (e :: script).length := Nat.le_add_right _ _
    obtain ⟨buckets, addrs, hs, rfl, hn, hk⟩ := h
    rw [hsum] at hroom ⊢
    cases e with
    | sigterm =>
      have hs' : Stands { x with terminateSig := true } buckets addrs := { hs with }
      exact ih (hs'.abstractsWithin (Nat.le_succ_of_le hn) hk) batchCount hroom
    | fail rc => exact .ok (hs.abstractsWithin (by omega) hk) _
    | recv rec alloc block =>
      rw [recvLoop, Linked.recvLoop]
      refine Lockstep.ite Iff.rfl (fun _ => .ok (hs.abstractsWithin (by omega) hk) _) fun _ => ?_
      have hskip := ih (hs.abstractsWithin (Nat.le_succ_of_le hn) hk) batchCount hroom
      refine Lockstep.ite Iff.rfl (fun _ => hskip) fun _ => ?_
      refine (store_lockstep hs (by omega) rec alloc block).bind fun t y rc hty => ?_
      have hty := hty.more (Nat.succ_le_succ hn) hk
      refine Lockstep.ite Iff.rfl (fun _ => .ok (hty.more (by omega) (Nat.le_refl _)) _) fun _ => ?_
      obtain ⟨buckets, addrs, hy, rfl, hn, hk⟩ := hty
      have hy' : Stands (Linked.recCounted y rec) buckets addrs := { hy with }
      refine Lockstep.ite Iff.rfl (fun _ => .ok (hy'.abstractsWithin (by omega) hk) _) fun _ => ?_
      exact ih (hy'.abstractsWithin hn hk) _ hroom

theorem enqueue_lockstep (h : Stands x buckets addrs) (startRc : Int) (script : List RecvEvent)
    (hroom : buckets.length + script.length < 2 ^ 31) :
    Lockstep (AbstractsWithin (buckets.length + script.length) addrs.length)
      (changelogReaderEnqueue (LinkedEnv.view x buckets addrs) startRc script)
      (Linked.changelogReaderEnqueue x startRc script) := by
  have hlast := h.abstractsWithin (Nat.le_add_right _ script.length) (Nat.le_refl _)
  unfold changelogReaderEnqueue Linked.changelogReaderEnqueue
  refine Lockstep.ite Iff.rfl (fun _ => .ok hlast _) fun _ => ?_
  refine Lockstep.ite Iff.rfl (fun _ => .ok hlast _) fun _ => ?_
  have hstream : Stands { x with reClpriv := true } buckets addrs := { h with }
  have hbegin := hstream.abstractsWithin (Nat.le_refl _) (Nat.le_refl _)
  refine (recv_lockstep hbegin 0 script hroom).bind fun t y r hty => ?_
  obtain ⟨buckets, addrs, hy, rfl, hn, hk⟩ := hty
  have hy' : Stands { y with reClpriv := y.reClpriv && !closesStream r.1 } buckets addrs :=
    { hy with }
  exact .ok (hy'.abstractsWithin hn hk) _

/-! ## Requests -/

theorem AbstractsWithin.logged {s : ReaderEnv} (h : AbstractsWithin n k s x) (e : Event) :
    AbstractsWithin n k (s.log e) (x.log e) := by
  obtain ⟨buckets, addrs, hs, rfl, hn, hk⟩ := h
  exact ⟨buckets, addrs, hs.logged e, rfl, hn, hk⟩

/-- A reply that is sent is recorded on both sides. -/
theorem ack_lockstep {s : ReaderEnv} (h : AbstractsWithin n k s x) (dst : ConnId) (ret : Int)
    (out : Option Errno) :
    Lockstep (AbstractsWithin n k) (.ok (ackRetcode s dst ret out) : Except Halt _)
      (.ok (Linked.ackRetcode x dst ret out)) :=
  .ok (h.logged _) _

theorem start_lockstep (h : Stands x buckets addrs) (hroom : addrs.length + 1 < 2 ^ 31)
    (req : LcapnetRequest)
    (io : RpcIo) : Lockstep (AbstractsWithin buckets.length (addrs.length + 1))
      (.ok (readerHandleStart (LinkedEnv.view x buckets addrs) req io))
      (Linked.readerHandleStart x req io) := by
  have hsame := h.abstractsWithin (Nat.le_refl _) (Nat.le_succ _)
  unfold readerHandleStart Linked.readerHandleStart
  rw [h.found, state_get_view, Option.isSome_map]
  by_cases hlen : req.lrBody.length < sizeofRegister
  · rw [if_pos hlen, if_pos hlen]
    exact .ok hsame _
  rw [if_neg hlen, if_neg hlen]
  cases stateOf x addrs req.lrForward with
  | some cs => exact .ok hsame _
  | none =>
    obtain ⟨hreg, hview⟩ := h.registered req hroom
    cases io.csAlloc with
    | false => exact .ok hsame _
    | true =>
      cases io.identAlloc with
      | false => exact .ok hsame _
      | true =>
        have hlen : (addrs ++ [x.stateCnt]).length ≤ addrs.length + 1 := by simp
        have hin := hview ▸ hreg.abstractsWithin (Nat.le_refl _) hlen
        exact ack_lockstep hin req.lrForward 0 io.send

theorem fini_lockstep (h : Stands x buckets addrs) (req : LcapnetRequest) (io : RpcIo) :
    Lockstep (AbstractsWithin buckets.length addrs.length)
      (.ok (readerHandleFini (LinkedEnv.view x buckets addrs) req io))
      (Linked.readerHandleFini x req io) := by
  have hsame := h.abstractsWithin (Nat.le_refl _) (Nat.le_refl _)
  unfold readerHandleFini Linked.readerHandleFini
  rw [h.found, state_get_view, Option.isNone_map]
  by_cases hlen : req.lrBody.length < sizeofFini
  · rw [if_pos hlen, if_pos hlen]
    exact .ok hsame _
  rw [if_neg hlen, if_neg hlen]
  cases hf : stateOf x addrs req.lrForward with
  | none => exact .ok hsame _
  | some cs =>
    obtain ⟨hdereg, hview⟩ := h.deregistered hf
    have hin := hview ▸ hdereg.abstractsWithin (Nat.le_refl _) List.length_erase_le
    exact ack_lockstep hin req.lrForward 0 io.send

/-- The state that is found gets the bucket, on both sides. -/
theorem Stands.set_bucket (h : Stands x buckets addrs) (hf : stateOf x addrs cid = some cs)
    (bkt : Option Nat) :
    setCsBucket cid bkt (LinkedEnv.view x buckets addrs).rePeers =
      (LinkedEnv.view (x.setBucket cs bkt) buckets addrs).rePeers :=
  set_bucket_view h.peerList.nodup hf bkt

theorem assign_view (h : Stands x buckets addrs) (hf : stateOf x addrs cid = some cs) (bkt : Nat) :
    assignBucket (LinkedEnv.view x buckets addrs) cid bkt =
      LinkedEnv.view (Linked.assignBucket x cid cs bkt) buckets addrs := by
  have hset := h.set_bucket hf (some bkt)
  unfold assignBucket
  rw [hset]
  rfl

theorem acknowledge_view (h : Stands x buckets addrs)
    (hf : stateOf x addrs cid = some cs) (bkt : Nat) :
    acknowledgeBucket (LinkedEnv.view x buckets addrs) cid bkt =
      LinkedEnv.view (Linked.acknowledgeBucket x cid cs bkt) buckets addrs := by
  have hset := h.set_bucket hf none
  unfold acknowledgeBucket
  rw [hset]
  rfl

theorem pack_lockstep (h : Stands x buckets addrs) (cid : ConnId) (bkt : Nat) (io : RpcIo) :
    Lockstep (AbstractsWithin buckets.length addrs.length)
      (enqueueRec (LinkedEnv.view x buckets addrs) cid bkt io)
      (Linked.enqueueRec x cid bkt io) := by
  unfold enqueueRec Linked.enqueueRec
  refine Lockstep.ite Iff.rfl (fun _ => .ok (h.abstractsWithin (Nat.le_refl _) (Nat.le_refl _)) _)
    fun _ => ?_
  refine Lockstep.ite Iff.rfl (fun _ => .error _) fun _ => ?_
  have hset : Stands (Linked.bucketSetExpiryTime x bkt io.sendNow) buckets addrs := { h with }
  exact .ok ((hset.abstractsWithin (Nat.le_refl _) (Nat.le_refl _)).logged _) _

/-- What `reader_handle_dequeue` does with the bucket it has got. -/
def deliverBucket (s : ReaderEnv) (cid : ConnId) (bkt : Nat) (io : RpcIo) :
    Except Halt (ReaderEnv × Int) :=
  if some bkt = s.reCurrentOpen then
    if io.bktAlloc then
      enqueueRec (assignBucket (openBucket s (callocBlock s io.bktBlock)) cid bkt) cid bkt io
    else .ok (s, -ENOMEM)
  else enqueueRec (assignBucket s cid bkt) cid bkt io

theorem handle_dequeue_eq (s : ReaderEnv) (req : LcapnetRequest) (io : RpcIo) :
    readerHandleDequeue s req io =
    if req.lrBody.length < sizeofDequeue then .ok (s, -EPROTO)
    else (clientStateGet s req.lrForward).elim (.ok (s, -EPROTO)) fun cs =>
      if cs.csBucket.isSome then .ok (s, -EPROTO)
      else recBucketGet s io >>= fun r =>
        r.2.elim (.ok (r.1, 1)) fun bkt => deliverBucket r.1 req.lrForward bkt io := by
  unfold readerHandleDequeue
  refine if_congr Iff.rfl rfl ?_
  cases clientStateGet s req.lrForward with
  | none => rfl
  | some cs =>
    refine if_congr Iff.rfl rfl ?_
    refine bind_congr fun r => ?_
    obtain ⟨t, bkt⟩ := r
    cases bkt with
    | none => rfl
    | some bkt =>
      simp only [Option.elim_some, deliverBucket, recBucketAdd]
      by_cases hopen : some bkt = t.reCurrentOpen
      · simp only [if_pos hopen]
        cases io.bktAlloc <;> rfl
      · simp only [if_neg hopen]
        rfl

theorem deliver_lockstep (h : Stands x buckets addrs) (hf : stateOf x addrs cid = some cs)
    (hroom : buckets.length + 1 < 2 ^ 31) (bkt : Nat) (io : RpcIo) :
    Lockstep (AbstractsWithin (buckets.length + 1) addrs.length)
      (deliverBucket (LinkedEnv.view x buckets addrs) cid bkt io)
      (Linked.deliver x cid cs bkt io) := by
  have hle : buckets.length ≤ buckets.length + 1 := Nat.le_succ _
  unfold deliverBucket Linked.deliver
  refine Lockstep.ite Iff.rfl (fun _ => Lockstep.ite Iff.rfl (fun _ => ?_) fun _ => ?_) fun _ => ?_
  · generalize hb : Linked.callocBlock x io.bktBlock = b
    have hopened := h.opened (hb ▸ h.calloc_free io.bktBlock) hroom
    have hview : assignBucket (openBucket (LinkedEnv.view x buckets addrs) b) cid bkt = _ :=
      assign_view hopened hf bkt
    have hassigned : Stands (Linked.assignBucket (Linked.openBucket x b) cid cs bkt)
        (buckets ++ [b]) addrs := { hopened with }
    have hlen : (buckets ++ [b]).length ≤ buckets.length + 1 := by simp
    have hadd : (Linked.recBucketAdd x true io.bktBlock).1 = Linked.openBucket x b := by
      rw [← hb]
      rfl
    rw [h.calloc, hb, hview, hadd]
    exact (pack_lockstep hassigned cid bkt io).mono fun t y hty => hty.more hlen (Nat.le_refl _)
  · exact .ok (h.abstractsWithin hle (Nat.le_refl _)) _
  · have hassigned : Stands (Linked.assignBucket x cid cs bkt) buckets addrs := { h with }
    rw [assign_view h hf]
    exact (pack_lockstep hassigned cid bkt io).mono fun t y hty => hty.more hle (Nat.le_refl _)

theorem dequeue_lockstep (h : Stands x buckets addrs) (hroom : buckets.length + 1 < 2 ^ 31)
    (req : LcapnetRequest)
    (io : RpcIo) : Lockstep (AbstractsWithin (buckets.length + 1) addrs.length)
      (readerHandleDequeue (LinkedEnv.view x buckets addrs) req io)
      (Linked.readerHandleDequeue x req io) := by
  have hle : buckets.length ≤ buckets.length + 1 := Nat.le_succ _
  have hsame := h.abstractsWithin hle (Nat.le_refl _)
  rw [handle_dequeue_eq, Linked.readerHandleDequeue, h.found, state_get_view]
  refine Lockstep.ite Iff.rfl (fun _ => .ok hsame _) fun _ => ?_
  cases hf : stateOf x addrs req.lrForward with
  | none => exact .ok hsame _
  | some cs =>
    refine Lockstep.ite Iff.rfl (fun _ => .ok hsame _) fun _ => ?_
    refine (get_lockstep h io).bind fun t y bkt hty => ?_
    obtain ⟨⟨hy, rfl⟩, hstates⟩ := hty
    cases bkt with
    | none => exact .ok (hy.abstractsWithin hle (Nat.le_refl _)) _
    | some bkt =>
      have hf' : stateOf y addrs req.lrForward = some cs := by
        rw [stateOf, hstates]
        exact hf
      exact deliver_lockstep hy hf' hroom bkt io

/-! ## Acknowledgements -/

/-- The loop ends behind the first bucket it removes, by the link of that bucket. -/
theorem linked_clear_stops (x : LinkedEnv) (bkt fuel k : Nat) :
    Linked.clearLoop io g fuel k (Linked.recBucketDestroy x bkt)
      (Linked.bucketNext (Linked.recBucketDestroy x bkt) (some bkt)) =
      .ok (Linked.recBucketDestroy x bkt, none) := by
  have hnext : Linked.bucketNext (Linked.recBucketDestroy x bkt) (some bkt) = none := by
    simp only [Linked.bucketNext, Linked.recBucketDestroy, list_remove_eq, Function.update_self]
  rw [hnext]
  cases fuel <;> rfl

theorem Stands.destroyed (h : Stands x buckets addrs) (hm : bkt ∈ buckets) :
    Stands (Linked.recBucketDestroy x bkt) (buckets.erase bkt) addrs := by
  obtain ⟨a, b, rfl, ha⟩ := List.eq_append_cons_of_mem hm
  have herase : (a ++ bkt :: b).erase bkt = a ++ b := by
    rw [List.erase_append_right _ ha, List.erase_cons_head]
  have hb := list_remove_brings h.bucketList
  have hnodup := h.bucketList.nodup
  refine ⟨herase ▸ hb.represents, fun p hp => ?_, fun p => ?_, fun p hp => ?_, h.peerList,
    h.known, h.given⟩
  · by_cases he : p = bkt
    · exact congrArg Prod.snd (hb.unlinked p (List.mem_singleton.mpr he))
    · have hp' : p ∉ a ++ bkt :: b := fun hin => hp ((List.mem_erase_of_ne he).mpr hin)
      rw [herase] at hp
      have hlinks : (listRemove x.reBuckets bkt).lnNext p = x.reBuckets.lnNext p :=
        congrArg Prod.snd (hb.outside p hp' hp)
      exact hlinks.trans (h.loose p hp')
  · rw [hnodup.mem_erase_iff]
    simp only [Linked.recBucketDestroy]
    by_cases he : p = bkt
    · subst he
      simp
    · rw [Function.update_of_ne he, h.live]
      simp [he]
  · exact h.named p (List.mem_of_mem_erase hp)

/-- Both loops look at one bucket. -/
theorem loop_lockstep (h : Stands x buckets addrs) (g : Garbage) (n n' k head : Nat) :
    Lockstep (AbstractsWithin buckets.length addrs.length)
      (clearLoop io g (n + 1) k (LinkedEnv.view x buckets addrs) (some head))
      (Linked.clearLoop io g (n' + 1) k x (some head)) := by
  rw [clearLoop, Linked.clearLoop, h.ready]
  have hsame := h.abstractsWithin (Nat.le_refl _) (Nat.le_refl _)
  refine Lockstep.ite Iff.rfl (fun _ => .ok hsame _) fun _ => ?_
  have hmoved : Stands { x with reCleanupNext := some head } buckets addrs := { h with }
  have hindex := max_index_view { x with reCleanupNext := some head } buckets addrs head
  have hview : { LinkedEnv.view x buckets addrs with reCleanupNext := some head } =
      LinkedEnv.view { x with reCleanupNext := some head } buckets addrs := rfl
  simp only [hview, hindex]
  cases Linked.recBucketMaxIndex { x with reCleanupNext := some head } head with
  | error e => exact .error e
  | ok endrec =>
    have hcall : Stands (({ x with reCleanupNext := some head } : LinkedEnv).log
        (.cleared (Linked.readerDevice x) x.reCfg.ccfClreader endrec (io.clearRc k)))
          buckets addrs := { h with }
    refine Lockstep.ite Iff.rfl (fun _ =>
      .ok (hcall.abstractsWithin (Nat.le_refl _) (Nat.le_refl _)) _) fun _ => ?_
    have hlive : head ∉ buckets ↔ x.bktLive head = false := by
      rw [← h.live, Bool.not_eq_true]
    refine Lockstep.ite hlive (fun _ => .error _) fun hm => ?_
    rw [clear_loop_stops hcall.bucketList.nodup, linked_clear_stops]
    have hgone := hcall.destroyed (not_not.mp hm)
    exact .ok (hgone.abstractsWithin List.length_erase_le (Nat.le_refl _)) _

theorem handle_clear_eq (s : ReaderEnv) (req : LcapnetRequest) (io : RpcIo) :
    readerHandleClear s req io =
    if req.lrBody.length < sizeofClear then .ok (s, -EPROTO)
    else (clientStateGet s req.lrForward).elim (.ok (s, -EPROTO)) fun cs =>
      cs.csBucket.elim (.ok (s, 0)) fun bkt =>
        s.reCleanupNext.elim (.error .nullDeref) fun head =>
          clearLoop io (io.garbage.afterAck s bkt) (s.reBuckets.length + 1) 0
              (acknowledgeBucket s req.lrForward bkt) (some head) >>= fun r =>
            r.2.elim (.ok (ackRetcode r.1 req.lrForward 0 io.send)) fun rc => .ok (r.1, rc) := by
  unfold readerHandleClear
  refine if_congr Iff.rfl rfl ?_
  cases clientStateGet s req.lrForward with
  | none => rfl
  | some cs =>
    simp only [Option.elim_some]
    cases cs.csBucket with
    | none => rfl
    | some bkt =>
      have hhead : (acknowledgeBucket s req.lrForward bkt).reCleanupNext = s.reCleanupNext := rfl
      simp only [Option.elim_some, hhead]
      cases s.reCleanupNext with
      | none => rfl
      | some head =>
        refine bind_congr fun r => ?_
        obtain ⟨t, rc⟩ := r
        cases rc <;> rfl

theorem clear_lockstep (h : Stands x buckets addrs) (req : LcapnetRequest) (io : RpcIo) :
    Lockstep (AbstractsWithin buckets.length addrs.length)
      (readerHandleClear (LinkedEnv.view x buckets addrs) req io)
      (Linked.readerHandleClear x req io) := by
  have hsame := h.abstractsWithin (Nat.le_refl _) (Nat.le_refl _)
  rw [handle_clear_eq, Linked.readerHandleClear, h.found, state_get_view]
  refine Lockstep.ite Iff.rfl (fun _ => .ok hsame _) fun _ => ?_
  cases hf : stateOf x addrs req.lrForward with
  | none => exact .ok hsame _
  | some cs =>
    have hbind : ∀ f : Option Nat → Except Halt (LinkedEnv × Int), (Except.ok (some cs) >>= f) =
        f (some cs) :=
      fun _ => rfl
    simp only [hbind, Option.map_some, Option.elim_some]
    cases (x.states cs).csBucket with
    | none => exact .ok hsame _
    | some bkt =>
      have hacked : Stands (Linked.acknowledgeBucket x req.lrForward cs bkt) buckets addrs :=
        { h with }
      have hhead : (Linked.acknowledgeBucket x req.lrForward cs bkt).reCleanupNext =
          (LinkedEnv.view x buckets addrs).reCleanupNext := rfl
      simp only [Option.elim_some, Linked.clearHeld]
      rw [acknowledge_view h hf, hhead]
      cases (LinkedEnv.view x buckets addrs).reCleanupNext with
      | none => exact .error _
      | some head =>
        refine (loop_lockstep hacked _ _ _ _ _).bind fun t y rc hty => ?_
        cases rc with
        | none => exact ack_lockstep hty req.lrForward 0 io.send
        | some rc => exact .ok hty rc

theorem dispatch_lockstep (h : Stands x buckets addrs) (hb : buckets.length + 1 < 2 ^ 31)
    (ha : addrs.length + 1 < 2 ^ 31) (req : LcapnetRequest) (io : RpcIo) :
    Lockstep (AbstractsWithin (buckets.length + 1) (addrs.length + 1))
      (rpcDispatch (LinkedEnv.view x buckets addrs) req io) (Linked.rpcDispatch x req io) := by
  have hsame := h.abstractsWithin (Nat.le_succ _) (Nat.le_succ _)
  unfold rpcDispatch Linked.rpcDispatch
  refine Lockstep.ite Iff.rfl (fun _ => .ok hsame _) fun _ => ?_
  cases rpcOpType req.opType with
  | none => exact .ok hsame _
  | some op =>
    cases op with
    | start =>
      exact (start_lockstep h ha req io).mono fun t y hty =>
        hty.more (Nat.le_succ _) (Nat.le_refl _)
    | dequeue =>
      exact (dequeue_lockstep h hb req io).mono fun t y hty =>
        hty.more (Nat.le_refl _) (Nat.le_succ _)
    | clear =>
      exact (clear_lockstep h req io).mono fun t y hty => hty.more (Nat.le_succ _) (Nat.le_succ _)
    | fini =>
      exact (fini_lockstep h req io).mono fun t y hty => hty.more (Nat.le_succ _) (Nat.le_succ _)
    | enqueue => exact .ok hsame _
    | ack => exact .ok hsame _
    | signal => exact .ok hsame _

theorem rpc_lockstep (h : Stands x buckets addrs) (hb : buckets.length + 1 < 2 ^ 31)
    (ha : addrs.length + 1 < 2 ^ 31) (req : LcapnetRequest) (io : RpcIo) :
    Lockstep (AbstractsWithin (buckets.length + 1) (addrs.length + 1))
      (changelogReaderRpcHdl (LinkedEnv.view x buckets addrs) req io)
      (Linked.changelogReaderRpcHdl x req io) := by
  unfold changelogReaderRpcHdl Linked.changelogReaderRpcHdl
  refine (dispatch_lockstep h hb ha req io).bind fun t y rc hty => ?_
  exact Lockstep.ite Iff.rfl (fun _ => ack_lockstep hty req.lrForward rc io.ackSend)
    fun _ => .ok hty rc

/-! ## Runs -/

theorem AbstractsWithin.abstracts {s : ReaderEnv} (h : AbstractsWithin n k s x) :
    Abstracts s x := by
  obtain ⟨buckets, addrs, hs, he, _, _⟩ := h
  exact ⟨buckets, addrs, hs, he⟩

/-- The counts of both lists have room for what the step may add. -/
def Roomy (x : LinkedEnv) : Label → Prop
  | .enqueue _ script => x.reBuckets.lCount + script.length < 2 ^ 31
  | .request _ _ => x.reBuckets.lCount + 1 < 2 ^ 31 ∧ x.rePeers.lCount + 1 < 2 ^ 31
  | .sigterm => True

instance (x : LinkedEnv) : (l : Label) → Decidable (Roomy x l)
  | .enqueue _ script => inferInstanceAs (Decidable (x.reBuckets.lCount + script.length < 2 ^ 31))
  | .request _ _ =>
    inferInstanceAs (Decidable (x.reBuckets.lCount + 1 < 2 ^ 31 ∧ x.rePeers.lCount + 1 < 2 ^ 31))
  | .sigterm => isTrue trivial

/-- Either both readers take a step, to states that correspond again, or neither does. -/
theorem step_lockstep (h : Stands x buckets addrs) (hroom : Roomy x l) :
    Option.Rel Abstracts (readerStep (LinkedEnv.view x buckets addrs) l) (linkedStep x l) := by
  have hb := h.bucketList.count
  have ha := h.peerList.count
  cases l with
  | enqueue startRc script =>
    have hfit : x.reBuckets.lCount + script.length < 2 ^ 31 := hroom
    have hlock := enqueue_lockstep h startRc script (by omega)
    unfold readerStep linkedStep
    have hgo : ((LinkedEnv.view x buckets addrs).stopped ||
        (LinkedEnv.view x buckets addrs).terminateSig) =
        (x.stopped || x.terminateSig) := rfl
    simp only [hgo]
    cases x.stopped || x.terminateSig with
    | true => exact .none
    | false =>
      generalize changelogReaderEnqueue (LinkedEnv.view x buckets addrs) startRc
        script = m at hlock ⊢
      generalize Linked.changelogReaderEnqueue x startRc script = n at hlock ⊢
      cases hlock with
      | error e => exact .none
      | @ok t y hty r =>
        obtain ⟨rc, rest⟩ := r
        cases rest with
        | cons e rest => exact .none
        | nil =>
          obtain ⟨buckets, addrs, hy, rfl, _, _⟩ := hty
          have hy' : Stands { y with stopped := decide (rc < 0) } buckets addrs := { hy with }
          exact .some ⟨buckets, addrs, hy', rfl⟩
  | request req io =>
    have hfit : x.reBuckets.lCount + 1 < 2 ^ 31 ∧ x.rePeers.lCount + 1 < 2 ^ 31 := hroom
    have hlock := rpc_lockstep h (by omega) (by omega) req io
    unfold readerStep linkedStep
    have hgo : (LinkedEnv.view x buckets addrs).stopped = x.stopped := rfl
    simp only [hgo]
    cases x.stopped with
    | true => exact .none
    | false =>
      generalize changelogReaderRpcHdl (LinkedEnv.view x buckets addrs) req io = m at hlock ⊢
      generalize Linked.changelogReaderRpcHdl x req io = n at hlock ⊢
      cases hlock with
      | error e => exact .none
      | ok hty rc => exact .some hty.abstracts
  | sigterm =>
    have hs : Stands { x with terminateSig := true } buckets addrs := { h with }
    exact .some ⟨buckets, addrs, hs, rfl⟩

theorem init_stands (cfg : LcapCfg) (idx : Nat) : Stands (Linked.initialReader cfg idx) [0] [] := by
  have hempty : Represents Linked.unlinked [] := tracks_empty.represents
  have hone : [0].length < 2 ^ 31 := Nat.one_lt_two_pow_iff.mpr (Nat.succ_ne_zero 30)
  have hb := list_append_brings hempty (n := 0) List.not_mem_nil hone
  refine ⟨hb.represents, fun p hp => ?_, fun p => ?_, fun p hp => ?_, hempty, fun cs => ?_,
    fun cs hcs => ?_⟩
  · exact congrArg Prod.snd (hb.outside p List.not_mem_nil hp)
  · rw [List.mem_singleton]
    simp only [Linked.initialReader]
    by_cases he : p = 0
    · subst he
      simp
    · rw [Function.update_of_ne he]
      simp [he]
  · rw [List.mem_singleton.mp hp]
    exact Nat.one_pos
  · simp [Linked.initialReader]
  · cases hcs

end

namespace Sample

/-- Two clients come, one bucket is delivered, acknowledged and released, its block is used
again, and one client leaves. -/
def linkedRun : List Label :=
  [batch [record 1, record 2], read [record 3], .request (start [1]) (calm 5),
    .request (start [2]) (calm 5), .request (dequeue [1]) (calm 5),
    .request (clear [1]) (calm 7), reusing [record 4, record 5], .request (fini [1]) (calm 8)]

def linkedAfter : LinkedEnv := replay (linkedReader cfg 0) (linkedReader cfg 0).init linkedRun

end Sample

end Lcap.Proofs
