import Lcap.Proofs.Hops
import Mathlib.Data.List.Nodup

namespace Lcap.Proofs
open Reader Net Wire Network Systems
open Client (WireRequest repliesTo)

/-! ## What is on its way, as messages of the protocol -/

/-- A message of the protocol: a request or a reply of a client, or one between the
broker and a reader about that reader itself. -/
inductive Letter
  | request (cid : ConnId) (req : WireRequest)
  | reply (cid : ConnId) (rep : Reply)
  | notice

/-- The clients of one reader. -/
def OfReader (N : Site) (i : Nat) (cid : ConnId) : Prop :=
  generated cid = true ∧ (N.args cid).mdtname = N.device i

instance (N : Site) (i : Nat) (cid : ConnId) : Decidable (OfReader N i cid) :=
  inferInstanceAs (Decidable (_ ∧ _))

/-- The frames of a message that a peer sends to the broker. -/
inductive Upward (N : Site) : ConnId → Letter → Parts UInt8 → Prop
  | request (hc : generated cid = true) :
    Upward N cid (.request cid req) [[], (N.args cid).mdtname, (req.pack cid).lrBody]
  | reply (hi : i < N.config.ccfMdt.length) (hc : OfReader N i cid)
      (hrep : Renders N.layout rep bytes) :
    Upward N (N.device i) (.reply cid rep) [cid, [], bytes]
  | signal (hi : i < N.config.ccfMdt.length) :
    Upward N (N.device i) .notice (signalFrames errcode (N.device i))

/-- The frames of a message of the broker to a peer. -/
inductive Downward (N : Site) : ConnId → Letter → Parts UInt8 → Prop
  | request (hi : i < N.config.ccfMdt.length) (hc : OfReader N i cid) :
    Downward N (N.device i) (.request cid req) [[], cid, [], (req.pack cid).lrBody]
  | reply (hc : generated cid = true) (hrep : Renders N.layout rep bytes) :
    Downward N cid (.reply cid rep) [[], bytes]
  | refusal (hi : i < N.config.ccfMdt.length) : Downward N (N.device i) .notice [[], packAck ret]

structure Mail where
  up : ConnId → List Letter := fun _ => []
  down : ConnId → List Letter := fun _ => []

/-- A peer of the broker. -/
def IsPeer (N : Site) (who : ConnId) : Prop :=
  generated who = true ∨ ∃ i, i < N.config.ccfMdt.length ∧ N.device i = who

/-- All that is on its way are messages of the protocol, between peers of the broker. A
client that is owed a reply is known to the broker, and only clients wait for one. -/
structure Mailed (N : Site) (x : NetState) (m : Mail) : Prop where
  up : ∀ who, List.Forall₂ (Upward N who) (m.up who) (x.up who)
  down : ∀ who, List.Forall₂ (Downward N who) (m.down who) (x.down who)
  known : ∀ who, x.known who = true → IsPeer N who
  owed : ∀ cid, (x.clients cid).owed = true → x.known cid = true
  waits : ∀ cid, (x.clients cid).waiting.isSome = true → generated cid = true

namespace Mail

def post (m : Mail) (who : ConnId) (letters : List Letter) : Mail :=
  { m with up := Function.update m.up who (m.up who ++ letters) }

def pick (m : Mail) (who : ConnId) (rest : List Letter) : Mail :=
  { m with up := Function.update m.up who rest }

def route (m : Mail) (dst : ConnId) (letter : Letter) : Mail :=
  { m with down := Function.update m.down dst (m.down dst ++ [letter]) }

def hand (m : Mail) (dst : ConnId) (rest : List Letter) : Mail :=
  { m with down := Function.update m.down dst rest }

end Mail

section
variable {N : Site} {x y : NetState} {m : Mail} {i j : Nat} {who cid : ConnId}

theorem device_eq (hi : i < N.config.ccfMdt.length) : N.device i = N.config.ccfMdt[i] := by
  rw [Site.device, List.getD_eq_getElem?_getD, List.getElem?_eq_getElem hi, Option.getD_some]

theorem device_named (hi : i < N.config.ccfMdt.length) : N.device i ≠ [] ∧ 0 ∉ N.device i := by
  rw [device_eq hi]
  exact N.named _ (List.getElem_mem hi)

theorem device_injective (hi : i < N.config.ccfMdt.length) (hj : j < N.config.ccfMdt.length)
    (h : N.device i = N.device j) : i = j := by
  rw [device_eq hi, device_eq hj] at h
  exact (List.Nodup.getElem_inj_iff N.distinct).mp h

theorem generated_ne_nil (h : generated cid = true) : cid ≠ [] := by
  rintro rfl
  cases h

theorem generated_zero (h : generated cid = true) : 0 ∈ cid := by
  cases cid with
  | nil => cases h
  | cons b rest =>
    have hb : b = 0 := by simpa [generated] using h
    rw [hb]
    exact List.mem_cons_self

/-- Nobody is both a client and a reader. -/
theorem generated_ne_device (h : generated cid = true) (hi : i < N.config.ccfMdt.length) :
    cid ≠ N.device i := by
  rintro rfl
  exact (device_named hi).2 (generated_zero h)

/-- The name that a client asks for is that of a reader, if it is anybody's. -/
theorem IsPeer.device (h : IsPeer N (N.args cid).mdtname) :
    ∃ i, i < N.config.ccfMdt.length ∧ N.device i = (N.args cid).mdtname :=
  h.resolve_left fun hg => N.asked cid (generated_zero hg)

/-! ## What becomes of it -/

theorem Mailed.post {messages : List (Parts UInt8)} (h : Mailed N x m) (hwho : IsPeer N who)
    (hmsgs : List.Forall₂ (Upward N who) letters messages) :
    Mailed N (x.post who messages) (m.post who letters) := by
  refine ⟨fun w => ?_, h.down, fun w hw => ?_, fun cid ho => ?_, h.waits⟩
  · by_cases hwho : w = who
    · subst hwho
      simp only [Mail.post, NetState.post, Function.update_self]
      exact List.rel_append (h.up w) hmsgs
    · simp only [Mail.post, NetState.post, Function.update_of_ne hwho]
      exact h.up w
  · by_cases hw' : w = who
    · exact hw' ▸ hwho
    · exact h.known w (by simpa [NetState.post, Function.update_of_ne hw'] using hw)
  · by_cases hc : cid = who
    · simp [NetState.post, hc]
    · simp only [NetState.post, Function.update_of_ne hc]
      exact h.owed cid ho

theorem Mailed.pick (h : Mailed N x m) (hrest : List.Forall₂ (Upward N who) letters rest)
    (ctx : Broker.LcapCtx) :
    Mailed N (taken x who rest ctx) (m.pick who letters) := by
  refine ⟨fun w => ?_, h.down, h.known, h.owed, h.waits⟩
  by_cases hw : w = who
  · subst hw
    simpa only [Mail.pick, taken, Function.update_self] using hrest
  · simp only [Mail.pick, taken, Function.update_of_ne hw]
    exact h.up w

theorem Mailed.hand (h : Mailed N x m) (hrest : List.Forall₂ (Downward N who) letters rest) :
    Mailed N { x with down := Function.update x.down who rest } (m.hand who letters) := by
  refine ⟨h.up, fun w => ?_, h.known, h.owed, h.waits⟩
  by_cases hw : w = who
  · subst hw
    simpa only [Mail.hand, Function.update_self] using hrest
  · simp only [Mail.hand, Function.update_of_ne hw]
    exact h.down w

theorem route_known (hk : x.known dst = true) (parts : Parts UInt8) :
    x.route (dst :: parts) =
      { x with down := Function.update x.down dst (x.down dst ++ [parts]) } :=
  if_pos hk

theorem route_unknown (hk : x.known dst = false) (parts : Parts UInt8) :
    x.route (dst :: parts) = x :=
  if_neg (by simp [hk])

theorem Mailed.route (h : Mailed N x m) (hl : Downward N dst letter parts)
    (hk : x.known dst = true) :
    Mailed N (x.route (dst :: parts)) (m.route dst letter) := by
  rw [route_known hk]
  refine ⟨h.up, fun w => ?_, h.known, h.owed, h.waits⟩
  by_cases hw : w = dst
  · subst hw
    simp only [Mail.route, Function.update_self]
    exact List.rel_append (h.down w) (.cons hl .nil)
  · simp only [Mail.route, Function.update_of_ne hw]
    exact h.down w

/-- Nothing on its way has changed, but for what a client waits for. -/
theorem Mailed.set (h : Mailed N x m) {c : Proc} (ho : c.owed = true → x.known cid = true)
    (hw : c.waiting.isSome = true → generated cid = true) : Mailed N (x.set cid c) m := by
  refine ⟨h.up, h.down, h.known, fun cid' ho' => ?_, fun cid' hw' => ?_⟩
  · by_cases he : cid' = cid
    · subst he
      simp only [NetState.set, Function.update_self] at ho'
      exact ho ho'
    · simp only [NetState.set, Function.update_of_ne he] at ho'
      exact h.owed cid' ho'
  · by_cases he : cid' = cid
    · subst he
      simp only [NetState.set, Function.update_self] at hw'
      exact hw hw'
    · simp only [NetState.set, Function.update_of_ne he] at hw'
      exact h.waits cid' hw'

theorem Mailed.finish (h : Mailed N x m) {c : Proc}
    (ho : c.owed = true → x.known cid = true) (d : Left) :
    Mailed N (x.finish N.layout cid c d) m := by
  have hset := h.set (c := { c with stage := d.stage, cache := d.cache, waiting := none }) ho
    (by simp)
  exact ⟨hset.up, hset.down, hset.known, hset.owed, hset.waits⟩

theorem Mailed.request (h : Mailed N x m) (hg : generated cid = true) (req : WireRequest) :
    Mailed N (sendRequest N x cid req) (m.post cid [.request cid req]) :=
  h.post (.inl hg) (.cons (.request hg) .nil)

theorem request_known (N : Site) (x : NetState) (cid : ConnId) (req : WireRequest) :
    (sendRequest N x cid req).known cid = true := by
  simp [sendRequest, NetState.post]

/-- Only messages of the broker's peers are on their way. -/
theorem Mailed.sender (h : Mailed N x m) (hup : x.up who = message :: rest) :
    ∃ letter letters, m.up who = letter :: letters ∧ Upward N who letter message ∧
      List.Forall₂ (Upward N who) letters rest := by
  have hall := h.up who
  rw [hup] at hall
  generalize hm : m.up who = queue at hall
  cases hall with
  | cons hl hrest => exact ⟨_, _, rfl, hl, hrest⟩

theorem Mailed.receiver (h : Mailed N x m) (hdown : x.down who = message :: rest) :
    ∃ letter letters, m.down who = letter :: letters ∧ Downward N who letter message ∧
      List.Forall₂ (Downward N who) letters rest := by
  have hall := h.down who
  rw [hdown] at hall
  generalize hm : m.down who = queue at hall
  cases hall with
  | cons hl hrest => exact ⟨_, _, rfl, hl, hrest⟩

end

end Lcap.Proofs
