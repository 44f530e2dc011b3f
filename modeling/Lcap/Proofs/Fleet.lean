import Lcap.Client.Fleet
import Lcap.Proofs.Seats

namespace Lcap.Proofs
open Reader Client Systems

/-- What a move of the fleet is to the reader. -/
def readerLabel (x : Fleet) : FleetMove → Option Label
  | .deliver cid io => (x.peers cid).wire.map fun req => .request (req.pack cid) io
  | .enqueue startRc script => some (.enqueue startRc script)
  | .sigterm => some .sigterm
  | .call _ _ _ | .receive _ | .interrupt _ _ => none

/-- The request that the reader serves in a move. -/
def cause (x : Fleet) : FleetMove → Option WireRequest
  | .deliver cid _ => (x.peers cid).wire
  | _ => none

/-- A condition on the steps of the reader alone. -/
def OnReader (C : ReaderEnv → Label → Prop) (x : Fleet) (m : FleetMove) : Prop :=
  ∀ l ∈ readerLabel x m, C x.env l

instance [∀ s l, Decidable (C s l)] (x : Fleet) (m : FleetMove) : Decidable (OnReader C x m) :=
  inferInstanceAs (Decidable (∀ l ∈ readerLabel x m, C x.env l))

/-- A call of the client ends so: without a reply, with one that the reader has sent it,
or before any has come. -/
inductive EndsWith (recSize : Nat) (args : ConnId → StartArgs) (x : Fleet) (cid : ConnId) :
    Done → Prop
  | ret (h : (x.peers cid).outcome recSize (args cid) io call = some (.ret d)) :
      EndsWith recSize args x cid d
  | leave (h : (x.peers cid).outcome recSize (args cid) io call = some (.leave req d)) :
      EndsWith recSize args x cid d
  | replied (h : (x.peers cid).outcome recSize (args cid) io call = some (.ask req resume))
      (hrep : rep ∈ repliesTo cid x.env.trace) : EndsWith recSize args x cid (resume rep)
  | interrupted (h : (x.peers cid).outcome recSize (args cid) io call = some (.ask req resume)) :
      EndsWith recSize args x cid (resume (.ack 0))

/-- The reader takes a step, a call of a client ends, or it has sent its request. -/
inductive Moved (recSize : Nat) (args : ConnId → StartArgs) (x : Fleet) (m : FleetMove)
    (y : Fleet) : Prop
  | reader (hl : readerLabel x m = some l) (hs : readerStep x.env l = some y.env)
      (hpeers : ∀ cid, (y.peers cid).pzd = (x.peers cid).pzd)
      (hhist : y.hist = x.hist ++ (y.env.trace.drop x.env.trace.length).map (.reader · (cause x m)))
  | ended (hl : readerLabel x m = none) (hend : EndsWith recSize args x cid d)
      (hy : y = x.finish cid c d)
  | asked (hl : readerLabel x m = none) (hc : c.pzd = (x.peers cid).pzd) (hy : y = x.set cid c)

section
variable {recSize : Nat} {args : ConnId → StartArgs} {x y : Fleet} {C : ReaderEnv → Label → Prop}

theorem advanced_moved (x' : Fleet) {l : Label} (hl : readerLabel x m = some l)
    (hx : x'.env = x.env)
    (hhist : x'.hist = x.hist) (hpeers : ∀ cid, (x'.peers cid).pzd = (x.peers cid).pzd)
    (hs : (readerStep x.env l).map (x'.advance (cause x m)) = some y) :
    Moved recSize args x m y := by
  obtain ⟨env, henv, rfl⟩ := Option.map_eq_some_iff.mp hs
  refine .reader hl henv hpeers ?_
  simp only [Fleet.advance, hx, hhist]

theorem set_pzd (x : Fleet) (hc : c.pzd = (x.peers cid).pzd) (cid' : ConnId) :
    ((x.set cid c).peers cid').pzd = (x.peers cid').pzd := by
  by_cases he : cid' = cid
  · subst he
    simpa [Fleet.set] using hc
  · simp [Fleet.set, Function.update_of_ne he]

theorem fleet_step_moved (hs : fleetStep recSize args x m = some y) : Moved recSize args x m y := by
  cases m with
  | call cid call io =>
    simp only [fleetStep] at hs
    split at hs
    · cases hs
    split at hs
    · cases hs
    · rename_i d hd
      cases hs
      exact .ended rfl (.ret hd) rfl
    · rename_i req d hd
      cases hs
      exact .ended rfl (.leave hd) rfl
    · rename_i req resume hask
      cases hs
      exact Moved.asked (c := { (x.peers cid).sent req with waiting := some (call, io) }) rfl rfl
        rfl
  | deliver cid io =>
    simp only [fleetStep] at hs
    split at hs
    · cases hs
    rename_i req hw
    have hl : readerLabel x (.deliver cid io) = some (.request (req.pack cid) io) := by
      rw [readerLabel, hw, Option.map_some]
    have hcause : cause x (.deliver cid io) = some req := hw
    rw [← hcause] at hs
    exact advanced_moved (x.set cid { x.peers cid with wire := none }) hl rfl rfl (set_pzd x rfl) hs
  | receive cid =>
    simp only [fleetStep] at hs
    split at hs
    · rename_i rep rest _ hpend
      split at hs
      · rename_i req resume hask
        cases hs
        have hmem : rep ∈ (repliesTo cid x.env.trace).drop (x.peers cid).taken := by
          rw [hpend]
          exact List.mem_cons_self
        exact .ended rfl (.replied hask (List.mem_of_mem_drop hmem)) rfl
      · cases hs
    · cases hs
  | interrupt cid e =>
    simp only [fleetStep] at hs
    split at hs
    · split at hs
      · rename_i req resume hask
        cases hs
        exact .ended rfl (.interrupted hask) rfl
      · cases hs
    · cases hs
  | enqueue startRc script => exact advanced_moved x rfl rfl rfl (fun _ => rfl) hs
  | sigterm => exact advanced_moved x rfl rfl rfl (fun _ => rfl) hs

/-- The reader of a fleet runs by its own steps. -/
theorem reach_fleet_reader (h : Reach (fleet recSize args cfg idx) (OnReader C) x) :
    Reach (reader cfg idx) C x.env := by
  refine Steps.project Fleet.env h fun x m y hc hs => ?_
  cases fleet_step_moved hs with
  | reader hl hs _ _ => exact Steps.single (hc _ hl) hs
  | ended _ _ hy =>
    rw [hy]
    exact .refl
  | asked _ _ hy =>
    rw [hy]
    exact .refl

theorem reach_fleet_always (h : Reach (fleet recSize args cfg idx) D x) :
    Reach (reader cfg idx) Always x.env :=
  reach_fleet_reader (h.mono fun _ _ _ _ _ => trivial)

end

end Lcap.Proofs
