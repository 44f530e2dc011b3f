import Lcap.Net.Network
import Lcap.Reader.Upstream

namespace Lcap.Network
open Reader Systems

/-- The whole installation with the changelogs of its MDTs: all that has ever been
appended to them, what is left of them for the readers since these were started, and what
happened in the earlier lives of the installation. -/
structure Deployment where
  net : NetState
  logs : Nat → List ChangelogRec := fun _ => []
  streams : Nat → Upstream := fun _ => ⟨[], 0⟩
  past : List NetEvent := []

namespace Deployment

/-- The history of all lives. -/
def hist (d : Deployment) : List NetEvent := d.past ++ d.net.hist

end Deployment

/-- `llapi_changelog_clear` covers the record. -/
def covers (i : Nat) (rec : ChangelogRec) : NetEvent → Bool
  | .reader j (.cleared _ _ endrec _) => j = i ∧ (rec.crIndex : Int) ≤ endrec
  | .reader _ _ | .returned _ _ => false

/-- A record that the MDT need not keep: a call has covered it, failed or not. -/
def Released (i : Nat) (rec : ChangelogRec) (hist : List NetEvent) : Prop :=
  ∃ e ∈ hist, covers i rec e = true

instance (i : Nat) (rec : ChangelogRec) (hist : List NetEvent) : Decidable (Released i rec hist) :=
  inferInstanceAs (Decidable (∃ e ∈ hist, covers i rec e = true))

inductive DeploymentMove
  | append (i : Nat) (rec : ChangelogRec)
  | read (i : Nat) (startRc : Int) (startPos : Nat) (script : List RecvEvent)
  | move (m : NetMove)
  | crash (lost : Nat → Nat)

def isEnqueue : NetMove → Bool
  | .enqueue _ _ _ => true
  | .join _ | .call _ _ _ | .forward _ | .serve _ _ | .receive _ | .interrupt _ _ | .sigterm =>
    false

/-- The readers get what their changelogs contain. In a crash all processes and all that is
on its way between them are gone; when they are started again, each changelog has lost at
most released records. -/
def deploymentStep (N : Site) (d : Deployment) : DeploymentMove → Option Deployment
  | .append i rec =>
    if ∀ r ∈ d.logs i, r.crIndex < rec.crIndex then
      some { d with
        logs := Function.update d.logs i (d.logs i ++ [rec])
        streams := Function.update d.streams i
          { d.streams i with log := (d.streams i).log ++ [rec] } }
    else none
  | .read i startRc startPos script =>
    let pos := streamPos (d.net.readers i) (d.streams i) startPos
    if ((d.net.readers i).reClpriv = false →
      StartsBefore (d.net.readers i) (d.streams i) startPos) ∧
        received script <+: (d.streams i).log.drop pos then
      (netStep N d.net (.enqueue i startRc script)).map fun net =>
        { d with
          net := net
          streams := Function.update d.streams i
            { d.streams i with pos := pos + (received script).length } }
    else none
  | .move m =>
    if isEnqueue m then none else (netStep N d.net m).map fun net => { d with net := net }
  | .crash lost =>
    if ∀ i ∈ List.range N.config.ccfMdt.length, ∀ r ∈ (d.logs i).take (lost i),
      Released i r d.hist then
      some { d with
        net := (network N).init
        streams := fun i => ⟨(d.logs i).drop (lost i), 0⟩
        past := d.hist }
    else none

/-- An installation that is started on empty changelogs. -/
def deployment (N : Site) : System Deployment DeploymentMove where
  init := { net := (network N).init }
  step := deploymentStep N

end Lcap.Network
