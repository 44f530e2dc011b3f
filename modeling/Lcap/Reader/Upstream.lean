import Lcap.Reader.Loop

namespace Lcap.Reader
open Systems

/-- The changelog of an MDT, and how far the open stream has been read. -/
structure Upstream where
  log : List ChangelogRec
  pos : Nat

/-- The log may grow at any time; records that arrive during a blocking read are
as good as there before it. A read names the place where a new stream starts. -/
inductive Action
  | append (rec : ChangelogRec)
  | read (startRc : Int) (startPos : Nat) (script : List RecvEvent)
  | request (req : LcapnetRequest) (io : RpcIo)
  | sigterm

def receivedRecord : RecvEvent → Option ChangelogRec
  | .recv rec _ _ => some rec
  | _ => none

/-- The records that the results of a read contain. -/
def received (script : List RecvEvent) : List ChangelogRec := script.filterMap receivedRecord

/-- Where the next record comes from: a closed stream is started anew. -/
def streamPos (s : ReaderEnv) (u : Upstream) (startPos : Nat) : Nat :=
  if s.reClpriv then u.pos else startPos

/-- A stream asked for `re_srec` starts at or before the first record from there on. -/
def StartsBefore (s : ReaderEnv) (u : Upstream) (startPos : Nat) : Prop :=
  startPos ≤ u.log.length ∧ ∀ r ∈ u.log.take startPos, r.crIndex < s.reSrec

instance (s : ReaderEnv) (u : Upstream) (startPos : Nat) : Decidable (StartsBefore s u startPos) :=
  inferInstanceAs (Decidable (_ ∧ _))

/-- The reader on an upstream that hands out the records of its log in their order. -/
def cachingStep (x : ReaderEnv × Upstream) : Action → Option (ReaderEnv × Upstream)
  | .append rec =>
    if ∀ r ∈ x.2.log, r.crIndex < rec.crIndex then some (x.1, { x.2 with log := x.2.log ++ [rec] })
    else none
  | .read startRc startPos script =>
    let pos := streamPos x.1 x.2 startPos
    if (x.1.reClpriv = false → StartsBefore x.1 x.2 startPos) ∧
        received script <+: x.2.log.drop pos then
      (readerStep x.1 (.enqueue startRc script)).map
        (·, { x.2 with pos := pos + (received script).length })
    else none
  | .request req io => (readerStep x.1 (.request req io)).map (·, x.2)
  | .sigterm => (readerStep x.1 .sigterm).map (·, x.2)

/-- A reader thread on an MDT whose changelog is still empty. -/
def caching (cfg : LcapCfg) (idx : Nat) : System (ReaderEnv × Upstream) Action where
  init := (initialReader cfg idx, ⟨[], 0⟩)
  step := cachingStep

end Lcap.Reader
