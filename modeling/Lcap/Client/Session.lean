import Lcap.Client.Proxy
import Lcap.Reader.Loop

namespace Lcap.Client
open Reader Systems

/-- Where the application stands in its loop over `lcap_changelog_recv`, `_clear`
and `_free`; the record is the one it has received last. -/
inductive AppState
  | starting
  | receiving
  | holding (rec : ChangelogRec)
  | freeing
  | stopped (rc : Int)
  | overran
  deriving DecidableEq, Repr

structure PxClient where
  pzd : PxZmqData := {}
  app : AppState := .starting
  deriving DecidableEq, Repr

/-- What a client is started with. A record has at least its fixed part. -/
structure ClientArgs where
  cid : ConnId
  flags : Nat
  mdtname : List UInt8
  startrec : Int
  id : List UInt8
  recSize : Nat
  recSize_pos : 0 < recSize

/-- The application's next call, up to its own next state. It stops at the first
negative result, and receives again after EOF. -/
def PxClient.call (args : ClientArgs) (c : PxClient) (io : PxIo) : Call PxClient :=
  match c.app with
  | .starting =>
    (pxChangelogStart args.flags args.mdtname args.startrec io).map fun (pzd, rc) =>
      ⟨pzd, if rc < 0 then .stopped rc else .receiving⟩
  | .receiving =>
    (pxChangelogRecv args.recSize c.pzd io).map fun (pzd, res) =>
      match res with
      | .record rec => ⟨pzd, .holding rec⟩
      | .code rc => ⟨pzd, if rc < 0 then .stopped rc else .receiving⟩
      | .overrun => ⟨pzd, .overran⟩
  | .holding rec =>
    (pxChangelogClear c.pzd args.mdtname args.id rec.crIndex io).map fun rc =>
      ⟨c.pzd, if rc < 0 then .stopped rc else .freeing⟩
  | .freeing => .ret ⟨pxChangelogFree c.pzd, .receiving⟩
  | .stopped _ | .overran => .ret c

/-- The messages to one client. -/
def repliesTo (cid : ConnId) (tr : List Event) : List Reply :=
  (messages tr).filterMap fun (dst, msg) => if dst = cid then some msg else none

/-- A client and a reader. `waiting` is set while a call waits for its reply, `wire`
is the request that has not reached the reader yet, and the first `taken`
replies have been received. -/
structure Session where
  env : ReaderEnv
  client : PxClient := {}
  waiting : Option PxIo := none
  wire : Option PxRequest := none
  taken : Nat := 0

inductive Move
  | call (io : PxIo)
  | deliver (io : RpcIo)
  | receive
  | other (l : Label)

/-- Steps of the reader that this client has no part in. -/
def IsOther (cid : ConnId) : Label → Prop
  | .request req _ => req.lrForward ≠ cid
  | _ => True

instance : ∀ (cid : ConnId) (l : Label), Decidable (IsOther cid l)
  | cid, .request req _ => inferInstanceAs (Decidable (req.lrForward ≠ cid))
  | _, .enqueue _ _ | _, .sigterm => isTrue trivial

def Session.pending (cid : ConnId) (x : Session) : List Reply :=
  (repliesTo cid x.env.trace).drop x.taken

def sessionStep (args : ClientArgs) (x : Session) : Move → Option Session
  | .call io =>
    if x.waiting.isSome then none
    else match x.client.call args io with
      | .ret c => some { x with client := c }
      | .leave req c => some { x with client := c, wire := some req }
      | .ask req _ => some { x with waiting := some io, wire := some req }
  | .deliver io =>
    match x.wire with
    | none => none
    | some req => (readerStep x.env (.request (req.pack args.cid) io)).map
        ({ x with env := ·, wire := none })
  | .receive =>
    match x.waiting, x.pending args.cid with
    | some io, rep :: _ => match x.client.call args io with
      | .ask _ resume =>
        some { x with client := resume rep, waiting := none, taken := x.taken + 1 }
      | _ => none
    | _, _ => none
  | .other l =>
    if IsOther args.cid l then (readerStep x.env l).map ({ x with env := · }) else none

/-- One proxied client on a reader that other clients use as well. -/
def session (args : ClientArgs) (cfg : LcapCfg) (idx : Nat) : System Session Move where
  init := { env := initialReader cfg idx }
  step := sessionStep args

end Lcap.Client
