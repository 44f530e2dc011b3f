import Lcap.Client.Session

namespace Lcap.Client
open Reader Systems

/-- A request on its way from a client to the reader. -/
inductive WireRequest
  | px (req : PxRequest)
  | fini
  deriving DecidableEq, Repr

def WireRequest.pack (cid : ConnId) : WireRequest → LcapnetRequest
  | .px req => req.pack cid
  | .fini => ⟨cid, finiPack⟩

/-- What a client passes to `lcap_changelog_start`. -/
structure StartArgs where
  flags : Nat := 0
  mdtname : List UInt8 := []
  startrec : Int := 0

/-- The calls of `lcap_client.h`. -/
inductive ApiCall
  | start
  | recv
  | free
  | clear (mdtname id : List UInt8) (endrec : Int)
  | fini
  deriving DecidableEq, Repr

inductive Stage
  | unstarted | started | ended
  deriving DecidableEq, Repr

/-- What a call leaves of its context, and what `lcap_changelog_recv` returns. -/
structure Done where
  stage : Stage := .started
  pzd : PxZmqData
  res : Option RecvResult := none

/-- A call of any kind, up to its end. -/
inductive Outcome
  | ret (d : Done)
  | leave (req : WireRequest) (d : Done)
  | ask (req : WireRequest) (resume : Reply → Done)

def Call.outcome (f : α → Done) : Call α → Outcome
  | .ret a => .ret (f a)
  | .leave req a => .leave (.px req) (f a)
  | .ask req resume => .ask (.px req) fun rep => f (resume rep)

/-- Once the server has let the client go, `pzd_destroy` frees what is cached. -/
def pxChangelogFini (pzd : PxZmqData) (io : PxIo) : Outcome :=
  match io.send with
  | some _ => .ret { pzd := pzd }
  | none => .ask .fini fun rep =>
    if clAckRetcode io rep < 0 then { pzd := pzd } else { stage := .ended, pzd := {} }

/-- A context, its socket and the call that it is in. The socket is `owed` a reply
from a request on, and the first `taken` replies have been received. -/
structure Peer where
  stage : Stage := .unstarted
  pzd : PxZmqData := {}
  waiting : Option (ApiCall × PxIo) := none
  wire : Option WireRequest := none
  owed : Bool := false
  taken : Nat := 0

def Peer.gate (c : Peer) (io : PxIo) : PxIo := if c.owed then { io with send := some efsm } else io

/-- A call that the context is in a state for. A start that fails leaves none. -/
def Peer.outcome (recSize : Nat) (args : StartArgs) (c : Peer) (io : PxIo) :
    ApiCall → Option Outcome
  | .start =>
    if c.stage ≠ .unstarted then none
    else some ((pxChangelogStart args.flags args.mdtname args.startrec io).outcome fun (pzd, rc) =>
      { stage := if rc < 0 then .ended else .started, pzd := pzd })
  | .recv =>
    if c.stage ≠ .started then none
    else some ((pxChangelogRecv recSize c.pzd io).outcome fun (pzd, res) =>
      { pzd := pzd, res := some res })
  | .free => if c.stage ≠ .started then none else some (.ret { pzd := pxChangelogFree c.pzd })
  | .clear mdtname id endrec =>
    if c.stage ≠ .started then none
    else some ((pxChangelogClear c.pzd mdtname id endrec io).outcome fun _ => { pzd := c.pzd })
  | .fini => if c.stage ≠ .started then none else some (pxChangelogFini c.pzd io)

/-- What happens at the reader, with the request that it serves, and what the
applications are given. -/
inductive FleetEvent
  | reader (e : Event) (cause : Option WireRequest)
  | returned (cid : ConnId) (res : RecvResult)
  deriving DecidableEq, Repr

structure Fleet where
  env : ReaderEnv
  peers : ConnId → Peer := fun _ => {}
  hist : List FleetEvent

namespace Fleet

def set (x : Fleet) (cid : ConnId) (c : Peer) : Fleet :=
  { x with peers := Function.update x.peers cid c }

/-- A call of the client is over. -/
def finish (x : Fleet) (cid : ConnId) (c : Peer) (d : Done) : Fleet :=
  { x.set cid { c with stage := d.stage, pzd := d.pzd, waiting := none } with
    hist := x.hist ++ d.res.toList.map (.returned cid) }

/-- The reader has gone one step further. -/
def advance (x : Fleet) (cause : Option WireRequest) (env : ReaderEnv) : Fleet :=
  { x with env := env, hist := x.hist ++ (env.trace.drop x.env.trace.length).map (.reader · cause) }

end Fleet

inductive FleetMove
  | call (cid : ConnId) (c : ApiCall) (io : PxIo)
  | deliver (cid : ConnId) (io : RpcIo)
  | receive (cid : ConnId)
  | interrupt (cid : ConnId) (e : Errno)
  | enqueue (startRc : Int) (script : List RecvEvent)
  | sigterm

/-- A request that is sent on a socket which is not owed a reply. -/
def Peer.sent (c : Peer) (req : WireRequest) : Peer := { c with wire := some req, owed := true }

def fleetStep (recSize : Nat) (args : ConnId → StartArgs) (x : Fleet) : FleetMove → Option Fleet
  | .call cid call io =>
    let c := x.peers cid
    if c.waiting.isSome then none
    else match c.outcome recSize (args cid) (c.gate io) call with
      | none => none
      | some (.ret d) => some (x.finish cid c d)
      | some (.leave req d) => some (x.finish cid (c.sent req) d)
      | some (.ask req _) => some (x.set cid { c.sent req with waiting := some (call, io) })
  | .deliver cid io =>
    match (x.peers cid).wire with
    | none => none
    | some req => (readerStep x.env (.request (req.pack cid) io)).map
        ((x.set cid { x.peers cid with wire := none }).advance (some req))
  | .receive cid =>
    let c := x.peers cid
    match c.waiting, (repliesTo cid x.env.trace).drop c.taken with
    | some (call, io), rep :: _ => match c.outcome recSize (args cid) io call with
      | some (.ask _ resume) =>
        some (x.finish cid { c with owed := false, taken := c.taken + 1 } (resume rep))
      | _ => none
    | _, _ => none
  -- zmq_recv fails before a reply is there; none of the calls looks at one then.
  | .interrupt cid e =>
    let c := x.peers cid
    match c.waiting with
    | some (call, io) => match c.outcome recSize (args cid) { io with recv := some e } call with
      | some (.ask _ resume) => some (x.finish cid c (resume (.ack 0)))
      | _ => none
    | none => none
  | .enqueue startRc script => (readerStep x.env (.enqueue startRc script)).map (x.advance none)
  | .sigterm => (readerStep x.env .sigterm).map (x.advance none)

/-- Any number of proxied clients and a reader. -/
def fleet (recSize : Nat) (args : ConnId → StartArgs) (cfg : LcapCfg) (idx : Nat) :
    System Fleet FleetMove where
  init := { env := initialReader cfg idx, hist := [.reader (.opened 0) none] }
  step := fleetStep recSize args

end Lcap.Client
