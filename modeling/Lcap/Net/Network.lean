import Lcap.Client.Fleet
import Lcap.Net.Signal
import Lcap.Wire.Context

namespace Lcap.Network
open Reader Config Broker Net Wire Systems
open Client (ApiCall Stage StartArgs WireRequest PxIo efsm)

/-! ## A client process -/

/-- The outcomes of one call of the library but for how it receives a reply, and what a
new receive buffer contains. -/
structure CallIo where
  setup : Option Errno := none
  alloc : Bool := true
  grow : Bool := true
  send : Option Errno := none
  garbage : Nat → UInt8 := fun _ => 0

/-- The same with a `zmq_recv` that gives the reply, or fails before it is there. -/
def CallIo.px (io : CallIo) (recv : Option Errno) : PxIo where
  setup := io.setup
  alloc := io.alloc
  grow := io.grow
  send := io.send
  recv := recv

/-- Readers answer with one frame. -/
def CallIo.dequeue (io : CallIo) (recv : Option Errno) : DequeueIo where
  send := io.send
  alloc := io.alloc
  frame := fun _ => { recv := recv }
  grow := io.grow
  garbage := io.garbage

/-- What a call leaves of its context, and what `lcap_changelog_recv` returns. -/
structure Left where
  stage : Stage := .started
  cache : PxCache
  res : Option Received := none

/-- A call of any kind, up to its end, on a socket that gives the frames of a reply. -/
inductive Turn
  | ret (d : Except Crash Left)
  | leave (req : WireRequest) (d : Except Crash Left)
  | ask (req : WireRequest) (resume : Parts UInt8 → Except Crash Left)

def turnOf (req : WireRequest) (f : α → Except Crash Left) : Dequeue α → Turn
  | .ret a => .ret (f a)
  | .leave a => .leave req (f a)
  | .ask resume => .ask req fun reply => f (resume reply)

/-- What `px_changelog_start` makes of the reply, of which it receives one frame. -/
def startRetcode (recv : Option Errno) (reply : Parts UInt8) : Int :=
  match recv with
  | some e => -(e.val : Int)
  | none => if (reply.headD []).length < sizeofAck then -EINVAL else prRetcode (reply.headD [])

/-- A start that fails leaves no context. -/
def afterStart (rc : Int) : Except Crash Left :=
  .ok { stage := if rc < 0 then .ended else .started, cache := pzdInit }

def pxChangelogStart (args : StartArgs) (io : CallIo) (recv : Option Errno) : Turn :=
  if !io.alloc then .ret (afterStart (-ENOMEM))
  else match io.setup, io.send with
    | some e, _ | none, some e => .ret (afterStart (-(e.val : Int)))
    | none, none => .ask (.px (.start args.flags args.mdtname args.startrec)) fun reply =>
      afterStart (startRetcode recv reply)

/-- `pzd_destroy` frees the buffer and the pointers into it, and sets all of `pzd` to zero. -/
def pxChangelogFini (z : PxCache) (io : CallIo) (recv : Option Errno) : Turn :=
  match io.send with
  | some _ => .ret (.ok { cache := z })
  | none => .ask .fini fun reply =>
    if clAckRetcode (io.dequeue recv) reply < 0 then .ok { cache := z }
    else .ok { stage := .ended, cache := {} }

/-- A context, and the call that it is in. Its socket is `owed` a reply from a request on. -/
structure Proc where
  stage : Stage := .unstarted
  cache : PxCache := pzdInit
  waiting : Option (ApiCall × CallIo) := none
  owed : Bool := false

def Proc.gate (c : Proc) (io : CallIo) : CallIo :=
  if c.owed then { io with send := some efsm } else io

def afterRecv : Except Crash (PxCache × Received) → Except Crash Left
  | .error e => .error e
  | .ok (z, res) => .ok { cache := z, res := some res }

/-- A call that the context is in a state for. -/
def Proc.turn (L : RecLayout) (args : StartArgs) (c : Proc) (io : CallIo) (recv : Option Errno) :
    ApiCall → Option Turn
  | .start => if c.stage ≠ .unstarted then none else some (pxChangelogStart args io recv)
  | .recv =>
    if c.stage ≠ .started then none
    else some (turnOf (.px .dequeue) afterRecv (pxChangelogRecv L (io.dequeue recv) c.cache))
  | .free =>
    if c.stage ≠ .started then none else some (.ret (.ok { cache := pxChangelogFree c.cache }))
  | .clear mdtname id endrec =>
    if c.stage ≠ .started then none
    else some (turnOf (.px (.clear mdtname id endrec)) (fun _ => .ok { cache := c.cache })
      (pxChangelogClear c.cache (io.dequeue recv)))
  | .fini => if c.stage ≠ .started then none else some (pxChangelogFini c.cache io recv)

/-! ## The processes and their connections -/

/-- libzmq makes up the identities of clients, which start with a zero byte. -/
def generated (cid : ConnId) : Bool := cid.head? = some 0

/-- What does not change: the layout of records, the bytes of those in the memory of each
reader, the configuration of the server and what each client starts with. Names are C
strings, and a reader's identity is its own. -/
structure Site where
  layout : RecLayout
  raw : Nat → ChangelogRec → List UInt8
  config : ParsedCfg
  args : ConnId → StartArgs
  distinct : config.ccfMdt.Nodup
  named : ∀ dev ∈ config.ccfMdt, dev ≠ [] ∧ 0 ∉ dev
  asked : ∀ cid, 0 ∉ (args cid).mdtname

/-- The identity of a reader, which is the name of its device. -/
def Site.device (N : Site) (i : Nat) : ConnId := N.config.ccfMdt.getD i []

/-- The bytes of a message of the reader; `none` when `enqueue_rec` writes beyond its buffer. -/
def Site.packReply (N : Site) (i : Nat) : Reply → Option (List UInt8)
  | .ack rc => some (packAck rc)
  | .enqueue rpcSize _ recs =>
    (enqueueMessage N.layout
      { lrbIndex := 0, lrbSize := rpcSize - sizeofEnqueue, lrbRecords := recs }
      (recs.map (N.raw i))).map Prod.fst

/-- What `lcap_changelog_recv` gives the application: the bytes of a record, or a code. -/
inductive Given
  | record (raw : Option (List UInt8))
  | code (rc : Int)
  deriving DecidableEq, Repr

def given (L : RecLayout) (z : PxCache) : Received → Given
  | .record rec => .record (recordBytes L z rec)
  | .code rc => .code rc

inductive NetEvent
  | reader (i : Nat) (e : Event)
  | returned (cid : ConnId) (res : Given)
  deriving DecidableEq, Repr

/-- The broker, the readers and the clients, and what is on its way between them: for
each peer of the broker the messages to it and from it. The broker's socket routes to
the peers that are `known` to it. -/
structure NetState where
  ctx : LcapCtx
  readers : Nat → ReaderEnv
  clients : ConnId → Proc := fun _ => {}
  known : ConnId → Bool := fun _ => false
  up : ConnId → List (Parts UInt8) := fun _ => []
  down : ConnId → List (Parts UInt8) := fun _ => []
  hist : List NetEvent

namespace NetState

/-- A peer sends messages to the broker. -/
def post (x : NetState) (who : ConnId) (messages : List (Parts UInt8)) : NetState :=
  { x with
    up := Function.update x.up who (x.up who ++ messages)
    known := Function.update x.known who true }

/-- The broker's socket drops what it cannot route. -/
def route (x : NetState) (message : Parts UInt8) : NetState :=
  match routerSend message with
  | none => x
  | some (dst, parts) =>
    if x.known dst then { x with down := Function.update x.down dst (x.down dst ++ [parts]) } else x

def set (x : NetState) (cid : ConnId) (c : Proc) : NetState :=
  { x with clients := Function.update x.clients cid c }

/-- A call of the client is over. -/
def finish (L : RecLayout) (x : NetState) (cid : ConnId) (c : Proc) (d : Left) : NetState :=
  { x.set cid { c with stage := d.stage, cache := d.cache, waiting := none } with
    hist := x.hist ++ d.res.toList.map fun res => .returned cid (given L d.cache res) }

/-- A reader has gone one step further. -/
def advance (x : NetState) (i : Nat) (env : ReaderEnv) : NetState :=
  { x with
    readers := Function.update x.readers i env
    hist := x.hist ++ (env.trace.drop (x.readers i).trace.length).map (.reader i) }

end NetState

inductive NetMove
  | join (i : Nat)
  | call (cid : ConnId) (c : ApiCall) (io : CallIo)
  | forward (who : ConnId)
  | serve (i : Nat) (io : RpcIo)
  | receive (cid : ConnId)
  | interrupt (cid : ConnId) (e : Errno)
  | enqueue (i : Nat) (startRc : Int) (script : List RecvEvent)
  | sigterm

/-- `px_rpc_send` on a socket that is not owed a reply. -/
def sendRequest (N : Site) (x : NetState) (cid : ConnId) (req : WireRequest) : NetState :=
  x.post cid
    ((pxRpcSend {} (N.args cid).mdtname (req.pack cid).lrBody fun _ => none).1.sent.map reqSend)

/-- The broker takes one message of a peer off its socket and sends what it makes of it. -/
def brokerTurn (x : NetState) (who : ConnId) : Option NetState :=
  match x.up who with
  | [] => none
  | message :: rest =>
    (lcapRpcRecvOnce lcapRecvNonblock true (fun _ => {}) (lcapdProcessRequest {})
      { x.ctx with ccSock := {} } [routerReceive who message]).map fun (ctx, _, _) =>
        ctx.ccSock.sent.foldl NetState.route { x with
          up := Function.update x.up who rest, ctx := { ctx with ccSock := {} } }

/-- The reader's callback, on a reader that may have halted. -/
def readerCallback (io : RpcIo) (env : Option ReaderEnv) (req : NetRequest) :
    Option ReaderEnv × Int :=
  (env.bind fun env => readerStep env (.request ⟨req.lrForward.getD [], req.lrBody⟩ io), 0)

/-- What the reader has sent in a step, as its socket takes it. -/
def sentBy (N : Site) (i : Nat) (before after : ReaderEnv) : Option (List (Parts UInt8)) :=
  (messages (after.trace.drop before.trace.length)).mapM fun (dst, msg) =>
    (N.packReply i msg).map (peerFrames none dst)

/-- The reader takes one message off its socket. -/
def readerTurn (N : Site) (x : NetState) (i : Nat) (io : RpcIo) : Option NetState :=
  match x.down (N.device i) with
  | [] => none
  | message :: rest =>
    (lcapRpcRecvOnce (lcapRecvNonblock + lcapRecvNoEnvelope) true (fun _ => {}) (readerCallback io)
      (some (x.readers i)) [message]).bind fun (env, _, _) => env.bind fun env =>
        (sentBy N i (x.readers i) env).map fun out =>
          ({ x with down := Function.update x.down (N.device i) rest }.advance i env).post
            (N.device i) out

/-- The end of a call, unless the process crashes in it. -/
def finishCall (L : RecLayout) (x : NetState) (cid : ConnId) (c : Proc) :
    Except Crash Left → Option NetState
  | .error _ => none
  | .ok d => some (x.finish L cid c d)

/-- One call of `changelog_reader_enqueue`; a reader that it stops tells the broker. -/
def enqueueTurn (N : Site) (x : NetState) (i : Nat) (startRc : Int) (script : List RecvEvent) :
    Option NetState :=
  match readerStep (x.readers i) (.enqueue startRc script),
      changelogReaderEnqueue (x.readers i) startRc script with
  | some env, .ok (_, rc, _) =>
    let y := x.advance i env
    some (if rc < 0 then
        y.post (N.device i) (changelogReaderSignal {} rc (N.device i) fun _ => none).1.sent
      else y)
  | _, _ => none

/-- A send of a reader or of a client works, or fails with its first frame. The sends and
allocations of the broker work, and the allocations of the receiving loops. -/
def netStep (N : Site) (x : NetState) : NetMove → Option NetState
  | .join i =>
    if x.known (N.device i) ∨ N.config.ccfMdt.length ≤ i then none
    else some (x.post (N.device i) (changelogReaderSignal {} 0 (N.device i) fun _ => none).1.sent)
  | .call cid call io =>
    let c := x.clients cid
    if c.waiting.isSome ∨ !generated cid then none
    else match c.turn N.layout (N.args cid) (c.gate io) none call with
      | none => none
      | some (.ret d) => finishCall N.layout x cid c d
      | some (.leave req d) =>
        finishCall N.layout (sendRequest N x cid req) cid { c with owed := true } d
      | some (.ask req _) => some ((sendRequest N x cid req).set cid
          { c with owed := true, waiting := some (call, io) })
  | .forward who => brokerTurn x who
  | .serve i io => if N.config.ccfMdt.length ≤ i then none else readerTurn N x i io
  | .receive cid =>
    let c := x.clients cid
    match c.waiting, x.down cid with
    | some (call, io), message :: rest =>
      match c.turn N.layout (N.args cid) io none call, reqReceive message with
      | some (.ask _ resume), some reply =>
        finishCall N.layout { x with down := Function.update x.down cid rest } cid
          { c with owed := false } (resume reply)
      | _, _ => none
    | _, _ => none
  -- zmq_recv fails before a reply is there; none of the calls looks at one then.
  | .interrupt cid e =>
    let c := x.clients cid
    match c.waiting with
    | some (call, io) =>
      match c.turn N.layout (N.args cid) io (some e) call with
      | some (.ask _ resume) => finishCall N.layout x cid c (resume [[]])
      | _ => none
    | none => none
  | .enqueue i startRc script =>
    if !x.known (N.device i) ∨ N.config.ccfMdt.length ≤ i then none
    else enqueueTurn N x i startRc script
  -- there is one flag for all readers
  | .sigterm => some { x with readers := fun i => { x.readers i with terminateSig := true } }

/-- A server for the configured devices and any number of clients. -/
def network (N : Site) : System NetState NetMove where
  init := {
    ctx := { ccConfig := N.config }
    readers := initialReader N.config.lcapCfg
    hist := (List.range N.config.ccfMdt.length).map (.reader · (.opened 0)) }
  step := netStep N

end Lcap.Network
