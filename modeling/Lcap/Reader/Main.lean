import Lcap.Reader.Loop

namespace Lcap.Reader
open Systems

/-- A call of the changelog API, with its result. -/
inductive StreamCall
  | start (startrec : Nat) (rc : Int)
  | recv (rc : Int)
  | fini
  deriving DecidableEq, Repr

def recvCall : RecvEvent → Option StreamCall
  | .recv _ _ _ => some (.recv 0)
  | .fail rc => some (.recv rc.val)
  | .sigterm => none

/-- The calls behind a successful start: the stream is closed after some results. -/
def readCalls (s : ReaderEnv) (script : List RecvEvent) : List StreamCall :=
  match recvLoop { s with reClpriv := true } 0 script with
  | .ok (_, rc, _) => script.filterMap recvCall ++ if closesStream rc then [.fini] else []
  | .error _ => script.filterMap recvCall

/-- The calls that one step of the reader makes: only `changelog_reader_enqueue` has
any, and none while the reader is full. -/
def streamCalls (s : ReaderEnv) : Label → List StreamCall
  | .enqueue startRc script =>
    if changelogReaderFull s then []
    else if s.reClpriv then readCalls s script
    else if startRc ≠ 0 then [.start s.reSrec startRc]
    else .start s.reSrec startRc :: readCalls s script
  | .request _ _ | .sigterm => []

/-- `reader_main` once it is initialised, with the calls it has made. Serving the
clients never ends its loop: `lcap_rpc_recv` returns a count. -/
def readerMain (cfg : LcapCfg) (idx : Nat) : System (ReaderEnv × List StreamCall) Label :=
  logged (reader cfg idx) streamCalls

end Lcap.Reader
