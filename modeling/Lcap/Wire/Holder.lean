import Lcap.Systems.Runs
import Lcap.Wire.Decode

namespace Lcap.Wire
open Systems

/-- An application and the records it has received and not yet freed. -/
structure Holder where
  cache : PxCache := pzdInit
  held : List Ptr := []

/-- The reply is what the socket gives if the call asks for records. -/
inductive HolderMove
  | recv (io : DequeueIo) (reply : Parts UInt8)
  | free (rec : Ptr)

/-- What a call returns that finds the reply when it asks for one. -/
def recvOutcome (L : RecLayout) (io : DequeueIo) (z : PxCache) (reply : Parts UInt8) :
    Except Crash (PxCache × Received) :=
  match pxChangelogRecv L io z with
  | .ret res | .leave res => res
  | .ask resume => resume reply

/-- Each record is freed once at most, and none but a received one. A process that
crashes makes no further step. -/
def holderStep (L : RecLayout) (x : Holder) : HolderMove → Option Holder
  | .recv io reply => match recvOutcome L io x.cache reply with
    | .error _ => none
    | .ok (z, .record rec) => some { cache := z, held := x.held ++ [rec] }
    | .ok (z, .code _) => some { x with cache := z }
  | .free rec =>
    if rec ∈ x.held then some { cache := pxChangelogFree x.cache, held := x.held.erase rec }
      else none

def holder (L : RecLayout) : System Holder HolderMove where
  init := {}
  step := holderStep L

/-- The buffer that the record lies in has not been released. -/
def PxCache.Live (z : PxCache) (rec : Ptr) : Prop := (z.heap rec.buf).isSome

instance (z : PxCache) (rec : Ptr) : Decidable (z.Live rec) :=
  inferInstanceAs (Decidable (_ = true))

end Lcap.Wire
