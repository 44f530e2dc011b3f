import Lcap.Broker
import Lcap.Systems.Fields

namespace Lcap.Net
open Client Config Systems

/-- `strcpy` of the device's name into `px_rpc_signal::pr_mdtname`. -/
def signalMdtname (device : List UInt8) : FieldCopy UInt8 :=
  copyInto (List.replicate 128 0) (device ++ [0])

/-- The message of `changelog_reader_signal`. -/
def packSignal (errcode : Int) (device : List UInt8) : List UInt8 :=
  packHdr .signal ++ leInt64 errcode ++ (signalMdtname device).field

/-- A reader tells the broker how it is. -/
def changelogReaderSignal (o : Outbox UInt8) (errcode : Int) (device : List UInt8)
    (out : Nat → Option Errno) : Outbox UInt8 × Int :=
  sendAllRc (o.sendAll out 0 [[], cString (signalMdtname device).field, packSignal errcode device])

end Lcap.Net
