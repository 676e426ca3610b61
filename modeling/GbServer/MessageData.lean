import GbServer.SessionSend
/-!
# MessageData — the data of a message at the receiver, and whether it is the payload that was sent

`GetMsgData` (`rpc_function_help.cpp`) takes raw data out of a message, the handlers of `MakeNetHandler`
(`function.hpp`) and `MakeRpcHandler` (`rpc_function.hpp`) parse a protobuf message from what is left of the buffer; the
rpc handler never looks at the compress type.

A message comes to a net handler whatever its compress type.  Raw data comes back when its size fits an `int` and,
compressed, the deflate stream fits one too; LZ4 loses it all, as its blocks are handed over when the stream is
destroyed and not when it is flushed.  `payload_roundTrip` has the exact conditions.
-/
namespace Gb

open Bytes (slice)
open Session (SentData sentHeader)

universe u

/-- The byte at `s.data() + i`; `outside` is what the memory around the string holds. -/
def byteAt (s : List UInt8) (outside : Int → UInt8) (i : Int) : UInt8 :=
  if 0 ≤ i then s.getD i.toNat (outside i) else outside i

/-- The bytes of an `ArrayInputStream` on `s.data() + offset`, wherever they are. -/
def arrayInput (s : List UInt8) (outside : Int → UInt8) (offset size : Int) : List UInt8 :=
  (List.range size.toNat).map fun (i : Nat) => byteAt s outside (offset + i)

/-- `ReadVarint32` and `ReadString` into an empty string.  A `CodedInputStream` gives at most `INT_MAX` bytes, and a
length it cannot read is 2^32 - 1, which is negative as an `int`. -/
def readCoded (plain : List UInt8) : List UInt8 :=
  match readVarint32 (plain.take 2147483647) with
  | none              => []
  | some (size, rest) => if toInt32 size < 0 then [] else rest.take size

/-- How `GetMsgData` ends when it does not come back: `substr` throws, or it reads from a buffer or from a stream that is
not there. -/
inductive DataFault
  | outOfRange
  | undefined
  deriving DecidableEq

/-- `GetMsgData`.  A compressed body is read whether or not it is in the message. -/
def getMsgData (c : Codecs) (p : TranBufPool) (outside : Int → UInt8) (m : Meta) (buffer : ReadBuffer)
    (metaSize dataSize : Int) : Except DataFault (List UInt8) :=
  match buffer.toString p with
  | none   => .error .undefined
  | some s =>
    match CompressType.ofCode m.compressType with
    | none                   => .error .undefined
    | some .compressTypeNone =>
      if s.length < toSizeT metaSize then .error .outOfRange else .ok (slice s (toSizeT metaSize) (toSizeT dataSize))
    | some type              =>
      match decompressStream c type (arrayInput s outside metaSize (toInt32 dataSize)) with
      | none       => .error .undefined
      | some plain => .ok (readCoded plain)

/-- What a handler for a message of protobuf does with a buffer: parse what is left of it, decompressed, and call the
function if there is a message. -/
def makeNetHandler {Msg : Type u} (c : Codecs) (pb : Protobuf Msg) (p : TranBufPool) (m : Meta) (buffer : ReadBuffer) :
    Option Msg :=
  match buffer.remaining p with
  | none    => none
  | some bs =>
    match CompressType.ofCode m.compressType with
    | none                   => none
    | some .compressTypeNone => pb.parsePartial bs
    | some type              => (decompressStream c type bs).bind pb.parsePartial

def makeRpcHandler {Msg : Type u} (pb : Protobuf Msg) (p : TranBufPool) (buffer : ReadBuffer) : Option Msg :=
  (buffer.remaining p).bind pb.parsePartial

/-! ## Raw data -/

/-- The overloads for raw bytes, with what they are given. -/
inductive RawSend
  | vector (data : List UInt8)
  | stringView (data : List UInt8)
  | pointer (data : List UInt8) (size : Nat)
  | readBuffer (dataBuffer : ReadBuffer)

namespace RawSend

def payload (p : TranBufPool) : RawSend → Option (List UInt8)
  | .vector data           => some data
  | .stringView data       => some data
  | .pointer data size     => if size ≤ data.length then some (data.take size) else none
  | .readBuffer dataBuffer => dataBuffer.toString p

def send (c : Codecs) (p : TranBufPool) (m : Meta) : RawSend → SendResult
  | .vector data           => Session.sendVector c p m data
  | .stringView data       => Session.sendStringView c p m data
  | .pointer data size     => Session.sendPointer c p m data size
  | .readBuffer dataBuffer => Session.sendReadBuffer c p m dataBuffer

/-- The four overloads differ in where they find the payload. -/
theorem send_eq (c : Codecs) (p : TranBufPool) (m : Meta) (call : RawSend) (data : List UInt8)
    (h : call.payload p = some data) : call.send c p m = Session.frame p m (Session.putRaw c m data) := by
  cases call with
  | vector d => cases h; rfl
  | stringView d => cases h; rfl
  | pointer d size =>
    rw [payload] at h
    split at h
    · rename_i hle
      cases h
      exact if_pos hle
    · cases h
  | readBuffer rb =>
    rw [payload] at h
    rw [send, Session.sendReadBuffer, h]

end RawSend

/-- What the receiver makes of raw data that was sent is the payload, in whatever blocks it arrives. -/
def RawRoundTrip (c : Codecs) (p : TranBufPool) (m : Meta) (call : RawSend) (payload : List UInt8) : Prop :=
  ∃ data, SentData (call.send c p m) m data ∧ ∀ (q : TranBufPool) (rb : ReadBuffer) (outside : Int → UInt8),
    rb.toString q = some (m.raw ++ data) →
    getMsgData c q outside m rb (sentHeader data).metaSize (sentHeader data).dataSize = .ok payload

/-- What the receiver makes of raw data. -/
def decodeRaw (c : Codecs) (type : CompressType) (data : List UInt8) : Option (List UInt8) :=
  if type = .compressTypeNone then some data else (decompressStream c type data).map readCoded

theorem arrayInput_data (outside : Int → UInt8) (m : Meta) (data : List UInt8) :
    arrayInput (m.raw ++ data) outside (metaStructSize : Nat) data.length = data := by
  unfold arrayInput
  rw [Int.toNat_natCast]
  refine List.ext_getElem (by simp) fun i hi hi' => ?_
  have hat : ((metaStructSize : Nat) : Int) + (i : Int) = ((m.raw.length + i : Nat) : Int) := by
    rw [m.raw_length, Int.natCast_add]
  rw [List.getElem_map, List.getElem_range, hat, byteAt, if_pos (Int.natCast_nonneg _), Int.toNat_natCast,
    List.getD_eq_getElem?_getD, List.getElem?_append_right (Nat.le_add_right ..), Nat.add_sub_cancel_left,
    List.getElem?_eq_getElem hi', Option.getD_some]

theorem getMsgData_sent (c : Codecs) {q : TranBufPool} (outside : Int → UInt8) {m : Meta} {rb : ReadBuffer}
    {data : List UInt8} {type : CompressType} (htype : CompressType.ofCode m.compressType = some type)
    (hlt : data.length < 2 ^ 31) (hrb : rb.toString q = some (m.raw ++ data)) (body : List UInt8) :
    getMsgData c q outside m rb (sentHeader data).metaSize (sentHeader data).dataSize = .ok body ↔
      decodeRaw c type data = some body := by
  have hm := m.raw_length
  have hmeta : (sentHeader data).metaSize = (metaStructSize : Nat) :=
    MessageHeader.metaSize_ofFields _ _ _ (by decide) (by decide)
  have hdata : (sentHeader data).dataSize = data.length := MessageHeader.dataSize_ofFields _ _ _ (by omega) (by omega)
  have hint : toInt32 data.length = data.length := toInt32_of_range _ (by omega) (by omega)
  have hs₁ : toSizeT (metaStructSize : Nat) = m.raw.length := by rw [hm]; decide
  have hs₂ : toSizeT data.length = data.length := by
    have := toSizeT_of_range data.length (by omega) (by omega)
    omega
  rw [getMsgData, hrb, hmeta, hdata, htype, decodeRaw]
  cases type with
  | compressTypeNone =>
    rw [if_pos rfl]
    dsimp only
    rw [if_neg (by rw [hs₁, List.length_append]; omega), hs₁, hs₂, slice, List.drop_left, List.take_length]
    exact ⟨fun h => congrArg some (Except.ok.inj h), fun h => congrArg Except.ok (Option.some.inj h)⟩
  | compressTypeGzip | compressTypeZlib | compressTypeLZ4 =>
    rw [if_neg (by decide)]
    dsimp only
    rw [hint, arrayInput_data]
    exact ⟨fun h => congrArg some (Except.ok.inj h), fun h => congrArg Except.ok (Option.some.inj h)⟩

theorem rawData_length {c : Codecs} {type : CompressType} {payload data : List UInt8}
    (h : Session.rawData c type payload = some data) : data.length < 2 ^ 31 := by
  unfold Session.rawData at h
  split at h
  · cases h
    exact Session.intBytes_length payload
  · obtain ⟨plain, -, h⟩ := Option.bind_eq_some_iff.1 h
    obtain ⟨r, -, rfl⟩ := Option.map_eq_some_iff.1 h
    exact Session.intBytes_length r.1

/-- A raw payload goes through two functions on bytes. -/
theorem rawRoundTrip_eq (c : Codecs) (p : TranBufPool) (m : Meta) (call : RawSend) {payload : List UInt8}
    (hcall : call.payload p = some payload) {type : CompressType}
    (htype : CompressType.ofCode m.compressType = some type) :
    RawRoundTrip c p m call payload ↔
      ∃ data, Session.rawData c type payload = some data ∧ decodeRaw c type data = some payload := by
  rw [RawRoundTrip, call.send_eq c p m payload hcall]
  constructor
  · rintro ⟨data, hsent, hdecode⟩
    have hdata := (Session.frame_putRaw c p m payload htype data).1 hsent
    obtain ⟨q, rb, -, hrb⟩ := WriteBuffer.exists_readBuffer (m.raw ++ data)
    exact ⟨data, hdata, (getMsgData_sent c (fun _ => 0) htype (rawData_length hdata) hrb payload).1 (hdecode q rb _ hrb)⟩
  · rintro ⟨data, hdata, hdecode⟩
    refine ⟨data, (Session.frame_putRaw c p m payload htype data).2 hdata, fun q rb outside hrb => ?_⟩
    exact (getMsgData_sent c outside htype (rawData_length hdata) hrb payload).2 hdecode

/-! ## Lengths in front of raw data -/

@[simp] theorem readCoded_nil : readCoded [] = [] := rfl

theorem readCoded_length (plain : List UInt8) : (readCoded plain).length < 2 ^ 31 := by
  unfold readCoded
  split
  · exact Nat.two_pow_pos 31
  · rename_i size rest h
    have hrest : size < 2 ^ 32 := by
      unfold readVarint32 at h
      obtain ⟨r, -, hr⟩ := Option.map_eq_some_iff.1 h
      cases hr
      exact Nat.mod_lt _ (by decide)
    split
    · exact Nat.two_pow_pos 31
    · rename_i hneg
      have hlt : size < 2 ^ 31 := by
        by_contra hge
        exact hneg (toInt32_neg size (Nat.le_of_not_lt hge) hrest)
      exact Nat.lt_of_le_of_lt (List.length_take_le ..) hlt

theorem writeVarint32_length (n : Nat) : (writeVarint32 n).length ≤ 5 := Varint.write_length 5 _

/-- A payload that an `int` counts is read back up to the bytes that a `CodedInputStream` gives. -/
theorem readCoded_write (payload : List UInt8) (h : payload.length < 2 ^ 31) :
    readCoded (writeVarint32 payload.length ++ payload) =
      payload.take (2147483647 - (writeVarint32 payload.length).length) := by
  have hlen := writeVarint32_length payload.length
  have hint : ¬ toInt32 payload.length < 0 := by
    rw [toInt32_of_range _ (by omega) (by omega)]
    omega
  rw [readCoded, List.take_append, List.take_of_length_le (by omega), readVarint32_write _ _ (by omega)]
  dsimp only
  rw [if_neg hint, List.take_of_length_le (List.length_take_le' ..)]

theorem codedRaw_of_lt {payload : List UInt8} (h : payload.length < 2 ^ 31) :
    Session.codedRaw payload = some (writeVarint32 payload.length ++ payload) := by
  have hint : Session.intSize payload = payload.length := Session.intSize_of_lt h
  rw [Session.codedRaw, hint, if_neg (by omega), Int.toNat_natCast, List.take_length]

theorem codedRaw_isSome_nil : Session.codedRaw [] = some (writeVarint32 0 ++ []) := codedRaw_of_lt (by decide)

/-- What is left of a raw payload whose deflate stream an `int` does not count is nothing. -/
theorem inflate_intBytes {c : Codecs} (hc : c.Lawful) (f : GzipFormat) {plain : List UInt8}
    (hlen : plain.length < 2 ^ 31 + 5) : c.inflate f (Session.intBytes (c.deflateFlush f plain)) =
      if (c.deflateFlush f plain).length < 2 ^ 31 then plain else [] := by
  split
  · rename_i hlt
    rw [(Session.intBytes_eq_iff _).2 hlt, hc.inflate_flush]
  · rename_i hge
    rw [Session.intBytes_of_le (Nat.le_of_not_lt hge) (hc.deflate_length f plain hlen), hc.inflate_nil]

/-! ## When raw data comes back -/

/-- The deflate stream of a payload and its length, and what they are made from, are counted by an `int`. -/
def DeflateFits (c : Codecs) (f : GzipFormat) (payload : List UInt8) : Prop :=
  (writeVarint32 payload.length ++ payload).length < 2 ^ 31 ∧
    (c.deflateFlush f (writeVarint32 payload.length ++ payload)).length < 2 ^ 31

def RawSurvives (c : Codecs) (type : CompressType) (payload : List UInt8) : Prop :=
  match type with
  | .compressTypeNone => payload.length < 2 ^ 31
  | .compressTypeGzip => payload = [] ∨ DeflateFits c .gzip payload
  | .compressTypeZlib => payload = [] ∨ DeflateFits c .zlib payload
  | .compressTypeLZ4  => payload = []

theorem deflate_survives {c : Codecs} (hc : c.Lawful) (f : GzipFormat) (payload : List UInt8) :
    (∃ plain, Session.codedRaw payload = some plain ∧
      readCoded (c.inflate f (Session.intBytes (c.deflateFlush f plain))) = payload) ↔
    payload = [] ∨ DeflateFits c f payload := by
  constructor
  · rintro ⟨plain, hplain, hread⟩
    have hlt : payload.length < 2 ^ 31 := hread ▸ readCoded_length _
    rw [codedRaw_of_lt hlt, Option.some.injEq] at hplain
    subst hplain
    have hlen := writeVarint32_length payload.length
    have hplain5 : (writeVarint32 payload.length ++ payload).length < 2 ^ 31 + 5 := by
      rw [List.length_append]
      omega
    rw [inflate_intBytes hc f hplain5] at hread
    split at hread
    · rename_i hflush
      refine Or.inr ⟨?_, hflush⟩
      rw [readCoded_write payload hlt] at hread
      have := congrArg List.length hread
      rw [List.length_take] at this
      rw [List.length_append]
      omega
    · exact Or.inl hread.symm
  · rintro (rfl | ⟨hplain, hflush⟩)
    · refine ⟨_, codedRaw_isSome_nil, ?_⟩
      rw [inflate_intBytes hc f (by rw [List.append_nil]; exact Nat.lt_of_le_of_lt (writeVarint32_length 0) (by decide))]
      split
      · exact readCoded_write [] (by decide)
      · rfl
    · rw [List.length_append] at hplain
      have hlt : payload.length < 2 ^ 31 := by omega
      refine ⟨_, codedRaw_of_lt hlt, ?_⟩
      rw [inflate_intBytes hc f (by rw [List.length_append]; omega), if_pos hflush, readCoded_write payload hlt,
        List.take_of_length_le (by omega)]

/-- **Raw data comes back exactly when it survives**: uncompressed below 2 GiB, as a deflate stream if that is below
2 GiB too, and never through LZ4 unless there is none. -/
theorem rawRoundTrip_iff {c : Codecs} (hc : c.Lawful) (p : TranBufPool) (m : Meta) (call : RawSend)
    {payload : List UInt8} (hcall : call.payload p = some payload) {type : CompressType}
    (htype : CompressType.ofCode m.compressType = some type) :
    RawRoundTrip c p m call payload ↔ RawSurvives c type payload := by
  rw [rawRoundTrip_eq c p m call hcall htype]
  cases type with
  | compressTypeNone =>
    rw [RawSurvives, ← Session.intBytes_eq_iff]
    constructor
    · rintro ⟨data, hdata, hdecode⟩
      cases hdata
      exact Option.some.inj hdecode
    · exact fun h => ⟨_, rfl, congrArg some h⟩
  | compressTypeGzip | compressTypeZlib =>
    rw [RawSurvives, ← deflate_survives hc]
    constructor
    · rintro ⟨data, hdata, hdecode⟩
      obtain ⟨plain, hplain, hdata⟩ := Option.bind_eq_some_iff.1 hdata
      cases hdata
      exact ⟨plain, hplain, Option.some.inj hdecode⟩
    · rintro ⟨plain, hplain, hread⟩
      exact ⟨_, by rw [Session.rawData, if_neg (by decide), hplain]; rfl, congrArg some hread⟩
  | compressTypeLZ4 =>
    constructor
    · rintro ⟨data, hdata, hdecode⟩
      obtain ⟨plain, -, hdata⟩ := Option.bind_eq_some_iff.1 hdata
      cases hdata
      exact (Option.some.inj hdecode).symm
    · rintro rfl
      exact ⟨[], by rw [Session.rawData, if_neg (by decide), codedRaw_isSome_nil]; rfl, rfl⟩

/-! ## Messages of protobuf -/

section Messages

variable {Msg : Type u} (c : Codecs) (pb : Protobuf Msg) (p : TranBufPool) (m : Meta) (message : Msg)

/-- A message that is sent comes to a function behind `MakeNetHandler`. -/
def NetRoundTrip : Prop :=
  ∃ data, SentData (Session.sendMessage c pb p (some m) message) m data ∧ ∀ (q : TranBufPool) (rb : ReadBuffer),
    rb.remaining q = some data → makeNetHandler c pb q m rb = some message

/-- A message that is sent comes to a function behind `MakeRpcHandler`. -/
def RpcRoundTrip : Prop :=
  ∃ data, SentData (Session.sendMessage c pb p (some m) message) m data ∧ ∀ (q : TranBufPool) (rb : ReadBuffer),
    rb.remaining q = some data → makeRpcHandler pb q rb = some message

/-- When an encoding reaches the rpc handler: it is not compressed, or it is by zlib or LZ4 and the compressed bytes,
as they are, happen to be parsed to the same message. -/
def RpcSurvives (type : CompressType) (bs : List UInt8) : Prop :=
  type = .compressTypeNone ∨
    type ≠ .compressTypeGzip ∧ pb.parsePartial (Session.messageData c type bs) = some message

end Messages

theorem netRoundTrip {Msg : Type u} {c : Codecs} (hc : c.Lawful) {pb : Protobuf Msg} (hpb : pb.Lawful)
    (p : TranBufPool) (m : Meta) {type : CompressType} (htype : CompressType.ofCode m.compressType = some type)
    {message : Msg} {bs : List UInt8} (hbs : pb.serialize message = some bs) : NetRoundTrip c pb p m message := by
  refine ⟨_, Session.frame_putMessage c pb p m message htype hbs, fun q rb hrb => ?_⟩
  rw [makeNetHandler, hrb, htype]
  by_cases hnone : type = .compressTypeNone
  · subst hnone
    exact hpb.parse_serialize message bs hbs
  · obtain ⟨flushed, rest, hcomp⟩ := compressStream_eq_some c hnone bs
    have hback := decompress_compress hc hcomp
    have hdata : Session.messageData c type bs = flushed ++ rest := by rw [Session.messageData, hcomp]
    rw [hdata]
    cases type with
    | compressTypeNone => exact absurd rfl hnone
    | compressTypeGzip | compressTypeZlib | compressTypeLZ4 =>
      dsimp only
      rw [hback, Option.bind_some, hpb.parse_serialize message bs hbs]

theorem rpcRoundTrip_iff {Msg : Type u} {c : Codecs} (hc : c.Lawful) {pb : Protobuf Msg} (hpb : pb.Lawful)
    (p : TranBufPool) (m : Meta) {type : CompressType} (htype : CompressType.ofCode m.compressType = some type)
    {message : Msg} {bs : List UInt8} (hbs : pb.serialize message = some bs) :
    RpcRoundTrip c pb p m message ↔ RpcSurvives c pb message type bs := by
  have hsent := Session.frame_putMessage c pb p m message htype hbs
  have hparse : RpcRoundTrip c pb p m message ↔ pb.parsePartial (Session.messageData c type bs) = some message := by
    constructor
    · rintro ⟨data, hdata, hrpc⟩
      rw [SentData.unique hdata hsent] at hrpc
      obtain ⟨q, rb, hfresh, hrb⟩ := WriteBuffer.exists_readBuffer (Session.messageData c type bs)
      rw [← hfresh.remaining] at hrb
      have := hrpc q rb hrb
      rwa [makeRpcHandler, hrb, Option.bind_some] at this
    · intro h
      exact ⟨_, hsent, fun q rb hrb => by rw [makeRpcHandler, hrb, Option.bind_some, h]⟩
  rw [hparse, RpcSurvives]
  cases type with
  | compressTypeNone => exact ⟨fun _ => Or.inl rfl, fun _ => hpb.parse_serialize message bs hbs⟩
  | compressTypeGzip =>
    -- the magic number of gzip is no tag
    obtain ⟨tail, htail⟩ := hc.gzip_magic bs
    have hnone : pb.parsePartial (Session.messageData c .compressTypeGzip bs) = none := by
      change pb.parsePartial (c.deflateFlush .gzip bs ++ c.deflateFinish .gzip bs) = none
      rw [htail, List.cons_append]
      exact hpb.parse_wireType _ _ (by decide)
    rw [hnone]
    constructor
    · intro h
      cases h
    · rintro (h | ⟨h, -⟩)
      · cases h
      · exact absurd rfl h
  | compressTypeZlib | compressTypeLZ4 =>
    constructor
    · exact fun h => Or.inr ⟨by decide, h⟩
    · rintro (h | ⟨-, h⟩)
      · cases h
      · exact h

/-- **Which payloads come back**: raw data that survives, messages to a net handler always, and messages to an rpc
handler when they are not compressed or the parser takes the compressed bytes for the same message. -/
theorem payload_roundTrip {Msg : Type u} (c : Codecs) (hc : c.Lawful) (pb : Protobuf Msg) (hpb : pb.Lawful)
    (p : TranBufPool) (m : Meta) (type : CompressType) (htype : CompressType.ofCode m.compressType = some type) :
    (∀ call payload, RawSend.payload p call = some payload →
      (RawRoundTrip c p m call payload ↔ RawSurvives c type payload)) ∧
    (∀ message bs, pb.serialize message = some bs →
      NetRoundTrip c pb p m message ∧ (RpcRoundTrip c pb p m message ↔ RpcSurvives c pb message type bs)) :=
  ⟨fun call _ hcall => rawRoundTrip_iff hc p m call hcall htype,
    fun _ _ hbs => ⟨netRoundTrip hc hpb p m htype hbs, rpcRoundTrip_iff hc hpb p m htype hbs⟩⟩

/-- zlib's wrapping of stored bytes, and the single token of literals that LZ4 makes of fewer than 13 bytes. -/
def literalCodecs : Codecs where
  deflateFlush  := fun f bs => (match f with | .gzip => [0x1f, 0x8b] | .zlib => [0x78, 0x01]) ++ bs
  deflateFinish := fun _ _ => []
  inflate       := fun _ bs => bs.drop 2
  lz4Compress   := fun bs => UInt8.ofNat (16 * bs.length) :: bs
  lz4Uncompress := fun bs => bs.tail?

theorem literalCodecs_lawful : literalCodecs.Lawful where
  inflate_flush  := fun f xs => by cases f <;> rfl
  inflate_finish := fun f xs => by cases f <;> exact List.append_nil _
  inflate_nil    := fun _ => rfl
  deflate_length := fun f xs h => by
    have hlen : (literalCodecs.deflateFlush f xs).length = 2 + xs.length := by
      cases f <;> exact (List.length_append ..).trans (by rfl)
    omega
  gzip_magic     := fun xs => ⟨0x8b :: xs, rfl⟩
  uncompress     := fun _ _ => rfl
  compress_bound := fun xs h => Nat.le_trans (Nat.succ_le_succ h) (by decide)

/-- A message with one field, a bool of number 1. -/
def boolMessage : Protobuf Bool where
  serialize    := fun b => some (if b then [8, 1] else [])
  parsePartial := fun bs => if bs = [] then some false else if bs = [8, 1] then some true else none

theorem boolMessage_lawful : boolMessage.Lawful where
  parse_serialize := fun msg bs h => by
    cases h
    cases msg <;> rfl
  parse_wireType  := fun b rest h => by
    have hb : b ≠ 8 := fun h8 => absurd (h8 ▸ h) (by decide)
    change (if b :: rest = [] then some false else if b :: rest = [8, 1] then some true else none) = none
    rw [if_neg (List.cons_ne_nil _ _), if_neg fun h => hb (List.cons.inj h).1]

/-- A meta without compression. -/
theorem payload_roundTrip_plain : (∀ call payload, RawSend.payload .init call = some payload →
      (RawRoundTrip literalCodecs .init .init call payload ↔ RawSurvives literalCodecs .compressTypeNone payload)) ∧
    (∀ message bs, boolMessage.serialize message = some bs → NetRoundTrip literalCodecs boolMessage .init .init message ∧
      (RpcRoundTrip literalCodecs boolMessage .init .init message ↔
        RpcSurvives literalCodecs boolMessage message .compressTypeNone bs)) :=
  payload_roundTrip literalCodecs literalCodecs_lawful boolMessage boolMessage_lawful .init .init .compressTypeNone rfl

/-- The meta of a message that LZ4 compresses. -/
def lz4Meta : Meta := ⟨List.replicate 13 0 ++ 3 :: List.replicate 16 0, rfl⟩

/-- A vector of one byte through LZ4. -/
theorem not_payload_roundTrip : (literalCodecs.Lawful ∧ CompressType.ofCode lz4Meta.compressType = some .compressTypeLZ4) ∧
    ¬ RawRoundTrip literalCodecs .init lz4Meta (.vector [7]) [7] := by
  have htype : CompressType.ofCode lz4Meta.compressType = some .compressTypeLZ4 := by decide
  refine ⟨⟨literalCodecs_lawful, htype⟩, ?_⟩
  rw [rawRoundTrip_iff literalCodecs_lawful .init lz4Meta (.vector [7]) rfl htype]
  exact fun h => by cases h

end Gb
