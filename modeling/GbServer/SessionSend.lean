import GbServer.CompressedStream
import GbServer.WriteBuffer
import GbServer.MessageHeader
import GbServer.MessageMeta
/-!
# SessionSend — the frames that the overloads of `Session::Send` build

Each overload (`session.cpp`) reserves the header, appends the meta, puts the data behind it and fills the header in;
the buffer is handed to `async_send_message`.  They differ in the data: a protobuf message is written to the frame
itself and its compressed stream is destroyed before the sizes are taken; the four overloads for raw bytes put a length
in front, append what the compressed stream has handed over when it is flushed, and destroy it afterwards.

Whatever the data, the frame is the header of its sizes, the meta and the data (`frame_sent`).  Memory does not run out.
-/
namespace Gb

universe u

/-- A message type: `SerializeToZeroCopyStream`, which refuses a message it cannot encode, and
`ParsePartialFromZeroCopyStream`. -/
structure Protobuf (Msg : Type u) where
  serialize    : Msg → Option (List UInt8)
  parsePartial : List UInt8 → Option Msg

/-- A message is parsed from its encoding, and the wire types 6 and 7 of a tag are refused. -/
structure Protobuf.Lawful {Msg : Type u} (pb : Protobuf Msg) : Prop where
  parse_serialize : ∀ msg bs, pb.serialize msg = some bs → pb.parsePartial bs = some msg
  parse_wireType  : ∀ b rest, 6 ≤ b.toNat % 8 → pb.parsePartial (b :: rest) = none

/-- What putting the data into a frame comes to; a fault is a null stream or a negative size that is copied. -/
inductive DataResult
  | written (w : WriteBuffer)
  | refused
  | fault

/-- What a `Send` comes to: a buffer for `async_send_message`, nothing, or a fault. -/
inductive SendResult
  | sent (buffer : ReadBuffer) (pool : TranBufPool)
  | refused
  | fault

namespace Session

def memory : Nat → Bool := fun _ => true

/-- The part that all overloads share, around the data. -/
def frame (p : TranBufPool) (m : Meta) (putData : WriteBuffer → DataResult) : SendResult :=
  match WriteBuffer.reserve { pool := p } messageHeaderSize memory with
  | none                => .fault
  | some (headerPos, w) =>
    match w.append m.raw metaStructSize memory with
    | none        => .fault
    | some (_, w) =>
      let metaSize := toInt32 (w.byteCount - headerPos - messageHeaderSize)
      match putData w with
      | .fault     => .fault
      | .refused   => .refused
      | .written w =>
        let dataSize    := w.byteCount - headerPos - messageHeaderSize - metaSize
        let messageSize := metaSize + dataSize
        match w.setData headerPos (MessageHeader.ofFields metaSize dataSize messageSize).raw with
        | none   => .fault
        | some w => .sent (w.swapOut {}).1 (w.swapOut {}).2.pool

/-- A stream of protobuf writes `bs` to the frame. -/
def writeStream (w : WriteBuffer) (bs : List UInt8) : DataResult :=
  match w.writeRaw memory bs.length bs with
  | some (true, w)  => .written w
  | some (false, _) => .refused
  | none            => .fault

section Overloads

variable {Msg : Type u} (c : Codecs) (pb : Protobuf Msg) (p : TranBufPool)

/-- The data of the overload for a protobuf message.  The compressed stream is flushed and then destroyed. -/
def putMessage (m : Meta) (message : Msg) (w : WriteBuffer) : DataResult :=
  match CompressType.ofCode m.compressType with
  | none                   => .fault
  | some .compressTypeNone =>
    match pb.serialize message with
    | none    => .refused
    | some bs => writeStream w bs
  | some type              =>
    match pb.serialize message with
    | none    => .refused
    | some bs =>
      match compressStream c type bs with
      | none                 => .fault
      | some (flushed, rest) =>
        match writeStream w flushed with
        | .written w => writeStream w rest
        | r          => r

/-- The number of bytes where the callee takes an `int`. -/
def intSize (bs : List UInt8) : Int := toInt32 bs.length

/-- What the raw overloads write through a `CodedOutputStream`: the length, and the bytes that an `int` counts.  A
negative count is copied as a huge one: `none`. -/
def codedRaw (data : List UInt8) : Option (List UInt8) :=
  if intSize data < 0 then none
  else some (writeVarint32 data.length ++ data.take (intSize data).toNat)

/-- `Append` of `bs`. -/
def appendBytes (w : WriteBuffer) (bs : List UInt8) : DataResult :=
  match w.append bs (intSize bs) memory with
  | none        => .fault
  | some (_, w) => .written w

/-- The string below the compressed stream is appended when the stream is flushed, and the stream destroyed afterwards. -/
def putCompressed (type : CompressType) (data : List UInt8) (w : WriteBuffer) : DataResult :=
  match codedRaw data with
  | none       => .fault
  | some plain =>
    match compressStream c type plain with
    | none                 => .fault
    | some (compressed, _) => appendBytes w compressed

/-- The data of the overloads for raw bytes. -/
def putRaw (m : Meta) (data : List UInt8) (w : WriteBuffer) : DataResult :=
  match CompressType.ofCode m.compressType with
  | none                   => .fault
  | some .compressTypeNone => appendBytes w data
  | some type              => putCompressed c type data w

/-- `Send(const Meta*, const google::protobuf::Message*)`: without a meta it returns. -/
def sendMessage (m : Option Meta) (message : Msg) : SendResult :=
  match m with
  | none   => .refused
  | some m => frame p m (putMessage c pb m message)

/-- `Send(const Meta*, const std::vector<uint8_t>&)`. -/
def sendVector (m : Meta) (data : List UInt8) : SendResult := frame p m (putRaw c m data)

/-- `Send(const Meta*, std::string_view)`. -/
def sendStringView (m : Meta) (data : List UInt8) : SendResult := frame p m (putRaw c m data)

/-- `Send(const Meta*, const char*, std::size_t)`: `size` of the bytes at `data`, if there are so many. -/
def sendPointer (m : Meta) (data : List UInt8) (size : Nat) : SendResult :=
  if size ≤ data.length then frame p m (putRaw c m (data.take size)) else .fault

/-- `Send(const Meta*, const ReadBufferPtr&)`: the bytes of all its blocks, whatever was taken from it. -/
def sendReadBuffer (m : Meta) (dataBuffer : ReadBuffer) : SendResult :=
  match dataBuffer.toString p with
  | none      => .fault
  | some data => frame p m (putRaw c m data)

end Overloads

/-- `Send(const Meta*)`. -/
def sendMeta (p : TranBufPool) : Option Meta → SendResult
  | some m => frame p m fun w => .written w
  | none   =>
    match WriteBuffer.reserve { pool := p } messageHeaderSize memory with
    | none                => .fault
    | some (headerPos, w) =>
      match w.setData headerPos MessageHeader.init.raw with
      | none   => .fault
      | some w => .sent (w.swapOut {}).1 (w.swapOut {}).2.pool

/-! ## What is sent -/

/-- The header in front of a meta and `data`. -/
def sentHeader (data : List UInt8) : MessageHeader :=
  .ofFields metaStructSize data.length (metaStructSize + data.length)

/-- The buffer that was sent holds the header, the meta and the data. -/
def SentData (r : SendResult) (m : Meta) (data : List UInt8) : Prop :=
  ∃ rb pool, r = .sent rb pool ∧ rb.Fresh ∧ rb.toString pool = some ((sentHeader data).raw ++ (m.raw ++ data))

theorem SentData.unique {r : SendResult} {m : Meta} {data data' : List UInt8} (h : SentData r m data)
    (h' : SentData r m data') : data = data' := by
  obtain ⟨rb, pool, rfl, -, hbytes⟩ := h
  obtain ⟨rb', pool', hr, -, hbytes'⟩ := h'
  cases hr
  rw [hbytes, Option.some.injEq] at hbytes'
  have hlen : (sentHeader data).raw.length = (sentHeader data').raw.length := by
    rw [MessageHeader.raw_length, MessageHeader.raw_length]
  exact List.append_cancel_left (List.append_inj hbytes' hlen).2

/-- **A frame is the header, the meta and what was put behind it.** -/
theorem frame_sent (p : TranBufPool) (m : Meta) (putData : WriteBuffer → DataResult) (data : List UInt8)
    (hput : ∀ (w : WriteBuffer) (bs : List UInt8), w.Holds bs → ∃ w', putData w = .written w' ∧ w'.Holds (bs ++ data)) :
    SentData (frame p m putData) m data := by
  have hnew : (WriteBuffer.mk p [] 0 0 0 0 4).Holds [] := ⟨.nil, rfl⟩
  obtain ⟨w₁, g, hreserve, h₁, hg⟩ := hnew.reserve (fun _ => rfl) (messageHeaderSize : Nat)
  obtain ⟨w₂, happend, h₂⟩ := h₁.append (fun _ => rfl) m.raw (metaStructSize : Nat)
    (Int.le_of_eq (by rw [m.raw_length]))
  rw [List.nil_append] at h₁
  rw [List.nil_append, Int.toNat_natCast, List.take_of_length_le (Nat.le_of_eq m.raw_length)] at h₂
  obtain ⟨w₃, hw₃, h₃⟩ := hput w₂ _ h₂
  rw [Int.toNat_natCast] at hg
  have hcount₂ : (w₂.byteCount : Int) = messageHeaderSize + metaStructSize := by
    rw [WriteBuffer.byteCount, h₂.count, List.length_append, hg, m.raw_length]
    rfl
  have hcount₃ : (w₃.byteCount : Int) = messageHeaderSize + metaStructSize + data.length := by
    rw [WriteBuffer.byteCount, h₃.count, List.length_append, List.length_append, hg, m.raw_length]
    rfl
  have hmeta : toInt32 (w₂.byteCount - (0 : Nat) - messageHeaderSize) = (metaStructSize : Nat) := by
    rw [hcount₂]
    decide
  have hdata : (w₃.byteCount : Int) - (0 : Nat) - messageHeaderSize - (metaStructSize : Nat) = data.length := by
    rw [hcount₃]
    omega
  obtain ⟨w₄, hset, h₄⟩ := h₃.setData 0 (sentHeader data).raw (by
    rw [MessageHeader.raw_length, List.length_append, List.length_append, hg]
    omega)
  obtain ⟨hbytes, hfresh⟩ := h₄.swapOut
  refine ⟨(w₄.swapOut {}).1, (w₄.swapOut {}).2.pool, ?_, hfresh, ?_⟩
  · rw [frame, show WriteBuffer.reserve { pool := p } messageHeaderSize memory = some (((0 : Nat) : Int), w₁) from hreserve]
    dsimp only
    rw [show w₁.append m.raw metaStructSize memory = some (true, w₂) from happend]
    dsimp only
    rw [hw₃, hmeta]
    dsimp only
    rw [hdata, show MessageHeader.ofFields (metaStructSize : Nat) data.length ((metaStructSize : Nat) + data.length) =
      sentHeader data from rfl, hset]
  · rw [hbytes, List.append_assoc, Bytes.overwrite_eq _ _ _ (by
      rw [MessageHeader.raw_length, List.length_append, hg]
      omega), List.take_zero, List.nil_append, Nat.zero_add, MessageHeader.raw_length, ← hg, List.drop_left]

theorem sendMeta_sent (p : TranBufPool) (m : Meta) : SentData (sendMeta p (some m)) m [] :=
  frame_sent p m _ [] fun w bs h => ⟨w, rfl, by rwa [List.append_nil]⟩

theorem frame_fault (p : TranBufPool) (m : Meta) (putData : WriteBuffer → DataResult) (hput : ∀ w, putData w = .fault) :
    frame p m putData = .fault := by
  unfold frame
  split
  · rfl
  · split
    · rfl
    · simp only [hput]

theorem not_sentData_fault (m : Meta) (data : List UInt8) : ¬ SentData .fault m data := by
  rintro ⟨rb, pool, h, -⟩
  cases h

theorem intSize_le (bs : List UInt8) : intSize bs ≤ bs.length := toInt32_le bs.length

theorem intSize_lt (bs : List UInt8) : intSize bs < 2 ^ 31 := toInt32_lt bs.length

theorem intSize_of_lt {bs : List UInt8} (h : bs.length < 2 ^ 31) : intSize bs = bs.length :=
  toInt32_of_range _ (by omega) (by omega)

/-- As many of the bytes as their number has in an `int`. -/
def intBytes (bs : List UInt8) : List UInt8 := bs.take (intSize bs).toNat

theorem intBytes_of_le {bs : List UInt8} (lo : 2 ^ 31 ≤ bs.length) (hi : bs.length < 2 ^ 32) : intBytes bs = [] := by
  have hneg : intSize bs < 0 := toInt32_neg bs.length lo hi
  rw [intBytes, Int.toNat_eq_zero.2 (Int.le_of_lt hneg), List.take_zero]

theorem intBytes_eq_iff (bs : List UInt8) : intBytes bs = bs ↔ bs.length < 2 ^ 31 := by
  constructor
  · intro h
    have hlen := congrArg List.length h
    have hlt := intSize_lt bs
    rw [intBytes, List.length_take] at hlen
    omega
  · intro h
    rw [intBytes, intSize_of_lt h, Int.toNat_natCast, List.take_length]

theorem intBytes_length (bs : List UInt8) : (intBytes bs).length < 2 ^ 31 := by
  have := intSize_lt bs
  rw [intBytes, List.length_take]
  omega

/-- The data that the raw overloads send, if they do not fault. -/
def rawData (c : Codecs) (type : CompressType) (payload : List UInt8) : Option (List UInt8) :=
  if type = .compressTypeNone then some (intBytes payload)
  else (codedRaw payload).bind fun plain => (compressStream c type plain).map fun r => intBytes r.1

theorem appendBytes_written (data : List UInt8) {w : WriteBuffer} {bs : List UInt8} (h : w.Holds bs) :
    ∃ w', appendBytes w data = .written w' ∧ w'.Holds (bs ++ intBytes data) := by
  obtain ⟨w', hw', h'⟩ := @WriteBuffer.Holds.append w bs h memory (fun _ => rfl) data (intSize data) (intSize_le data)
  exact ⟨w', by rw [appendBytes, hw'], h'⟩

theorem putRaw_of_compressed (c : Codecs) (m : Meta) (payload : List UInt8) {type : CompressType}
    (htype : CompressType.ofCode m.compressType = some type) (hnone : type ≠ .compressTypeNone) (w : WriteBuffer) :
    putRaw c m payload w = putCompressed c type payload w := by
  rw [putRaw, htype]
  cases type with
  | compressTypeNone => exact absurd rfl hnone
  | compressTypeGzip | compressTypeZlib | compressTypeLZ4 => rfl

/-- A raw overload puts `rawData` into any frame, or faults whatever the frame. -/
theorem putRaw_cases (c : Codecs) (m : Meta) (payload : List UInt8) {type : CompressType}
    (htype : CompressType.ofCode m.compressType = some type) :
    (∃ data, rawData c type payload = some data ∧ ∀ (w : WriteBuffer) (bs : List UInt8), w.Holds bs →
      ∃ w', putRaw c m payload w = .written w' ∧ w'.Holds (bs ++ data)) ∨
    rawData c type payload = none ∧ ∀ w, putRaw c m payload w = .fault := by
  by_cases hnone : type = .compressTypeNone
  · subst hnone
    refine Or.inl ⟨_, if_pos rfl, fun w bs h => ?_⟩
    rw [putRaw, htype]
    exact appendBytes_written payload h
  · have hraw := putRaw_of_compressed c m payload htype hnone
    rw [rawData, if_neg hnone]
    cases hcoded : codedRaw payload with
    | none       => exact Or.inr ⟨Option.bind_none _, fun w => by rw [hraw w, putCompressed, hcoded]⟩
    | some plain =>
      obtain ⟨flushed, rest, hc⟩ := compressStream_eq_some c hnone plain
      rw [Option.bind_some, hc, Option.map_some]
      refine Or.inl ⟨_, rfl, fun w bs h => ?_⟩
      rw [hraw w, putCompressed, hcoded]
      dsimp only
      rw [hc]
      exact appendBytes_written flushed h

/-- What is sent of a raw payload is `rawData`. -/
theorem frame_putRaw (c : Codecs) (p : TranBufPool) (m : Meta) (payload : List UInt8) {type : CompressType}
    (htype : CompressType.ofCode m.compressType = some type) (data : List UInt8) :
    SentData (frame p m (putRaw c m payload)) m data ↔ rawData c type payload = some data := by
  rcases putRaw_cases c m payload htype with ⟨d, hd, hw⟩ | ⟨hd, hw⟩
  · rw [hd, Option.some.injEq]
    have hsent := frame_sent p m _ d hw
    exact ⟨fun h => hsent.unique h, fun h => h ▸ hsent⟩
  · rw [hd, frame_fault p m _ hw]
    exact ⟨fun h => absurd h (not_sentData_fault m data), fun h => by cases h⟩

/-- The data that the overload for messages sends of an encoding. -/
def messageData (c : Codecs) (type : CompressType) (bs : List UInt8) : List UInt8 :=
  match compressStream c type bs with
  | none                 => bs
  | some (flushed, rest) => flushed ++ rest

theorem writeStream_written (xs : List UInt8) {w : WriteBuffer} {bs : List UInt8} (h : w.Holds bs) :
    ∃ w', writeStream w xs = .written w' ∧ w'.Holds (bs ++ xs) := by
  obtain ⟨w', hw', h'⟩ := h.writeRaw (fun _ => rfl) xs.length xs (Nat.le_refl _)
  exact ⟨w', by rw [writeStream, show w.writeRaw memory xs.length xs = some (true, w') from hw'], h'⟩

theorem frame_putMessage {Msg : Type u} (c : Codecs) (pb : Protobuf Msg) (p : TranBufPool) (m : Meta) (message : Msg)
    {type : CompressType} (htype : CompressType.ofCode m.compressType = some type) {bs : List UInt8}
    (hbs : pb.serialize message = some bs) :
    SentData (frame p m (putMessage c pb m message)) m (messageData c type bs) := by
  refine frame_sent p m _ _ fun w pre h => ?_
  unfold putMessage messageData
  simp only [htype, hbs]
  cases type with
  | compressTypeNone => exact writeStream_written bs h
  | compressTypeGzip | compressTypeZlib | compressTypeLZ4 =>
    dsimp only [compressStream]
    obtain ⟨w₁, hw₁, h₁⟩ := writeStream_written _ h
    obtain ⟨w₂, hw₂, h₂⟩ := writeStream_written _ h₁
    refine ⟨w₂, ?_, by rw [← List.append_assoc]; exact h₂⟩
    rw [hw₁]
    exact hw₂

end Session
end Gb
