import GbServer.Lib.Framing
import GbServer.Lib.Bytes
/-!
# MessageHeader — the 24 bytes in front of every message

`MessageHeader` (`message_header.h`) as it lies in memory: a magic number of 4 bytes, `meta_size` (`int32_t`),
`data_size` and `message_size` (`int64_t`), little-endian.  The value is the bytes themselves, since a receiver fills
them piece by piece; the fields are read off them.
-/
namespace Gb

open Bytes (slice overwrite toLe leNat toInt ofInt)

def MESSAGE_HEAD_MAGIC : Nat := 322122

/-- `sizeof(MessageHeader)`. -/
def messageHeaderSize : Nat := 24

structure MessageHeader where
  raw        : List UInt8
  raw_length : raw.length = messageHeaderSize

namespace MessageHeader

def magicStrValue (h : MessageHeader) : Nat := leNat (slice h.raw 0 4)

def metaSize (h : MessageHeader) : Int := toInt 4 (leNat (slice h.raw 4 4))

def dataSize (h : MessageHeader) : Int := toInt 8 (leNat (slice h.raw 8 8))

def messageSize (h : MessageHeader) : Int := toInt 8 (leNat (slice h.raw 16 8))

def checkMagicString (h : MessageHeader) : Bool := h.magicStrValue == MESSAGE_HEAD_MAGIC

/-- The header with the given fields and the right magic. -/
def ofFields (metaSize dataSize messageSize : Int) : MessageHeader :=
  ⟨toLe 4 MESSAGE_HEAD_MAGIC ++ toLe 4 (ofInt 4 metaSize) ++ toLe 8 (ofInt 8 dataSize) ++ toLe 8 (ofInt 8 messageSize),
    by simp [messageHeaderSize]⟩

/-- The default constructor. -/
def init : MessageHeader := ofFields 0 0 0

/-- `memcpy` into the header from the byte `off`. -/
def copyIn (h : MessageHeader) (off : Nat) (bs : List UInt8) : MessageHeader :=
  ⟨overwrite h.raw off bs, by rw [Bytes.overwrite_length, h.raw_length]⟩

@[ext] theorem ext_raw {h k : MessageHeader} (e : h.raw = k.raw) : h = k := by
  cases h; cases k; cases e; rfl

/-- Where each field lies in a header built from fields. -/
theorem slices_ofFields (m d s : Int) :
    slice (ofFields m d s).raw 0 4 = toLe 4 MESSAGE_HEAD_MAGIC ∧ slice (ofFields m d s).raw 4 4 = toLe 4 (ofInt 4 m) ∧
      slice (ofFields m d s).raw 8 8 = toLe 8 (ofInt 8 d) ∧ slice (ofFields m d s).raw 16 8 = toLe 8 (ofInt 8 s) := by
  refine ⟨?_, ?_, ?_, ?_⟩
  · have := Bytes.slice_of_eq_append (ofFields m d s).raw [] (toLe 4 MESSAGE_HEAD_MAGIC)
      (toLe 4 (ofInt 4 m) ++ toLe 8 (ofInt 8 d) ++ toLe 8 (ofInt 8 s)) (by simp [ofFields])
    simpa using this
  · have := Bytes.slice_of_eq_append (ofFields m d s).raw (toLe 4 MESSAGE_HEAD_MAGIC) (toLe 4 (ofInt 4 m))
      (toLe 8 (ofInt 8 d) ++ toLe 8 (ofInt 8 s)) (by simp [ofFields])
    simpa using this
  · have := Bytes.slice_of_eq_append (ofFields m d s).raw (toLe 4 MESSAGE_HEAD_MAGIC ++ toLe 4 (ofInt 4 m))
      (toLe 8 (ofInt 8 d)) (toLe 8 (ofInt 8 s)) (by simp [ofFields])
    simpa using this
  · have := Bytes.slice_of_eq_append (ofFields m d s).raw
      (toLe 4 MESSAGE_HEAD_MAGIC ++ toLe 4 (ofInt 4 m) ++ toLe 8 (ofInt 8 d)) (toLe 8 (ofInt 8 s)) []
      (by simp [ofFields])
    simpa using this

@[simp] theorem checkMagicString_ofFields (m d s : Int) : (ofFields m d s).checkMagicString = true := by
  rw [checkMagicString, magicStrValue, (slices_ofFields m d s).1, Bytes.leNat_toLe]
  rfl

theorem metaSize_ofFields (m d s : Int) (lo : -2 ^ 31 ≤ m) (hi : m < 2 ^ 31) : (ofFields m d s).metaSize = m := by
  rw [metaSize, (slices_ofFields m d s).2.1, Bytes.leNat_toLe]
  exact Bytes.toInt_ofInt_of_range 4 m (by simp only [Nat.reducePow]; omega) (by simp only [Nat.reducePow]; omega)

theorem dataSize_ofFields (m d s : Int) (lo : -2 ^ 63 ≤ d) (hi : d < 2 ^ 63) : (ofFields m d s).dataSize = d := by
  rw [dataSize, (slices_ofFields m d s).2.2.1, Bytes.leNat_toLe]
  exact Bytes.toInt_ofInt_of_range 8 d (by simp only [Nat.reducePow]; omega) (by simp only [Nat.reducePow]; omega)

theorem messageSize_ofFields (m d s : Int) (lo : -2 ^ 63 ≤ s) (hi : s < 2 ^ 63) : (ofFields m d s).messageSize = s := by
  rw [messageSize, (slices_ofFields m d s).2.2.2, Bytes.leNat_toLe]
  exact Bytes.toInt_ofInt_of_range 8 s (by simp only [Nat.reducePow]; omega) (by simp only [Nat.reducePow]; omega)

theorem metaSize_lt (h : MessageHeader) : h.metaSize < 2 ^ 31 := by
  have := Int.bmod_lt (x := leNat (slice h.raw 4 4)) (m := 256 ^ 4) (by decide)
  simp only [metaSize, toInt, Nat.reducePow] at this ⊢
  omega

theorem dataSize_lt (h : MessageHeader) : h.dataSize < 2 ^ 63 := by
  have := Int.bmod_lt (x := leNat (slice h.raw 8 8)) (m := 256 ^ 8) (by decide)
  simp only [dataSize, toInt, Nat.reducePow] at this ⊢
  omega

/-- Copying the rest of a header behind its first bytes gives the whole of it. -/
theorem raw_copyIn (h : MessageHeader) (got bs : List UInt8) (hgot : h.raw.take got.length = got)
    (hfit : got.length + bs.length ≤ messageHeaderSize) :
    (h.copyIn got.length bs).raw.take (got.length + bs.length) = got ++ bs := by
  show (overwrite h.raw got.length bs).take (got.length + bs.length) = got ++ bs
  rw [Bytes.overwrite_eq _ _ _ (by rw [h.raw_length]; exact hfit), hgot]
  exact List.take_left' (by simp)

/-- A complete header is its bytes. -/
theorem raw_eq_of_take (h : MessageHeader) (bs : List UInt8) (hlen : bs.length = messageHeaderSize)
    (htake : h.raw.take bs.length = bs) : h.raw = bs := by
  rw [← htake, List.take_of_length_le (Nat.le_of_eq (h.raw_length.trans hlen.symm))]

end MessageHeader

/-! ## The stream format -/

/-- Why a header ends the frame sequence: a wrong magic, which the receiver answers with -1, or a negative
`message_size`, which it does not look at. -/
inductive StreamError
  | badMagic
  | negativeSize (h : MessageHeader)

/-- The format of the stream as the receiver reads it: a header with the right magic announces `message_size` bytes.
The two other sizes play no part in where a frame ends. -/
def streamFormat : Framing.Format UInt8 MessageHeader StreamError where
  headerLen := messageHeaderSize
  headerLen_pos := by decide
  decode := fun bs =>
    if hl : bs.length = messageHeaderSize then
      if (MessageHeader.mk bs hl).checkMagicString then
        if (MessageHeader.mk bs hl).messageSize < 0 then .error (.negativeSize ⟨bs, hl⟩)
        else .ok (⟨bs, hl⟩, (MessageHeader.mk bs hl).messageSize.toNat)
      else .error .badMagic
    else .error .badMagic

theorem decode_raw (h : MessageHeader) : streamFormat.decode h.raw =
    if h.checkMagicString then
      if h.messageSize < 0 then .error (.negativeSize h) else .ok (h, h.messageSize.toNat)
    else .error .badMagic := by
  simp only [streamFormat, h.raw_length, dite_true]

end Gb
