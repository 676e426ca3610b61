import GbServer.Lib.FloatBits
/-!
# MsgpackPacker — the bytes of a value

The markers (`format_t`) and the overloads of `Packer::pack_type` (`msgpack.hpp`).  Lengths of 16 and 32 bits are
big-endian, floats are copied as they lie in memory.  A number takes the narrowest form that holds it, and a float with
an integral value is packed as that integer.
-/
namespace Gb.Msgpack

open Bytes (toBe toLe)
open FloatBits (binary32 binary64)

universe u v

inductive Format
  | nil
  | falseBool
  | trueBool
  | bin8
  | bin16
  | bin32
  | float32
  | float64
  | uint8
  | uint16
  | uint32
  | uint64
  | int8
  | int16
  | int32
  | int64
  | str8
  | str16
  | str32
  | array16
  | array32
  | map16
  | map32
  | table
  deriving DecidableEq

def Format.code : Format → UInt8
  | .nil       => 0xc0
  | .falseBool => 0xc2
  | .trueBool  => 0xc3
  | .bin8      => 0xc4
  | .bin16     => 0xc5
  | .bin32     => 0xc6
  | .float32   => 0xca
  | .float64   => 0xcb
  | .uint8     => 0xcc
  | .uint16    => 0xcd
  | .uint32    => 0xce
  | .uint64    => 0xcf
  | .int8      => 0xd0
  | .int16     => 0xd1
  | .int32     => 0xd2
  | .int64     => 0xd3
  | .str8      => 0xd9
  | .str16     => 0xda
  | .str32     => 0xdb
  | .array16   => 0xdc
  | .array32   => 0xdd
  | .map16     => 0xde
  | .map32     => 0xdf
  | .table     => 0xe0

/-! ## Integers -/

inductive IntType
  | int8
  | int16
  | int32
  | int64
  | uint8
  | uint16
  | uint32
  | uint64
  deriving DecidableEq

namespace IntType

def min : IntType → Int
  | .int8  => -128
  | .int16 => -32768
  | .int32 => -2147483648
  | .int64 => -9223372036854775808
  | _      => 0

def max : IntType → Int
  | .int8   => 127
  | .int16  => 32767
  | .int32  => 2147483647
  | .int64  => 9223372036854775807
  | .uint8  => 255
  | .uint16 => 65535
  | .uint32 => 4294967295
  | .uint64 => 18446744073709551615

def modulus : IntType → Int
  | .int8  | .uint8  => 256
  | .int16 | .uint16 => 65536
  | .int32 | .uint32 => 4294967296
  | .int64 | .uint64 => 18446744073709551616

/-- A value of the type. -/
def Val (t : IntType) : Type := {n : Int // t.min ≤ n ∧ n ≤ t.max}

instance (t : IntType) : DecidableEq t.Val := inferInstanceAs (DecidableEq {_n : Int // _})

/-- The conversion from another integer type. -/
def wrap (t : IntType) (n : Int) : t.Val :=
  ⟨if n % t.modulus ≤ t.max then n % t.modulus else n % t.modulus - t.modulus, by
    have lo := Int.emod_nonneg n (show t.modulus ≠ 0 by cases t <;> decide)
    have hi := Int.emod_lt_of_pos n (show 0 < t.modulus by cases t <;> decide)
    split <;> cases t <;> simp only [min, max, modulus] at * <;> omega⟩

theorem wrap_val (t : IntType) (n : Int) (lo : t.min ≤ n) (hi : n ≤ t.max) : (t.wrap n).val = n := by
  simp only [wrap]
  split <;> cases t <;> simp only [min, max, modulus] at * <;> omega

@[simp] theorem wrap_self (t : IntType) (x : t.Val) : t.wrap x.val = x := Subtype.ext (t.wrap_val x.val x.2.1 x.2.2)

end IntType

/-- The conversion to `uint8_t`. -/
def toByte (n : Int) : UInt8 := UInt8.ofNat (n % 256).toNat

def packInt8 (value : Int) : List UInt8 :=
  if -32 ≤ value ∧ value ≤ -1 then [toByte (0xe0 + 32 + value)]
  else if 0 ≤ value ∧ value ≤ 0x7f then [toByte value]
  else [Format.int8.code, toByte value]

def packInt16 (value : Int) : List UInt8 :=
  if value ≤ IntType.int8.max ∧ IntType.int8.min ≤ value then packInt8 value
  else Format.int16.code :: toBe 2 (Bytes.ofInt 2 value)

def packInt32 (value : Int) : List UInt8 :=
  if value ≤ IntType.int16.max ∧ IntType.int16.min ≤ value then packInt16 value
  else Format.int32.code :: toBe 4 (Bytes.ofInt 4 value)

def packInt64 (value : Int) : List UInt8 :=
  if value ≤ IntType.int32.max ∧ IntType.int32.min ≤ value then packInt32 value
  else Format.int64.code :: toBe 8 (Bytes.ofInt 8 value)

def packUint8 (value : Int) : List UInt8 :=
  if value ≤ 0x7f then [toByte value] else [Format.uint8.code, toByte value]

def packUint16 (value : Int) : List UInt8 :=
  if IntType.uint8.max < value then Format.uint16.code :: toBe 2 value.toNat else packUint8 value

def packUint32 (value : Int) : List UInt8 :=
  if IntType.uint16.max < value then Format.uint32.code :: toBe 4 value.toNat else packUint16 value

def packUint64 (value : Int) : List UInt8 :=
  if IntType.uint32.max < value then Format.uint64.code :: toBe 8 value.toNat else packUint32 value

def packInt : IntType → Int → List UInt8
  | .int8   => packInt8
  | .int16  => packInt16
  | .int32  => packInt32
  | .int64  => packInt64
  | .uint8  => packUint8
  | .uint16 => packUint16
  | .uint32 => packUint32
  | .uint64 => packUint64

/-! ## The other scalars -/

/-- `float`, by its bits.  The conversion to `int32_t` and back is the value only where the value is an `int32_t`. -/
def packFloat (bits : Nat) : List UInt8 :=
  match binary32.toInt bits with
  | some i =>
    if IntType.int32.min ≤ i ∧ i ≤ IntType.int32.max then packInt32 i else Format.float32.code :: toLe 4 bits
  | none   => Format.float32.code :: toLe 4 bits

def packDouble (bits : Nat) : List UInt8 :=
  match binary64.toInt bits with
  | some i =>
    if IntType.int64.min ≤ i ∧ i ≤ IntType.int64.max then packInt64 i else Format.float64.code :: toLe 8 bits
  | none   => Format.float64.code :: toLe 8 bits

def packNil : List UInt8 := [Format.nil.code]

def packBool (value : Bool) : List UInt8 := [if value then Format.trueBool.code else Format.falseBool.code]

def packString (str : List UInt8) : List UInt8 :=
  let len := str.length
  if len ≤ 31 then UInt8.ofNat (0xa0 ||| len) :: str
  else if len ≤ 0xff then Format.str8.code :: UInt8.ofNat len :: str
  else if len ≤ 0xffff then Format.str16.code :: (toBe 2 len ++ str)
  else if len ≤ 0xffffffff then Format.str32.code :: (toBe 4 len ++ str)
  else []

/-- `std::vector<uint8_t>`.  The bounds are strict. -/
def packBinary (data : List UInt8) : List UInt8 :=
  let len := data.length
  if len < 0xff then Format.bin8.code :: UInt8.ofNat len :: data
  else if len < 0xffff then Format.bin16.code :: (toBe 2 len ++ data)
  else if len < 0xffffffff then Format.bin32.code :: (toBe 4 len ++ data)
  else []

/-! ## Containers -/

def packArray {α : Type u} (packType : α → List UInt8) (array : List α) : List UInt8 :=
  let size := array.length
  if size ≤ 15 then UInt8.ofNat (0x90 ||| size) :: array.flatMap packType
  else if size ≤ 0xffff then Format.array16.code :: (toBe 2 size ++ array.flatMap packType)
  else if size ≤ 0xffffffff then Format.array32.code :: (toBe 4 size ++ array.flatMap packType)
  else []

def packMap {α : Type u} {β : Type v} (packKey : α → List UInt8) (packMapped : β → List UInt8) (map : List (α × β)) :
    List UInt8 :=
  let size := map.length
  let items := map.flatMap fun item => packKey item.1 ++ packMapped item.2
  if size ≤ 15 then UInt8.ofNat (0x80 ||| size) :: items
  else if size ≤ 0xffff then Format.map16.code :: (toBe 2 size ++ items)
  else if size ≤ 0xffffffff then Format.map32.code :: (toBe 4 size ++ items)
  else []

end Gb.Msgpack
