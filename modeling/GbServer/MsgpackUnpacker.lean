import GbServer.Lib.KeyedMap
import GbServer.Lib.Stateful
import GbServer.MsgpackPacker
/-!
# MsgpackUnpacker — values from bytes that a peer chose

`Unpacker` (`msgpack.hpp`), generic in the element types as its templates are.  A pointer into the message is an offset;
where the source compares addresses, so does the model, since a length from the wire may send the sum past the end of
the address space.  What lies behind the message is arbitrary, and what an `Unpacker` does to memory is logged: the
bytes it reads and copies, the markers it meets, the counts it hands to `reserve` and `resize`, the keys of a table.
-/
namespace Gb.Msgpack

open Bytes (slice leNat)
open FloatBits (binary32 binary64)

/-- What a number is in front of its conversion to the target type. -/
inductive Number
  | int (n : Int)
  | float32 (bits : Nat)
  | float64 (bits : Nat)
  deriving DecidableEq

/-- The arithmetic types. -/
inductive NumType
  | int (t : IntType)
  | bool
  | float
  | double
  deriving DecidableEq

/-- A float is its bits. -/
def NumType.Val : NumType → Type
  | .int t  => t.Val
  | .bool   => Bool
  | .float  => BitVec 32
  | .double => BitVec 64

/-- The decoders that look at a marker; `array` tells whether its target has `reserve` and `operator[]`. -/
inductive Family
  | number
  | bool
  | nil
  | string
  | binary
  | array (indexed : Bool)
  | map
  deriving DecidableEq

inductive Event
  | read (offset size : Nat)
  | memcpy (offset size : Nat)
  | marker (family : Family) (byte : UInt8)
  | cast (x : Number) (t : NumType)
  | alloc (count remaining : Nat)
  | key (key : Int) (size : Nat)
  | elements (count size : Nat)
  deriving DecidableEq

/-- How a run ends that does not return: an exception of the standard library, behaviour that is undefined, an error
that Lua raises, or the steps allowed to a recursion. -/
inductive Fault
  | lengthError
  | badAlloc
  | undefinedCast
  | writeOutside
  | luaError
  | luaStack
  | outOfFuel
  deriving DecidableEq

/-- The memory of a message: its bytes, at an address of user space, and what lies behind them.  An allocation of up to
`maxSize` elements succeeds. -/
structure Buffer where
  start      : Nat
  bytes      : List UInt8
  beyond     : Nat → UInt8
  maxSize    : Nat
  fits       : start + bytes.length < 2 ^ 47
  maxSize_le : 15 ≤ maxSize

/-- A message at the bottom of the address space, with zeros behind it and no more memory than there must be. -/
def Buffer.ofBytes (bytes : List UInt8) (h : bytes.length < 2 ^ 47) : Buffer where
  start      := 0
  bytes      := bytes
  beyond     := fun _ => 0
  maxSize    := 15
  fits       := by rwa [Nat.zero_add]
  maxSize_le := Nat.le_refl 15

/-- The fields of an `Unpacker`; `ec` tells whether an error was set. -/
structure Unpacker where
  dataPointer : Nat := 0
  ec          : Bool := false
  log         : List Event := []

abbrev Reader (α : Type) := EStateM Fault Unpacker α

/-- Only the model keeps this. -/
def note (e : Event) : Reader Unit := fun u => .ok () { u with log := e :: u.log }

/-- `ec = make_error_code(UnPackErrorType::eOutRange)`. -/
def setError : Reader Unit := fun u => .ok () { u with ec := true }

section

variable (b : Buffer)

def Buffer.remaining (u : Unpacker) : Nat := b.bytes.length - u.dataPointer

/-- The comparison `dataPointer_ + size <= dataEnd_` of addresses. -/
def Buffer.inRange (u : Unpacker) (size : Nat) : Bool :=
  decide ((b.start + u.dataPointer + size) % 2 ^ 64 ≤ b.start + b.bytes.length)

def Buffer.byteAt (i : Nat) : UInt8 := (b.bytes[i]?).getD (b.beyond (i - b.bytes.length))

def safeData : Reader UInt8 := fun u =>
  match b.bytes[u.dataPointer]? with
  | some x => .ok x { u with log := .read u.dataPointer 1 :: u.log }
  | none   => .ok 0 { u with ec := true }

/-- `safe_incremen`; the sizes it is called with do not wrap an address. -/
def safeIncremen (size : Nat) : Reader Unit := fun u =>
  if u.dataPointer + size ≤ b.bytes.length then .ok () { u with dataPointer := u.dataPointer + size }
  else .ok () { u with dataPointer := b.bytes.length, ec := true }

def readBeLoop : Nat → Nat → Reader Nat
  | 0,     out => pure out
  | k + 1, out => do
    let x ← safeData b
    safeIncremen b 1
    readBeLoop k (out * 256 + x.toNat)

/-- `read_be_unsigned` into an integer of `k` bytes. -/
def readBeUnsigned (k : Nat) : Reader Nat := readBeLoop b k 0

/-- `read_be_signed` into an integer of `t`; the negation of its least value wraps. -/
def readBeSigned (t : IntType) (k : Nat) : Reader Int := do
  let u ← readBeLoop b k 0
  return (t.wrap u).val

/-- `memcpy` of a float from the stream, wherever the stream ends. -/
def copyFloat (size : Nat) : Reader Nat := fun u =>
  .ok (leNat ((List.range size).map fun i => b.byteAt (u.dataPointer + i)))
    { u with log := .memcpy u.dataPointer size :: u.log }

/-! ## Numbers -/

/-- The markers that `unpack_number` knows. -/
def readNumber : Reader (Option Number) := do
  let byte ← safeData b
  note (.marker .number byte)
  if byte ≤ 0x7f then
    safeIncremen b 1
    return some (.int byte.toNat)
  else if 0xe0 ≤ byte then
    safeIncremen b 1
    return some (.int (IntType.int8.wrap byte.toNat).val)
  else if byte = Format.uint64.code then
    safeIncremen b 1
    return some (.int (← readBeUnsigned b 8))
  else if byte = Format.uint32.code then
    safeIncremen b 1
    return some (.int (← readBeUnsigned b 4))
  else if byte = Format.uint16.code then
    safeIncremen b 1
    return some (.int (← readBeUnsigned b 2))
  else if byte = Format.uint8.code then
    safeIncremen b 1
    return some (.int (← readBeUnsigned b 1))
  else if byte = Format.int64.code then
    safeIncremen b 1
    return some (.int (← readBeSigned b .int64 8))
  else if byte = Format.int32.code then
    safeIncremen b 1
    return some (.int (← readBeSigned b .int32 4))
  else if byte = Format.int16.code then
    safeIncremen b 1
    return some (.int (← readBeSigned b .int16 2))
  else if byte = Format.int8.code then
    safeIncremen b 1
    return some (.int (← readBeSigned b .int8 1))
  else if byte = Format.float32.code then
    safeIncremen b 1
    let f ← copyFloat b 4
    safeIncremen b 4
    return some (.float32 f)
  else if byte = Format.float64.code then
    safeIncremen b 1
    let d ← copyFloat b 8
    safeIncremen b 8
    return some (.float64 d)
  else
    setError
    return none

end

/-- The conversion of an integral part to an integer, undefined where it does not fit. -/
def castTruncated (t : IntType) : Option Int → Option t.Val
  | some n => if h : t.min ≤ n ∧ n ≤ t.max then some ⟨n, h⟩ else none
  | none   => none

/-- `static_cast`. -/
def NumType.cast : (t : NumType) → Number → Option t.Val
  | .int t,  .int n        => some (t.wrap n)
  | .int t,  .float32 bits => castTruncated t (binary32.truncate bits)
  | .int t,  .float64 bits => castTruncated t (binary64.truncate bits)
  | .bool,   .int n        => some (decide (n ≠ 0))
  | .bool,   .float32 bits => some (decide (binary32.toInt bits ≠ some 0))
  | .bool,   .float64 bits => some (decide (binary64.toInt bits ≠ some 0))
  | .float,  .int n        => some (BitVec.ofNat 32 (binary32.ofInt n))
  | .float,  .float32 bits => some (BitVec.ofNat 32 bits)
  | .float,  .float64 bits => some (BitVec.ofNat 32 (FloatBits.convert binary64 binary32 bits))
  | .double, .int n        => some (BitVec.ofNat 64 (binary64.ofInt n))
  | .double, .float32 bits => some (BitVec.ofNat 64 (FloatBits.convert binary32 binary64 bits))
  | .double, .float64 bits => some (BitVec.ofNat 64 bits)

/-- The value of a fresh variable. -/
def NumType.init : (t : NumType) → t.Val
  | .int t  => t.wrap 0
  | .bool   => false
  | .float  => (0 : BitVec 32)
  | .double => (0 : BitVec 64)

section

variable (b : Buffer)

def unpackNumber (t : NumType) : Reader t.Val := do
  match ← readNumber b with
  | none   => return t.init
  | some x =>
    note (.cast x t)
    match t.cast x with
    | some val => return val
    | none     => throw .undefinedCast

/-- `unpack_type(bool&)`. -/
def unpackBool : Reader Bool := do
  let byte ← safeData b
  if byte = Format.falseBool.code then
    note (.marker .bool byte)
    safeIncremen b 1
    return false
  else
    let byte ← safeData b
    if byte = Format.trueBool.code then
      note (.marker .bool byte)
      safeIncremen b 1
      return true
    else unpackNumber b .bool

/-- `unpack_type(std::nullptr_t&)`, which does not look at the byte. -/
def unpackNil : Reader Unit := fun u =>
  safeIncremen b 1 { u with log := .marker .nil ((b.bytes[u.dataPointer]?).getD 0) :: u.log }

/-! ## Strings -/

/-- The bytes that a length announces.  A length that wraps the address passes the comparison, and the constructor
throws at the negative distance. -/
def takeBytes (size : Nat) : Reader (List UInt8) := fun u =>
  if b.inRange u size then
    if u.dataPointer + size ≤ b.bytes.length then
      .ok (slice b.bytes u.dataPointer size)
        { u with dataPointer := u.dataPointer + size, log := .read u.dataPointer size :: u.log }
    else .error .lengthError u
  else .ok [] { u with ec := true }

/-- `unpack_type(std::string&)`.  The lengths of `str16` and `str32` are read into a `size_t`. -/
def unpackString : Reader (List UInt8) := do
  let byte ← safeData b
  note (.marker .string byte)
  if 0xa0 ≤ byte ∧ byte ≤ 0xbf then
    safeIncremen b 1
    takeBytes b (byte &&& 0x1f).toNat
  else if byte = Format.str32.code then
    safeIncremen b 1
    takeBytes b (← readBeUnsigned b 8)
  else if byte = Format.str16.code then
    safeIncremen b 1
    takeBytes b (← readBeUnsigned b 8)
  else if byte = Format.str8.code then
    safeIncremen b 1
    takeBytes b (← readBeUnsigned b 1)
  else
    setError
    return []

/-- `unpack_type(std::vector<uint8_t>&)`. -/
def unpackBinary : Reader (List UInt8) := do
  let byte ← safeData b
  note (.marker .binary byte)
  if byte = Format.bin32.code then
    safeIncremen b 1
    takeBytes b (← readBeUnsigned b 8)
  else if byte = Format.bin16.code then
    safeIncremen b 1
    takeBytes b (← readBeUnsigned b 8)
  else if byte = Format.bin8.code then
    safeIncremen b 1
    takeBytes b (← readBeUnsigned b 1)
  else
    setError
    return []

/-! ## Containers -/

/-- A count was read: a container that can `reserve` (or is resized) does so for a positive count. -/
def announce (reserves : Bool) (count : Nat) : Reader Unit := fun u =>
  if reserves ∧ count ≠ 0 then
    let u := { u with log := .alloc count (b.remaining u) :: u.log }
    if b.maxSize < count then .error .badAlloc u else .ok () u
  else .ok () u

def unpackElements {α : Type} (unpackType : Reader α) : Nat → List α → Reader (List α)
  | 0,     array => pure array
  | i + 1, array => do
    let val ← unpackType
    unpackElements unpackType i (array ++ [val])

/-- `array[key - 1] = val`. -/
def store {α : Type} (array : List α) (key : Int) (val : α) : Reader (List α) := fun u =>
  let u := { u with log := .key key array.length :: u.log }
  if 1 ≤ key ∧ key ≤ array.length then .ok (array.set (key - 1).toNat val) u else .error .writeOutside u

/-- Entries of a table, stored by their keys. -/
def unpackIndexed {α : Type} (unpackType : Reader α) : Nat → List α → Reader (List α)
  | 0,     array => pure array
  | i + 1, array => do
    let key ← unpackNumber b (.int .int64)
    let val ← unpackType
    let array ← store array key.val val
    unpackIndexed unpackType i array

def unpackCounted {α : Type} (indexed : Bool) (unpackType : Reader α) (count : Nat) : Reader (List α) := do
  announce b indexed count
  unpackElements unpackType count []

/-- `unpack_array` into a container that is empty; `indexed` tells whether it has `reserve` and `operator[]`.  The lengths of
`array16` and `array32` and the count of a table are read into a `size_t`. -/
def unpackArray {α : Type} (indexed : Bool) (init : α) (unpackType : Reader α) : Reader (List α) := do
  let byte ← safeData b
  note (.marker (.array indexed) byte)
  if 0x90 ≤ byte ∧ byte ≤ 0x9f then
    safeIncremen b 1
    unpackCounted b indexed unpackType (byte &&& 0x0f).toNat
  else if byte = Format.array32.code then
    safeIncremen b 1
    unpackCounted b indexed unpackType (← readBeUnsigned b 8)
  else if byte = Format.array16.code then
    safeIncremen b 1
    unpackCounted b indexed unpackType (← readBeUnsigned b 8)
  else if byte = Format.table.code then
    safeIncremen b 1
    let count ← readBeUnsigned b 8
    announce b indexed count
    if indexed then unpackIndexed b unpackType count (List.replicate count init) else return []
  else
    setError
    return []

/-- `std::copy` to the front of an array. -/
def copyOut {α : Type} (size : Nat) (init : α) (vec : List α) : Reader {array : List α // array.length = size} :=
  fun u =>
    let u := { u with log := .elements vec.length size :: u.log }
    if h : vec.length ≤ size then
      .ok ⟨vec ++ List.replicate (size - vec.length) init, by
        rw [List.length_append, List.length_replicate]
        omega⟩ u
    else .error .writeOutside u

/-- `unpack_stdarray`, through a vector. -/
def unpackStdarray {α : Type} (size : Nat) (init : α) (unpackType : Reader α) :
    Reader {array : List α // array.length = size} := do
  let vec ← unpackArray b true init unpackType
  copyOut size init vec

end

section

variable (b : Buffer) {α β : Type} {keys : Keys α}

def unpackEntries (unpackKey : Reader α) (unpackMapped : Reader β) : Nat → KeyedMap keys β → Reader (KeyedMap keys β)
  | 0,     map => pure map
  | i + 1, map => do
    let key ← unpackKey
    let val ← unpackMapped
    unpackEntries unpackKey unpackMapped i (map.insertOrAssign key val)

variable (keys)

def unpackCountedMap (unordered : Bool) (unpackKey : Reader α) (unpackMapped : Reader β) (count : Nat) :
    Reader (KeyedMap keys β) := do
  announce b unordered count
  unpackEntries unpackKey unpackMapped count .empty

/-- `unpack_map` into a map that is empty; of the two kinds only `std::unordered_map` has `reserve`.  At any other marker the
map stays empty, and no error is set. -/
def unpackMap (unordered : Bool) (unpackKey : Reader α) (unpackMapped : Reader β) : Reader (KeyedMap keys β) := do
  let byte ← safeData b
  note (.marker .map byte)
  if 0x80 ≤ byte ∧ byte ≤ 0x8f then
    safeIncremen b 1
    unpackCountedMap b keys unordered unpackKey unpackMapped (byte &&& 0x0f).toNat
  else if byte = Format.map32.code ∨ byte = Format.table.code then
    safeIncremen b 1
    unpackCountedMap b keys unordered unpackKey unpackMapped (← readBeUnsigned b 8)
  else if byte = Format.map16.code then
    safeIncremen b 1
    unpackCountedMap b keys unordered unpackKey unpackMapped (← readBeUnsigned b 8)
  else return .empty

end

end Gb.Msgpack
