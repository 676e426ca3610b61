import GbServer.MsgpackTypes
/-!
# MsgpackLua — Lua values from and to bytes

`Packer::pack_stack_proxy` and `Unpacker::unpack_stack_proxy` (`msgpack.hpp`) and the loops over whole messages
(`msgpack.cpp`).  The Lua functions that they call do to the stack what the reference manual says: a table is changed
where it lies on the stack, a key that is nil or not a number is an error, a nil value removes the entry.  The program
never asks for stack space, so a push needs one of the slots that are there.
-/
namespace Gb.Msgpack

open Bytes (toBe slice)
open FloatBits (binary32 binary64)

/-- A table by its entries, in the order in which a traversal meets them. -/
inductive LuaValue
  | nil
  | boolean (value : Bool)
  | integer (n : IntType.int64.Val)
  | number (bits : BitVec 64)
  | string (str : List UInt8)
  | table (entries : List (LuaValue × LuaValue))

namespace LuaValue

def isNil : LuaValue → Bool
  | nil => true
  | _   => false

/-- The key under which a value is stored: a float with an integral value is that integer. -/
def key : LuaValue → Option LuaValue
  | nil         => none
  | number bits =>
    if binary64.infinity < binary64.absolute bits.toNat then none
    else match binary64.toInt bits.toNat with
      | some i =>
        if h : IntType.int64.min ≤ i ∧ i ≤ IntType.int64.max then some (integer ⟨i, h⟩) else some (number bits)
      | none   => some (number bits)
  | value       => some value

/-- Whether two keys are one; no two tables that a decoder makes are. -/
def same : LuaValue → LuaValue → Bool
  | boolean x, boolean y => decide (x = y)
  | integer x, integer y => decide (x = y)
  | number x,  number y  => decide (x = y)
  | string x,  string y  => decide (x = y)
  | _,         _         => false

/-- The entries after `t[key] = val`. -/
def set (key val : LuaValue) : List (LuaValue × LuaValue) → List (LuaValue × LuaValue)
  | []               => if val.isNil then [] else [(key, val)]
  | entry :: entries =>
    if same entry.1 key then if val.isNil then entries else (entry.1, val) :: entries
    else entry :: set key val entries

end LuaValue

/-! ## Packing -/

mutual

/-- `pack_stack_proxy`.  The count of a table is packed as four bytes, whatever it is. -/
def packStackProxy : LuaValue → List UInt8
  | .nil           => packNil
  | .boolean value => packBool value
  | .integer n     => packInt64 n.val
  | .number bits   => packDouble bits.toNat
  | .string str    => packString str
  | .table entries => Format.table.code :: (toBe 4 entries.length ++ packEntries entries)

def packEntries : List (LuaValue × LuaValue) → List UInt8
  | []                    => []
  | (key, val) :: entries => packStackProxy key ++ packStackProxy val ++ packEntries entries

end

/-- `pack` of the arguments of a call.  The slots of the stack that the packer itself takes for a while, for a number or for
the tables it is in and their entries, are not counted. -/
def packLua (args : List LuaValue) : List UInt8 := args.flatMap packStackProxy

/-! ## The stack -/

/-- An `Unpacker` and the Lua stack it pushes to, topmost value first. -/
structure LuaState where
  unpacker : Unpacker := {}
  stack    : List LuaValue

abbrev LuaReader (α : Type) := EStateM Fault LuaState α

/-- What does not touch the stack. -/
def onUnpacker {α : Type} (m : Reader α) : LuaReader α := fun s =>
  match m s.unpacker with
  | .ok a u    => .ok a { s with unpacker := u }
  | .error e u => .error e { s with unpacker := u }

/-- The `lua_push…` functions and `lua_newtable`, on a stack with room for `limit` values. -/
def luaPush (limit : Nat) (value : LuaValue) : LuaReader Unit := fun s =>
  if s.stack.length < limit then .ok () { s with stack := value :: s.stack } else .error .luaStack s

/-- `lua_rawseti(L, -2, n)`. -/
def luaRawseti (n : Nat) : LuaReader Unit := fun s =>
  match s.stack with
  | val :: .table entries :: stack =>
    .ok () { s with stack := .table (LuaValue.set (.integer (IntType.int64.wrap n)) val entries) :: stack }
  | _ => .error .luaStack s

/-- `lua_rawset(L, -3)`. -/
def luaRawset : LuaReader Unit := fun s =>
  match s.stack with
  | val :: key :: .table entries :: stack =>
    match key.key with
    | some key => .ok () { s with stack := .table (LuaValue.set key val entries) :: stack }
    | none     => .error .luaError s
  | _ => .error .luaStack s

/-! ## Unpacking -/

section

variable (b : Buffer)

/-- The bytes at the position, without a move. -/
def peekBytes (size : Nat) : Reader (Option (List UInt8)) := fun u =>
  if b.inRange u size then
    .ok (some (slice b.bytes u.dataPointer size)) { u with log := .read u.dataPointer size :: u.log }
  else .ok none { u with ec := true }

/-- A count of `k` bytes, as `unpack_table` adds it up. -/
def readTableSize : Nat → Nat → Reader Nat
  | 0,     size => pure size
  | i + 1, size => do
    let x ← safeData b
    safeIncremen b 1
    readTableSize i (size + x.toNat * 2 ^ (8 * i))

variable (limit : Nat)

def unpackItems (unpackStackProxy : LuaReader Unit) (i : Nat) : Nat → LuaReader Unit
  | 0         => pure ()
  | count + 1 => do
    unpackStackProxy
    luaRawseti (i + 1)
    unpackItems unpackStackProxy (i + 1) count

def unpackFields (unpackStackProxy : LuaReader Unit) : Nat → LuaReader Unit
  | 0         => pure ()
  | count + 1 => do
    unpackStackProxy
    unpackStackProxy
    luaRawset
    unpackFields unpackStackProxy count

/-- `unpack_table`. -/
def unpackTable (unpackStackProxy : LuaReader Unit) : LuaReader Unit := do
  let byte ← onUnpacker (safeData b)
  if byte = Format.array32.code then
    luaPush limit (.table [])
    onUnpacker (safeIncremen b 1)
    unpackItems unpackStackProxy 0 (← onUnpacker (readTableSize b 4 0))
  else if byte = Format.array16.code then
    luaPush limit (.table [])
    onUnpacker (safeIncremen b 1)
    unpackItems unpackStackProxy 0 (← onUnpacker (readTableSize b 2 0))
  else if byte = Format.map32.code ∨ byte = Format.table.code then
    luaPush limit (.table [])
    onUnpacker (safeIncremen b 1)
    unpackFields unpackStackProxy (← onUnpacker (readTableSize b 4 0))
  else if byte = Format.map16.code then
    luaPush limit (.table [])
    onUnpacker (safeIncremen b 1)
    unpackFields unpackStackProxy (← onUnpacker (readTableSize b 2 0))
  else if 0x90 ≤ byte ∧ byte ≤ 0x9f then
    luaPush limit (.table [])
    onUnpacker (safeIncremen b 1)
    unpackItems unpackStackProxy 0 (byte &&& 0x0f).toNat
  else if 0x80 ≤ byte ∧ byte ≤ 0x8f then
    luaPush limit (.table [])
    onUnpacker (safeIncremen b 1)
    unpackFields unpackStackProxy (byte &&& 0x0f).toNat
  else onUnpacker setError

/-- The float that `lua_pushnumber` takes. -/
def widen (bits : BitVec 32) : BitVec 64 := BitVec.ofNat 64 (FloatBits.convert binary32 binary64 bits.toNat)

/-- `unpack_stack_proxy`, with the depth of nesting that is left to it. -/
def unpackStackProxy : Nat → LuaReader Unit
  | 0         => throw .outOfFuel
  | depth + 1 => do
    let byte ← onUnpacker (safeData b)
    if byte = Format.nil.code then
      luaPush limit .nil
      onUnpacker (safeIncremen b 1)
    else if byte = Format.falseBool.code then
      luaPush limit (.boolean false)
      onUnpacker (safeIncremen b 1)
    else if byte = Format.trueBool.code then
      luaPush limit (.boolean true)
      onUnpacker (safeIncremen b 1)
    else if byte = Format.bin8.code ∨ byte = Format.bin16.code ∨ byte = Format.bin32.code then
      luaPush limit (.string (← onUnpacker (unpackBinary b)))
    else if byte = Format.float32.code then
      luaPush limit (.number (widen (← onUnpacker (unpackNumber b .float))))
    else if byte = Format.float64.code then
      luaPush limit (.number (← onUnpacker (unpackNumber b .double)))
    else if byte = Format.uint8.code ∨ byte = Format.uint16.code ∨ byte = Format.uint32.code
        ∨ byte = Format.uint64.code then
      let value ← onUnpacker (unpackNumber b (.int .uint64))
      luaPush limit (.integer (IntType.int64.wrap value.val))
    else if byte = Format.int8.code ∨ byte = Format.int16.code ∨ byte = Format.int32.code
        ∨ byte = Format.int64.code then
      luaPush limit (.integer (← onUnpacker (unpackNumber b (.int .int64))))
    else if byte = Format.str8.code ∨ byte = Format.str16.code ∨ byte = Format.str32.code then
      luaPush limit (.string (← onUnpacker (unpackString b)))
    else if byte = Format.array16.code ∨ byte = Format.array32.code ∨ byte = Format.map16.code
        ∨ byte = Format.map32.code ∨ byte = Format.table.code then
      unpackTable b limit (unpackStackProxy depth)
    else if byte ≤ 0x7f then
      onUnpacker (safeIncremen b 1)
      luaPush limit (.integer (IntType.int64.wrap byte.toNat))
    else if 0xe0 ≤ byte then
      onUnpacker (safeIncremen b 1)
      luaPush limit (.integer (IntType.int64.wrap (IntType.int8.wrap byte.toNat).val))
    else if 0x90 ≤ byte ∧ byte ≤ 0x9f then unpackTable b limit (unpackStackProxy depth)
    else if 0x80 ≤ byte ∧ byte ≤ 0x8f then unpackTable b limit (unpackStackProxy depth)
    else if 0xa0 ≤ byte ∧ byte ≤ 0xbf then
      onUnpacker (safeIncremen b 1)
      let strSize := (byte &&& 0x1f).toNat
      match ← onUnpacker (peekBytes b strSize) with
      | some str =>
        luaPush limit (.string str)
        onUnpacker (safeIncremen b strSize)
      | none => pure ()
    else onUnpacker setError

/-- One more level than the message has bytes is enough: every level consumes its marker. -/
def Buffer.depth : Nat := b.bytes.length + 1

def Buffer.isEmpty (u : Unpacker) : Bool := decide (b.bytes.length ≤ u.dataPointer)

/-- The loop of `unpack`, for a number of rounds: how many values it says that it pushed. -/
def unpackLoop : Nat → Nat → LuaReader Nat
  | 0,          _ => throw .outOfFuel
  | rounds + 1, i => do
    if b.isEmpty (← get).unpacker then return i
    unpackStackProxy b limit b.depth
    unpackLoop rounds (i + 1)

end

end Gb.Msgpack
