import GbServer.MsgpackUnpacker
/-!
# MsgpackTypes — which overload a type takes

The dispatch of `Packer::pack_type` and `Unpacker::unpack_type` (`msgpack.hpp`) on the type, for all the types that can
be packed and unpacked, nested to any depth.  The fields of a `REGISTER_PACKER` struct and the arguments of a call are
packed one after another, which `pair` and `unit` stand for.
-/
namespace Gb.Msgpack

open FloatBits (binary32 binary64)

inductive Ty
  | num (t : NumType)
  | nullptr
  | enum (underlying : IntType)
  | string
  | binary
  | vector (t : Ty)
  | list (t : Ty)
  | array (size : Nat) (t : Ty)
  | map (unordered : Bool) (key mapped : Ty)
  | unit
  | pair (fst snd : Ty)

namespace Ty

/-- Values, and how they compare. -/
structure Compared where
  Val     : Type
  compare : ThreeWay Val

/-- The values of an arithmetic type, by `<=>`. -/
def compareNum : (t : NumType) → ThreeWay t.Val
  | .int _  => .byRank fun n => some n.val
  | .bool   => .byRank fun value => some (cond value 1 0)
  | .float  => .byRank fun bits => binary32.rank (BitVec.toNat bits)
  | .double => .byRank fun bits => binary64.rank (BitVec.toNat bits)

def compareBytes : ThreeWay (List UInt8) := .lexicographic (.byRank fun x => some x.toNat)

/-- The values of a type, with the comparison that a map of such keys makes; an enumeration has all the values of its
underlying type.  Containers compare along their elements, a `std::map` in the order of its keys; so do the fields of a
struct, where it leaves that to the compiler.  A `nullptr` equals the other. -/
def compared : Ty → Compared
  | num t               => ⟨t.Val, compareNum t⟩
  | nullptr             => ⟨Unit, fun _ _ => some .eq⟩
  | enum t              => ⟨t.Val, compareNum (.int t)⟩
  | string              => ⟨List UInt8, compareBytes⟩
  | binary              => ⟨List UInt8, compareBytes⟩
  | vector t            => ⟨List t.compared.Val, t.compared.compare.lexicographic⟩
  | list t              => ⟨List t.compared.Val, t.compared.compare.lexicographic⟩
  | array size t        =>
    ⟨{array : List t.compared.Val // array.length = size}, fun x y => t.compared.compare.lexicographic x.1 y.1⟩
  | map unordered k v   =>
    ⟨KeyedMap (k.compared.compare.keys unordered) v.compared.Val,
      fun x y => k.compared.compare.entries v.compared.compare x.1 y.1⟩
  | unit                => ⟨Unit, fun _ _ => some .eq⟩
  | pair s t            => ⟨s.compared.Val × t.compared.Val, s.compared.compare.pair t.compared.compare⟩

abbrev Val (t : Ty) : Type := t.compared.Val

/-- How a map knows keys of the type: `std::map` by `std::less`, `std::unordered_map` by `std::equal_to`. -/
def keys (t : Ty) (unordered : Bool) : Keys t.Val := t.compared.compare.keys unordered

/-- A `std::map` with the keys 1.5 and 0.0: the negative zero is held for the zero, and a NaN for the least key. -/
example : ((KeyedMap.empty : KeyedMap ((Ty.num .double).keys false) Nat).insertAll
    [(0x3ff8000000000000#64, 1), (0#64, 2), (0x8000000000000000#64, 3), (0x7ff8000000000000#64, 4)]).val =
      [(0x3ff8000000000000#64, 1), (0#64, 4)] := rfl

/-- The value of a fresh variable. -/
def init : (t : Ty) → t.Val
  | num t        => t.init
  | nullptr      => ()
  | enum t       => t.wrap 0
  | string       => ([] : List UInt8)
  | binary       => ([] : List UInt8)
  | vector t     => ([] : List t.Val)
  | list t       => ([] : List t.Val)
  | array size t => ⟨List.replicate size t.init, List.length_replicate⟩
  | map _ _ _    => KeyedMap.empty
  | unit         => ()
  | pair s t     => (s.init, t.init)

end Ty

def packNum : (t : NumType) → t.Val → List UInt8
  | .int t,  n     => packInt t n.val
  | .bool,   value => packBool value
  | .float,  bits  => packFloat (BitVec.toNat bits)
  | .double, bits  => packDouble (BitVec.toNat bits)

/-- `pack_type`. -/
def pack : (t : Ty) → t.Val → List UInt8
  | .num t,      value => packNum t value
  | .nullptr,    _     => packNil
  | .enum _,     value => packInt32 (IntType.int32.wrap value.val).val
  | .string,     value => packString value
  | .binary,     value => packBinary value
  | .vector t,   value => packArray (pack t) value
  | .list t,     value => packArray (pack t) value
  | .array _ t,  value => packArray (pack t) value.val
  | .map _ k v,  value => packMap (pack k) (pack v) value.val
  | .unit,       _     => []
  | .pair s t,   value => pack s value.1 ++ pack t value.2

def unpackNum (b : Buffer) : (t : NumType) → Reader t.Val
  | .bool => unpackBool b
  | t     => unpackNumber b t

/-- `unpack_type`. -/
def unpackType (b : Buffer) : (t : Ty) → Reader t.Val
  | .num t              => unpackNum b t
  | .nullptr            => unpackNil b
  | .enum t             => do
    let v ← unpackNumber b (.int .int32)
    return t.wrap v.val
  | .string             => unpackString b
  | .binary             => unpackBinary b
  | .vector t           => unpackArray b true t.init (unpackType b t)
  | .list t             => unpackArray b false t.init (unpackType b t)
  | .array size t       => unpackStdarray b size t.init (unpackType b t)
  | .map unordered k v  => unpackMap b (k.keys unordered) unordered (unpackType b k) (unpackType b v)
  | .unit               => return ()
  | .pair s t           => do
    let fst ← unpackType b s
    let snd ← unpackType b t
    return (fst, snd)

/-- `unpack<Args...>` of a message: the values, and the `Unpacker` with its error code. -/
def unpack (b : Buffer) (t : Ty) : EStateM.Result Fault Unpacker t.Val := unpackType b t {}

end Gb.Msgpack
