import GbServer.MsgpackRoundTrip
/-!
# MsgpackParams — the types that compile, and those that are sent

`Packer::pack_type` and `Unpacker::unpack_type` (`msgpack.hpp`) compile for every type, and end in a branch that does
nothing.  `pack_type` ends there for an arithmetic type that it has no overload for (a character, `long long` where
`int64_t` is `long`), which `unpack_type` reads as a number; both end there for a class without `pack`; and a
`std::string_view` is packed as a string and not unpacked.  What is left out of a message, or not read from it, is no
error to either of them, and the values behind it are read from the wrong place.  Everywhere else the dispatches are those
of `Ty` (`packParam_known`, `unpackParam_known`).
-/
namespace Gb.Msgpack

open Stateful

/-- The types for which both `pack_type` and `unpack_type` compile. -/
inductive Param
  | num (t : NumType)
  /-- An arithmetic type with these values, and without an overload of `pack_type`. -/
  | plain (t : IntType)
  | nullptr
  | enum (underlying : IntType)
  | string
  | view
  | binary
  /-- A class without `pack`, by its fields; a message of protobuf is one. -/
  | object (fields : Ty)
  | vector (t : Param)
  | list (t : Param)
  | array (size : Nat) (t : Param)
  | map (unordered : Bool) (key mapped : Param)
  | unit
  | pair (fst snd : Param)

namespace Param

/-- The type with the same values, each of them packed and unpacked. -/
def erase : Param → Ty
  | num t         => .num t
  | plain t       => .num (.int t)
  | nullptr       => .nullptr
  | enum t        => .enum t
  | string        => .string
  | view          => .string
  | binary        => .binary
  | object t      => t
  | vector t      => .vector t.erase
  | list t        => .list t.erase
  | array size t  => .array size t.erase
  | map u k v     => .map u k.erase v.erase
  | unit          => .unit
  | pair s t      => .pair s.erase t.erase

abbrev Val (p : Param) : Type := p.erase.Val

end Param

/-- `pack_type`. -/
def packParam : (p : Param) → p.Val → List UInt8
  | .num t,     value => packNum t value
  | .plain _,   _     => []
  | .nullptr,   _     => packNil
  | .enum _,    value => packInt32 (IntType.int32.wrap value.val).val
  | .string,    value => packString value
  | .view,      value => packString value
  | .binary,    value => packBinary value
  | .object _,  _     => []
  | .vector t,  value => packArray (packParam t) value
  | .list t,    value => packArray (packParam t) value
  | .array _ t, value => packArray (packParam t) value.val
  | .map _ k v, value => packMap (packParam k) (packParam v) value.val
  | .unit,      _     => []
  | .pair s t,  value => packParam s value.1 ++ packParam t value.2

/-- `unpack_type`, of a fresh variable. -/
def unpackParam (b : Buffer) : (p : Param) → Reader p.Val
  | .num t             => unpackNum b t
  | .plain t           => unpackNumber b (.int t)
  | .nullptr           => unpackNil b
  | .enum t            => do
    let v ← unpackNumber b (.int .int32)
    return t.wrap v.val
  | .string            => unpackString b
  | .view              => return Ty.string.init
  | .binary            => unpackBinary b
  | .object t          => return t.init
  | .vector t          => unpackArray b true t.erase.init (unpackParam b t)
  | .list t            => unpackArray b false t.erase.init (unpackParam b t)
  | .array size t      => unpackStdarray b size t.erase.init (unpackParam b t)
  | .map unordered k v => unpackMap b (k.erase.keys unordered) unordered (unpackParam b k) (unpackParam b v)
  | .unit              => return ()
  | .pair s t          => do
    let fst ← unpackParam b s
    let snd ← unpackParam b t
    return (fst, snd)

/-- Both dispatches have a branch for every part of the type. -/
def Param.Known : Param → Prop
  | plain _   => False
  | view      => False
  | object _  => False
  | vector t  => t.Known
  | list t    => t.Known
  | array _ t => t.Known
  | map _ k v => k.Known ∧ v.Known
  | pair s t  => s.Known ∧ t.Known
  | _         => True

theorem packParam_known : ∀ p : Param, p.Known → packParam p = pack p.erase
  | .num _,     _ => rfl
  | .plain _,   h => h.elim
  | .nullptr,   _ => rfl
  | .enum _,    _ => rfl
  | .string,    _ => rfl
  | .view,      h => False.elim h
  | .binary,    _ => rfl
  | .object _,  h => False.elim h
  | .vector t,  h => congrArg packArray (packParam_known t h)
  | .list t,    h => congrArg packArray (packParam_known t h)
  | .array _ t, h => by
    funext array
    show packArray (packParam t) array.val = packArray (pack t.erase) array.val
    rw [packParam_known t h]
  | .map _ k v, h => by
    funext map
    show packMap (packParam k) (packParam v) map.val = packMap (pack k.erase) (pack v.erase) map.val
    rw [packParam_known k h.1, packParam_known v h.2]
  | .unit,      _ => rfl
  | .pair s t,  h => by
    funext value
    show packParam s value.1 ++ packParam t value.2 = pack s.erase value.1 ++ pack t.erase value.2
    rw [packParam_known s h.1, packParam_known t h.2]

theorem unpackParam_known (b : Buffer) : ∀ p : Param, p.Known → unpackParam b p = unpackType b p.erase
  | .num _,             _ => rfl
  | .plain _,           h => False.elim h
  | .nullptr,           _ => rfl
  | .enum _,            _ => rfl
  | .string,            _ => rfl
  | .view,              h => False.elim h
  | .binary,            _ => rfl
  | .object _,          h => False.elim h
  | .vector t,          h => congrArg (unpackArray b true t.erase.init) (unpackParam_known b t h)
  | .list t,            h => congrArg (unpackArray b false t.erase.init) (unpackParam_known b t h)
  | .array size t,      h => congrArg (unpackStdarray b size t.erase.init) (unpackParam_known b t h)
  | .map unordered k v, h => 
    congrArg₂ (unpackMap b (k.erase.keys unordered) unordered) (unpackParam_known b k h.1) (unpackParam_known b v h.2)
  | .unit,              _ => rfl
  | .pair s t,          h => by
    rw [unpackParam, unpackParam_known b s h.1, unpackParam_known b t h.2]
    rfl

/-- Every part of a value has its bytes in the message: `pack_type` comes to no branch that does nothing, and finds every
length field long enough. -/
def Emitted : (p : Param) → p.Val → Prop
  | .plain _,   _     => False
  | .object _,  _     => False
  | .string,    str   => (str : List UInt8).length ≤ 0xffffffff
  | .view,      str   => (str : List UInt8).length ≤ 0xffffffff
  | .binary,    data  => (data : List UInt8).length < 0xffffffff
  | .vector t,  array => EmittedList (Emitted t) array
  | .list t,    array => EmittedList (Emitted t) array
  | .array _ t, array => EmittedList (Emitted t) array.val
  | .map _ k v, map   => EmittedList (fun e : k.Val × v.Val => Emitted k e.1 ∧ Emitted v e.2) map.val
  | .pair s t,  value => Emitted s value.1 ∧ Emitted t value.2
  | _,          _     => True
where
  EmittedList {α : Type} (emitted : α → Prop) (array : List α) : Prop :=
    array.length ≤ 0xffffffff ∧ ∀ v ∈ array, emitted v

/-- The values that arrive: both dispatches have a branch for every part of one, every length is packed in the marker or
in one byte, an enumerator is an `int32_t`, and no float is the negative zero. -/
def Arrives : (p : Param) → p.Val → Prop
  | .num t,     value => Msgpack.Survives (.num t) value
  | .plain _,   _     => False
  | .nullptr,   _     => True
  | .enum t,    value => Msgpack.Survives (.enum t) value
  | .string,    str   => Msgpack.Survives .string str
  | .view,      _     => False
  | .binary,    data  => Msgpack.Survives .binary data
  | .object _,  _     => False
  | .vector t,  array => Short (Arrives t) array
  | .list t,    array => Short (Arrives t) array
  | .array _ t, array => Short (Arrives t) array.val
  | .map _ k v, map   => Short (fun e : k.Val × v.Val => Arrives k e.1 ∧ Arrives v e.2) map.val
  | .unit,      _     => True
  | .pair s t,  value => Arrives s value.1 ∧ Arrives t value.2

/-- No part of a value is a `std::string_view`, which is read from no bytes, or a map of more than 15 entries, whose
length is misread as one of more entries than there are bytes. -/
def Aligned : (p : Param) → p.Val → Prop
  | .view,      _     => False
  | .vector t,  array => MapsRead.Each (Aligned t) array
  | .list t,    array => MapsRead.Each (Aligned t) array
  | .array _ t, array => MapsRead.Each (Aligned t) array.val
  | .map _ k v, map   => map.val.length ≤ 15 ∧ MapsRead.Each (fun e : k.Val × v.Val => Aligned k e.1 ∧ Aligned v e.2) map.val
  | .pair s t,  value => Aligned s value.1 ∧ Aligned t value.2
  | _,          _     => True

theorem Short.emitted {α : Type} {survives emitted : α → Prop} {array : List α} (h : Short survives array)
    (hemitted : ∀ v ∈ array, survives v → emitted v) : Emitted.EmittedList emitted array :=
  ⟨Nat.le_trans h.1 (by omega), fun v hv => hemitted v hv (h.2 v hv)⟩

theorem Arrives.emitted : ∀ (p : Param) (v : p.Val), Arrives p v → Emitted p v
  | .num _,     _,     _ => trivial
  | .plain _,   _,     h => h
  | .nullptr,   _,     _ => trivial
  | .enum _,    _,     _ => trivial
  | .view,      _,     h => False.elim h
  | .object _,  _,     h => h
  | .string,    _,     h => Nat.le_trans h (by omega)
  | .binary,    _,     h => Nat.lt_of_lt_of_le h (by omega)
  | .vector t,  _,     h => Short.emitted h fun v _ => Arrives.emitted t v
  | .list t,    _,     h => Short.emitted h fun v _ => Arrives.emitted t v
  | .array _ t, _,     h => Short.emitted h fun v _ => Arrives.emitted t v
  | .map _ k v, _,     h => Short.emitted h fun e _ he => ⟨Arrives.emitted k e.1 he.1, Arrives.emitted v e.2 he.2⟩
  | .unit,      _,     _ => trivial
  | .pair s t,  value, h => ⟨Arrives.emitted s value.1 h.1, Arrives.emitted t value.2 h.2⟩

section

variable {b : Buffer}

theorem progress_unpackParam : ∀ p : Param, Steps (fun s _ t => Progress b s t) (unpackParam b p)
  | .num t             => (progress b).unpackType (.num t)
  | .plain t           => (progress b).unpackNumber (.int t)
  | .nullptr           => (progress b).unpackType .nullptr
  | .enum t            => (progress b).unpackType (.enum t)
  | .string            => (progress b).unpackType .string
  | .view              => (progress b).pure _
  | .binary            => (progress b).unpackType .binary
  | .object _          => (progress b).pure _
  | .vector t          => (progress b).unpackArray (progress_unpackParam t) true _
  | .list t            => (progress b).unpackArray (progress_unpackParam t) false _
  | .array size t      => (progress b).unpackStdarray (progress_unpackParam t) size _
  | .map unordered k v => (progress b).unpackMap (progress_unpackParam k) (progress_unpackParam v) unordered
  | .unit              => (progress b).pure ()
  | .pair s t          =>
    (progress b).bind (progress_unpackParam s) fun _ => (progress b).bind (progress_unpackParam t) fun _ => (progress b).pure _

/-- **A value that arrives is decoded as it was packed.** -/
theorem decodes_packParam : ∀ (p : Param) (v : p.Val), Arrives p v → Decodes b (unpackParam b p) (packParam p v) v
  | .num t,        value, h => decodes_pack (.num t) value h
  | .plain _,      _,     h => False.elim h
  | .nullptr,      value, _ => decodes_pack .nullptr value trivial
  | .enum t,       value, h => decodes_pack (.enum t) value h
  | .string,       str,   h => decodes_pack .string str h
  | .view,         _,     h => False.elim h
  | .binary,       data,  h => decodes_pack .binary data h
  | .object _,     _,     h => False.elim h
  | .vector t,     array, h => decodes_packArray true _ h.1 fun v hv => decodes_packParam t v (h.2 v hv)
  | .list t,       array, h => decodes_packArray false _ h.1 fun v hv => decodes_packParam t v (h.2 v hv)
  | .array size t, array, h => decodes_packStdarray _ array (array.2 ▸ h.1) fun v hv => decodes_packParam t v (h.2 v hv)
  | .map unordered k v, map, h =>
    decodes_packMap unordered map h.1 fun e he =>
      ⟨decodes_packParam k e.1 (h.2 e he).1, decodes_packParam v e.2 (h.2 e he).2⟩
  | .unit,         _,     _ => .pure ()
  | .pair s t,     value, h => by
    have hsnd := (decodes_packParam t value.2 h.2).map fun snd => (value.1, snd)
    exact (decodes_packParam s value.1 h.1).bind hsnd

/-- **What was not left out, and is decoded to its value, arrives.** -/
theorem arrives_of_unpackParam : ∀ (p : Param) (v : p.Val), Aligned p v → Emitted p v → ∀ u u',
    Returns b false (unpackParam b p) (packParam p v) v u u' → Arrives p v
  | .num t,        value, _,  _, u, u', h => survives_of_unpack (.num t) value trivial trivial u u' h
  | .plain _,      _,     _,  hemitted, _, _,  _ => hemitted
  | .nullptr,      _,     _,  _, _, _,  _ => trivial
  | .enum t,       value, _,  _, u, u', h => survives_of_unpack (.enum t) value trivial trivial u u' h
  | .string,       str,   _,  hemitted, u, u', h => by
    by_contra hlong
    have hempty := (unpackString_long (Nat.lt_of_not_le hlong) (Nat.lt_succ_of_le hemitted) h.position h.bytes h.run).1
    exact hlong (hempty ▸ Nat.zero_le 255)
  | .view,         _,     hp, _, _, _,  _ => hp
  | .binary,       data,  _,  hemitted, u, u', h => by
    by_contra hlong
    have hempty := (unpackBinary_long (Nat.le_of_not_lt hlong) hemitted h.position h.bytes h.run).1
    exact hlong (hempty ▸ Nat.zero_lt_succ 254)
  | .object _,     _,     _,  hemitted, _, _,  _ => hemitted
  | .vector t,     array, hp, hemitted, u, u', h =>
    array_survives (progress_unpackParam t) (decodes_packParam t) (Nat.lt_succ_of_le hemitted.1)
      (fun v hv => arrives_of_unpackParam t v (hp v hv) (hemitted.2 v hv)) h
  | .list t,       array, hp, hemitted, u, u', h =>
    array_survives (progress_unpackParam t) (decodes_packParam t) (Nat.lt_succ_of_le hemitted.1)
      (fun v hv => arrives_of_unpackParam t v (hp v hv) (hemitted.2 v hv)) h
  | .array size t, array, hp, hemitted, u, u', h =>
    stdarray_survives (progress_unpackParam t) (decodes_packParam t) (Nat.lt_succ_of_le hemitted.1)
      (fun v hv => arrives_of_unpackParam t v (hp v hv) (hemitted.2 v hv)) h
  | .map unordered k v, map, hp, hemitted, u, u', h =>
    map_survives (progress_unpackParam k) (progress_unpackParam v) (decodes_packParam k) (decodes_packParam v)
      (Nat.lt_succ_of_le hemitted.1) (.inl hp.1)
      (fun e he => ⟨arrives_of_unpackParam k e.1 (hp.2 e he).1 (hemitted.2 e he).1,
        arrives_of_unpackParam v e.2 (hp.2 e he).2 (hemitted.2 e he).2⟩) h
  | .unit,         _,     _,  _, _, _,  _ => trivial
  | .pair s t,     (fst, snd), hp, hemitted, u, u', h =>
    pair_survives (progress_unpackParam s) (progress_unpackParam t) (decodes_packParam s)
      (arrives_of_unpackParam s fst hp.1 hemitted.1) (arrives_of_unpackParam t snd hp.2 hemitted.2) h

end

/-- The values that are unpacked from their bytes, when none of them was left out, are those that arrive. -/
theorem unpackParam_iff {p : Param} {v : p.Val} {b : Buffer} (hb : b.bytes = packParam p v) :
    (Arrives p v → Emitted p v ∧ ∃ u, unpackParam b p {} = .ok v u) ∧
      (Aligned p v → (Emitted p v ∧ ∃ u, unpackParam b p {} = .ok v u) → Arrives p v) := by
  have hbytes : packParam p v <+: b.bytes.drop ({} : Unpacker).dataPointer := front_of_bytes hb
  constructor
  · intro h
    obtain ⟨u, hu, _⟩ := decodes_packParam (b := b) p v h {} (Nat.zero_le _) hbytes
    exact ⟨h.emitted, u, hu⟩
  · rintro hp ⟨hemitted, u, hu⟩
    exact arrives_of_unpackParam p v hp hemitted {} u ⟨Nat.zero_le _, hbytes, hu, fun hclear => Bool.noConfusion hclear⟩

end Gb.Msgpack
