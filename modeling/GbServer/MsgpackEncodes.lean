import GbServer.Lib.Encoding
import GbServer.MsgpackDecodes
/-!
# MsgpackEncodes — which bytes stand for a value, and which bytes are taken for it

The encodings of a value (`Encodes`) are what the format allows: a marker of the family of its type, a length in the
width that the marker announces and that many elements, and a number that is converted to the value.  What the decoders
take for a value (`Accepts`) is more: nil is any byte, a length of 16 or 32 bits has eight bytes, a table may stand for a
container, a map may be nothing at all, and an array may have too few elements.  Where none of that was made use of, the
bytes are an encoding (`Accepts.encodes`).
-/
namespace Gb.Msgpack

open Encoding (Sequence Flagged Pair)
open Bytes (beNat leNat)
open FloatBits (binary32 binary64 convert)

/-! ## Encodings -/

/-- A number, by its marker and the bytes behind it. -/
inductive EncodesNumber : Number → List UInt8 → Prop
  | positive {byte : UInt8} (h : byte ≤ 0x7f) : EncodesNumber (.int byte.toNat) [byte]
  | negative {byte : UInt8} (h : 0xe0 ≤ byte) : EncodesNumber (.int (IntType.int8.wrap byte.toNat).val) [byte]
  | unsigned {format : Format} {k : Nat} {bs : List UInt8}
      (h : (format, k) ∈ [(.uint8, 1), (.uint16, 2), (.uint32, 4), (.uint64, 8)]) (hbs : bs.length = k) :
      EncodesNumber (.int (beNat bs)) (format.code :: bs)
  | signed {format : Format} {t : IntType} {k : Nat} {bs : List UInt8}
      (h : (format, t, k) ∈ [(.int8, .int8, 1), (.int16, .int16, 2), (.int32, .int32, 4), (.int64, .int64, 8)])
      (hbs : bs.length = k) : EncodesNumber (.int (t.wrap (beNat bs)).val) (format.code :: bs)
  | float32 {bs : List UInt8} (hbs : bs.length = 4) : EncodesNumber (.float32 (leNat bs)) (Format.float32.code :: bs)
  | float64 {bs : List UInt8} (hbs : bs.length = 8) : EncodesNumber (.float64 (leNat bs)) (Format.float64.code :: bs)

/-- How a family writes lengths: in the marker, or in some bytes behind it. -/
structure Lengths where
  inMarker : UInt8 → Option Nat
  behind   : List (Format × Nat)

namespace Lengths

def string : Lengths where
  inMarker byte := if 0xa0 ≤ byte ∧ byte ≤ 0xbf then some (byte &&& 0x1f).toNat else none
  behind        := [(.str8, 1), (.str16, 2), (.str32, 4)]

def binary : Lengths where
  inMarker _ := none
  behind     := [(.bin8, 1), (.bin16, 2), (.bin32, 4)]

def array : Lengths where
  inMarker byte := if 0x90 ≤ byte ∧ byte ≤ 0x9f then some (byte &&& 0x0f).toNat else none
  behind        := [(.array16, 2), (.array32, 4)]

def map : Lengths where
  inMarker byte := if 0x80 ≤ byte ∧ byte ≤ 0x8f then some (byte &&& 0x0f).toNat else none
  behind        := [(.map16, 2), (.map32, 4)]

/-- A length and the bytes that say it. -/
inductive Encodes (l : Lengths) : Nat → List UInt8 → Prop
  | inMarker {byte : UInt8} {n : Nat} (h : l.inMarker byte = some n) : Encodes l n [byte]
  | behind {format : Format} {k : Nat} {bs : List UInt8} (h : (format, k) ∈ l.behind) (hbs : bs.length = k) :
      Encodes l (beNat bs) (format.code :: bs)

/-- What is taken for a length: one of more than a byte is read from eight; it is no encoding. -/
inductive Accepts (l : Lengths) : Nat → List UInt8 → Bool → Prop
  | inMarker {byte : UInt8} {n : Nat} (h : l.inMarker byte = some n) : Accepts l n [byte] true
  | byte {format : Format} {bs : List UInt8} (h : (format, 1) ∈ l.behind) (hbs : bs.length = 1) :
      Accepts l (beNat bs) (format.code :: bs) true
  | wide {format : Format} {k : Nat} {bs : List UInt8} (h : (format, k) ∈ l.behind) (hk : k = 2 ∨ k = 4)
      (hbs : bs.length = 8) : Accepts l (beNat bs) (format.code :: bs) false

end Lengths

/-- Bytes behind their length. -/
def EncodesBytes (l : Lengths) (value bs : List UInt8) : Prop := ∃ hs, l.Encodes value.length hs ∧ bs = hs ++ value

/-- The elements of a container behind their count. -/
def EncodesElements {α : Type} (l : Lengths) (E : α → List UInt8 → Prop) (elements : List α) (bs : List UInt8) : Prop :=
  ∃ hs es, l.Encodes elements.length hs ∧ Sequence E elements es ∧ bs = hs ++ es

/-- The number is the value, which it need not be to be converted to it.  No number is a boolean. -/
def NumType.holds : (t : NumType) → t.Val → Number → Bool
  | .int _,  n,    .int m        => m == n.val
  | .int _,  n,    .float32 bits => binary32.toInt bits == some n.val
  | .int _,  n,    .float64 bits => binary64.toInt bits == some n.val
  | .bool,   _,    _             => false
  | .float,  bits, .int m        => binary32.toInt (BitVec.toNat bits) == some m
  | .float,  bits, .float32 n    => n == BitVec.toNat bits
  | .float,  bits, .float64 n    => n == convert binary32 binary64 (BitVec.toNat bits)
  | .double, bits, .int m        => binary64.toInt (BitVec.toNat bits) == some m
  | .double, bits, .float32 n    => convert binary32 binary64 n == BitVec.toNat bits
  | .double, bits, .float64 n    => n == BitVec.toNat bits

/-- **The bytes are an encoding of the value.** -/
def Encodes : (t : Ty) → t.Val → List UInt8 → Prop
  | .num .bool,  value, bs => bs = packBool value
  | .num t,      value, bs => ∃ x, EncodesNumber x bs ∧ t.holds value x = true
  | .nullptr,    _,     bs => bs = packNil
  | .enum t,     value, bs => ∃ x, EncodesNumber x bs ∧ (NumType.int t).holds value x = true
  | .string,     value, bs => EncodesBytes .string value bs
  | .binary,     value, bs => EncodesBytes .binary value bs
  | .vector t,   value, bs => EncodesElements .array (Encodes t) value bs
  | .list t,     value, bs => EncodesElements .array (Encodes t) value bs
  | .array _ t,  value, bs => EncodesElements .array (Encodes t) value.val bs
  | .map _ k v,  value, bs => ∃ entries : List (k.Val × v.Val),
      EncodesElements .map (Pair (Encodes k) (Encodes v)) entries bs ∧ value = KeyedMap.empty.insertAll entries
  | .unit,       _,     bs => bs = []
  | .pair s t,   value, bs => ∃ xs ys, Encodes s value.1 xs ∧ Encodes t value.2 ys ∧ bs = xs ++ ys

/-! ## What the decoders accept -/

/-- Bytes behind what is taken for their length. -/
def AcceptsBytes (l : Lengths) (value bs : List UInt8) (st : Bool) : Prop :=
  ∃ hs, l.Accepts value.length hs st ∧ bs = hs ++ value

/-- A table, or elements behind what is taken for their count. -/
def AcceptsElements {α : Type} (l : Lengths) (A : α → List UInt8 → Bool → Prop) (elements : List α) (bs : List UInt8)
    (st : Bool) : Prop :=
  (∃ rest, bs = Format.table.code :: rest ∧ st = false) ∨
    ∃ hs es st₁ st₂, l.Accepts elements.length hs st₁ ∧ Flagged A elements es st₂ ∧ bs = hs ++ es ∧ st = (st₁ && st₂)

def AcceptsEntry {α β : Type} (A : α → List UInt8 → Bool → Prop) (B : β → List UInt8 → Bool → Prop) (entry : α × β)
    (bs : List UInt8) (st : Bool) : Prop :=
  ∃ xs ys st₁ st₂, A entry.1 xs st₁ ∧ B entry.2 ys st₂ ∧ bs = xs ++ ys ∧ st = (st₁ && st₂)

/-- Entries, or nothing at all. -/
def AcceptsMap {α β : Type} {keys : Keys α} (A : α → List UInt8 → Bool → Prop) (B : β → List UInt8 → Bool → Prop)
    (value : KeyedMap keys β) (bs : List UInt8) (st : Bool) : Prop :=
  bs = [] ∧ st = false ∨
    ∃ entries : List (α × β), AcceptsElements .map (AcceptsEntry A B) entries bs st ∧ value = KeyedMap.empty.insertAll entries

/-- The bytes are taken for the value; the flag tells whether in every part as an encoding. -/
def Accepts : (t : Ty) → t.Val → List UInt8 → Bool → Prop
  | .num .bool,     value, bs, st => bs = packBool value ∧ st = true ∨
      ∃ x, EncodesNumber x bs ∧ NumType.bool.cast x = some value ∧ st = false
  | .num t,         value, bs, st => ∃ x, EncodesNumber x bs ∧ t.cast x = some value ∧ st = t.holds value x
  | .nullptr,       _,     bs, st => ∃ byte, bs = [byte] ∧ st = decide (byte = Format.nil.code)
  | .enum t,        value, bs, st => ∃ x v, EncodesNumber x bs ∧ (NumType.int .int32).cast x = some v ∧
      value = t.wrap v.val ∧ st = (NumType.int t).holds value x
  | .string,        value, bs, st => AcceptsBytes .string value bs st
  | .binary,        value, bs, st => AcceptsBytes .binary value bs st
  | .vector t,      value, bs, st => AcceptsElements .array (Accepts t) value bs st
  | .list t,        value, bs, st => AcceptsElements .array (Accepts t) value bs st
  | .array size t,  value, bs, st => ∃ (vec : List t.Val) (st' : Bool), AcceptsElements .array (Accepts t) vec bs st' ∧
      vec.length ≤ size ∧ value.val = vec ++ List.replicate (size - vec.length) t.init ∧
      st = (decide (vec.length = size) && st')
  | .map _ k v,     value, bs, st => AcceptsMap (Accepts k) (Accepts v) value bs st
  | .unit,          _,     bs, st => bs = [] ∧ st = true
  | .pair s t,      value, bs, st => ∃ xs ys st₁ st₂, Accepts s value.1 xs st₁ ∧ Accepts t value.2 ys st₂ ∧
      bs = xs ++ ys ∧ st = (st₁ && st₂)

theorem holds_of_accepts {t : NumType} {value : t.Val} {bs : List UInt8}
    (h : ∃ x, EncodesNumber x bs ∧ t.cast x = some value ∧ true = t.holds value x) :
    ∃ x, EncodesNumber x bs ∧ t.holds value x = true := by
  obtain ⟨x, hx, _, hst⟩ := h
  exact ⟨x, hx, hst.symm⟩

theorem Lengths.Accepts.encodes {l : Lengths} {n : Nat} {hs : List UInt8} (h : l.Accepts n hs true) : l.Encodes n hs := by
  generalize htrue : true = st at h
  cases h with
  | inMarker h   => exact .inMarker h
  | byte h hbs   => exact .behind h hbs
  | wide h hk hbs => cases htrue

theorem AcceptsElements.encodes {α : Type} {l : Lengths} {A : α → List UInt8 → Bool → Prop} {E : α → List UInt8 → Prop}
    (h : ∀ a bs, A a bs true → E a bs) {as : List α} {bs : List UInt8} (hall : AcceptsElements l A as bs true) :
    EncodesElements l E as bs := by
  rcases hall with ⟨_, _, hst⟩ | ⟨hs, es, st₁, st₂, hhead, htail, rfl, hst⟩
  · cases hst
  · obtain ⟨rfl, hst₂⟩ := Bool.and_eq_true_iff.1 hst.symm
    exact ⟨hs, es, hhead.encodes, htail.sequence h hst₂, rfl⟩

/-- **What is taken for a value as an encoding, in every part, is an encoding of it.** -/
theorem Accepts.encodes : ∀ (t : Ty) (value : t.Val) (bs : List UInt8), Accepts t value bs true → Encodes t value bs
  | .num .bool,     _,     _, h => by
    rcases h with ⟨hbs, _⟩ | ⟨_, _, _, hst⟩
    · exact hbs
    · cases hst
  | .num (.int _),  _,     _, h => holds_of_accepts h
  | .num .float,    _,     _, h => holds_of_accepts h
  | .num .double,   _,     _, h => holds_of_accepts h
  | .nullptr,       _,     _, h => by
    obtain ⟨byte, rfl, hst⟩ := h
    rw [of_decide_eq_true hst.symm]
    exact rfl
  | .enum _,        _,     _, h => by
    obtain ⟨x, v, hx, _, _, hst⟩ := h
    exact ⟨x, hx, hst.symm⟩
  | .string,        _,     _, h => by
    obtain ⟨hs, hhead, hbs⟩ := h
    exact ⟨hs, hhead.encodes, hbs⟩
  | .binary,        _,     _, h => by
    obtain ⟨hs, hhead, hbs⟩ := h
    exact ⟨hs, hhead.encodes, hbs⟩
  | .vector t,      _,     _, h => AcceptsElements.encodes (Accepts.encodes t) h
  | .list t,        _,     _, h => AcceptsElements.encodes (Accepts.encodes t) h
  | .array size t,  value, _, h => by
    obtain ⟨vec, st', hall, hle, hval, hst⟩ := h
    obtain ⟨hsize, rfl⟩ := Bool.and_eq_true_iff.1 hst.symm
    have hvec : value.val = vec := by
      rw [hval, of_decide_eq_true hsize, Nat.sub_self]
      exact List.append_nil vec
    have helements := AcceptsElements.encodes (Accepts.encodes t) hall
    rw [← hvec] at helements
    exact helements
  | .map _ k v,     _,     _, h => by
    rcases h with ⟨_, hst⟩ | ⟨entries, hall, hval⟩
    · cases hst
    · refine ⟨entries, AcceptsElements.encodes ?_ hall, hval⟩
      rintro entry bs ⟨xs, ys, st₁, st₂, hkey, hmapped, hbs, hst⟩
      obtain ⟨rfl, rfl⟩ := Bool.and_eq_true_iff.1 hst.symm
      exact ⟨xs, ys, Accepts.encodes k entry.1 xs hkey, Accepts.encodes v entry.2 ys hmapped, hbs⟩
  | .unit,          _,     _, h => h.1
  | .pair s t,      value, _, h => by
    obtain ⟨xs, ys, st₁, st₂, hfst, hsnd, hbs, hst⟩ := h
    obtain ⟨rfl, rfl⟩ := Bool.and_eq_true_iff.1 hst.symm
    exact ⟨xs, ys, Accepts.encodes s value.1 xs hfst, Accepts.encodes t value.2 ys hsnd, hbs⟩

end Gb.Msgpack
