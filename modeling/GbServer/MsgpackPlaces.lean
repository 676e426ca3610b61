import GbServer.MsgpackSteps
/-!
# MsgpackPlaces — where the values of a message end

Functions of the bytes: what stands at a place, what the marker of a container announces there, and at which place the
next value begins (`Buffer.behind`).  There is no such place where a decoder does not come back: behind a number that
has no conversion to its type, a string whose length wraps the address, a count that cannot be reserved, a key or an
element that is no place of its container.
-/
namespace Gb.Msgpack

open Bytes (beNat leNat)
open Stateful

section

variable (b : Buffer)

/-- The byte at a place: `safe_data` returns zero behind the message. -/
def Buffer.front (p : Nat) : UInt8 := (b.bytes[p]?).getD 0

/-- Where `safe_incremen` arrives. -/
def Buffer.skip (p size : Nat) : Nat := min (p + size) b.bytes.length

/-- The big-endian number of `k` bytes at a place. -/
def Buffer.beAt (p k : Nat) : Nat := beNat ((List.range' p k).map b.front)

/-- The bits of a float of `size` bytes at a place, wherever the message ends. -/
def Buffer.floatAt (p size : Nat) : Nat := leNat ((List.range size).map fun i => b.byteAt (p + i))

/-- What the marker of an array or a table announces: the count, and where the elements begin. -/
def Buffer.arrayHead (byte : UInt8) (p : Nat) : Option (Nat × Nat) :=
  let q := b.skip p 1
  if 0x90 ≤ byte ∧ byte ≤ 0x9f then some ((byte &&& 0x0f).toNat, q)
  else if byte = Format.array32.code ∨ byte = Format.array16.code ∨ byte = Format.table.code then
    some (b.beAt q 8, b.skip q 8)
  else none

def Buffer.mapHead (byte : UInt8) (p : Nat) : Option (Nat × Nat) :=
  let q := b.skip p 1
  if 0x80 ≤ byte ∧ byte ≤ 0x8f then some ((byte &&& 0x0f).toNat, q)
  else if byte = Format.map32.code ∨ byte = Format.table.code ∨ byte = Format.map16.code then
    some (b.beAt q 8, b.skip q 8)
  else none

/-- The number at a marker, and where it ends; at another byte there is none. -/
def Buffer.numberAt (byte : UInt8) (p : Nat) : Option Number × Nat :=
  let q := b.skip p 1
  if byte ≤ 0x7f then (some (.int byte.toNat), q)
  else if 0xe0 ≤ byte then (some (.int (IntType.int8.wrap byte.toNat).val), q)
  else if byte = Format.uint64.code then (some (.int (b.beAt q 8)), b.skip q 8)
  else if byte = Format.uint32.code then (some (.int (b.beAt q 4)), b.skip q 4)
  else if byte = Format.uint16.code then (some (.int (b.beAt q 2)), b.skip q 2)
  else if byte = Format.uint8.code then (some (.int (b.beAt q 1)), b.skip q 1)
  else if byte = Format.int64.code then (some (.int (IntType.int64.wrap (b.beAt q 8)).val), b.skip q 8)
  else if byte = Format.int32.code then (some (.int (IntType.int32.wrap (b.beAt q 4)).val), b.skip q 4)
  else if byte = Format.int16.code then (some (.int (IntType.int16.wrap (b.beAt q 2)).val), b.skip q 2)
  else if byte = Format.int8.code then (some (.int (IntType.int8.wrap (b.beAt q 1)).val), b.skip q 1)
  else if byte = Format.float32.code then (some (.float32 (b.floatAt q 4)), b.skip q 4)
  else if byte = Format.float64.code then (some (.float64 (b.floatAt q 8)), b.skip q 8)
  else (none, p)

/-- What a variable of the type holds behind `unpack_number`. -/
def NumType.ofNumber (t : NumType) : Option Number → Option t.Val
  | none   => some t.init
  | some x => t.cast x

/-- The number at a place as a value of the type, and where it ends. -/
def Buffer.numAt (t : NumType) (p : Nat) : Option (t.Val × Nat) :=
  let x := b.numberAt (b.front p) p
  (t.ofNumber x.1).map fun val => (val, x.2)

/-- The key of an entry of a table. -/
def Buffer.keyAt (p : Nat) : Option (Int × Nat) := (b.numAt (.int .int64) p).map fun key => (key.1.val, key.2)

def Buffer.behindNum (t : NumType) (p : Nat) : Option Nat := (b.numAt t p).map Prod.snd

def Buffer.behindBool (p : Nat) : Option Nat :=
  if b.front p = Format.falseBool.code then some (b.skip p 1)
  else if b.front p = Format.trueBool.code then some (b.skip p 1)
  else b.behindNum .bool p

/-- Behind `size` bytes. -/
def Buffer.behindBytes (size p : Nat) : Option Nat :=
  if b.inRange { dataPointer := p } size then if p + size ≤ b.bytes.length then some (p + size) else none
  else some p

def Buffer.behindString (byte : UInt8) (p : Nat) : Option Nat :=
  let q := b.skip p 1
  if 0xa0 ≤ byte ∧ byte ≤ 0xbf then b.behindBytes (byte &&& 0x1f).toNat q
  else if byte = Format.str32.code then b.behindBytes (b.beAt q 8) (b.skip q 8)
  else if byte = Format.str16.code then b.behindBytes (b.beAt q 8) (b.skip q 8)
  else if byte = Format.str8.code then b.behindBytes (b.beAt q 1) (b.skip q 1)
  else some p

def Buffer.behindBinary (byte : UInt8) (p : Nat) : Option Nat :=
  let q := b.skip p 1
  if byte = Format.bin32.code then b.behindBytes (b.beAt q 8) (b.skip q 8)
  else if byte = Format.bin16.code then b.behindBytes (b.beAt q 8) (b.skip q 8)
  else if byte = Format.bin8.code then b.behindBytes (b.beAt q 1) (b.skip q 1)
  else some p

section Containers

variable (next mapped : Nat → Option Nat)

def behindElements : Nat → Nat → Option Nat
  | 0,         p => some p
  | count + 1, p => (next p).bind (behindElements count)

/-- Behind the entries of a table that is read into a vector of `size` elements. -/
def Buffer.behindIndexed (size : Nat) : Nat → Nat → Option Nat
  | 0,         p => some p
  | count + 1, p => (b.keyAt p).bind fun key => (next key.2).bind fun q =>
      if 1 ≤ key.1 ∧ key.1 ≤ size then behindIndexed size count q else none

def behindEntries : Nat → Nat → Option Nat
  | 0,         p => some p
  | count + 1, p => (next p).bind fun q => (mapped q).bind (behindEntries count)

/-- Whether a count can be reserved, where it is. -/
def Buffer.reservable (reserves : Bool) (count : Nat) : Prop := reserves = true → count ≤ b.maxSize

instance (reserves : Bool) (count : Nat) : Decidable (b.reservable reserves count) :=
  inferInstanceAs (Decidable (_ → _))

/-- How many elements a container gets from the array at a marker, and where it ends. -/
def Buffer.arrayAt (indexed : Bool) (byte : UInt8) (p : Nat) : Option (Nat × Nat) :=
  match b.arrayHead byte p with
  | none            => some (0, p)
  | some (count, q) =>
    if b.reservable indexed count then
      if byte = Format.table.code then
        if indexed = true then (b.behindIndexed next count count q).map (Prod.mk count) else some (0, q)
      else (behindElements next count q).map (Prod.mk count)
    else none

def Buffer.behindMap (unordered : Bool) (byte : UInt8) (p : Nat) : Option Nat :=
  match b.mapHead byte p with
  | none            => some p
  | some (count, q) => if b.reservable unordered count then behindEntries next mapped count q else none

end Containers

/-- Where the value of a type ends that begins at this place. -/
def Buffer.behind : Ty → Nat → Option Nat
  | .num (.int t),        p => b.behindNum (.int t) p
  | .num .bool,           p => b.behindBool p
  | .num .float,          p => b.behindNum .float p
  | .num .double,         p => b.behindNum .double p
  | .nullptr,             p => some (b.skip p 1)
  | .enum _,              p => b.behindNum (.int .int32) p
  | .string,              p => b.behindString (b.front p) p
  | .binary,              p => b.behindBinary (b.front p) p
  | .vector t,            p => (b.arrayAt (Buffer.behind t) true (b.front p) p).map Prod.snd
  | .list t,              p => (b.arrayAt (Buffer.behind t) false (b.front p) p).map Prod.snd
  | .array size t,        p => (b.arrayAt (Buffer.behind t) true (b.front p) p).bind fun array =>
      if array.1 ≤ size then some array.2 else none
  | .map unordered k v,   p => b.behindMap (Buffer.behind k) (Buffer.behind v) unordered (b.front p) p
  | .unit,                p => some p
  | .pair s t,            p => (Buffer.behind s p).bind (Buffer.behind t)

end

/-! ## Places -/

section

variable {b : Buffer}

theorem Buffer.front_of_le {p : Nat} (h : b.bytes.length ≤ p) : b.front p = 0 := by
  rw [Buffer.front, List.getElem?_eq_none h, Option.getD_none]

theorem Buffer.skip_skip (p k : Nat) : b.skip (b.skip p 1) k = b.skip p (k + 1) := by
  unfold Buffer.skip
  omega

theorem Buffer.skip_le (p k : Nat) : b.skip p k ≤ b.bytes.length := Nat.min_le_right _ _

/-- Behind the message there are zeros at every place. -/
theorem Buffer.map_front_skip {p : Nat} (hp : p ≤ b.bytes.length) (k : Nat) :
    (List.range' (b.skip p 1) k).map b.front = (List.range' (p + 1) k).map b.front := by
  rcases Nat.lt_or_eq_of_le hp with hlt | rfl
  · rw [Buffer.skip, Nat.min_eq_left hlt]
  · have hzeros : ∀ q, b.bytes.length ≤ q → (List.range' q k).map b.front = List.replicate k 0 := by
      intro q hq
      refine List.eq_replicate_iff.2 ⟨by rw [List.length_map, List.length_range'], fun x hx => ?_⟩
      obtain ⟨i, hi, rfl⟩ := List.mem_map.1 hx
      exact Buffer.front_of_le (Nat.le_trans hq (List.mem_range'_1.1 hi).1)
    rw [Buffer.skip, Nat.min_eq_right (Nat.le_succ _), hzeros _ (Nat.le_refl _), hzeros _ (Nat.le_succ _)]

theorem Buffer.beAt_succ {p : Nat} (hp : p ≤ b.bytes.length) (k : Nat) :
    b.beAt p (k + 1) = (b.front p).toNat * 256 ^ k + b.beAt (b.skip p 1) k := by
  have hone : beNat [b.front p] = (b.front p).toNat := Nat.zero_add _
  unfold Buffer.beAt
  rw [List.range'_succ, List.map_cons, Buffer.map_front_skip hp, ← List.singleton_append, Bytes.beNat_append, hone,
    List.length_map, List.length_range']

theorem Buffer.arrayHead_fix {byte : UInt8} (h : 0x90 ≤ byte ∧ byte ≤ 0x9f) (p : Nat) :
    b.arrayHead byte p = some ((byte &&& 0x0f).toNat, b.skip p 1) := if_pos h

theorem Buffer.arrayHead_long {byte : UInt8}
    (h : byte = Format.array32.code ∨ byte = Format.array16.code ∨ byte = Format.table.code) (p : Nat) :
    b.arrayHead byte p = some (b.beAt (b.skip p 1) 8, b.skip (b.skip p 1) 8) := by
  rcases h with rfl | rfl | rfl <;> rfl

theorem Buffer.arrayHead_none {byte : UInt8} (hfix : ¬(0x90 ≤ byte ∧ byte ≤ 0x9f)) (h32 : byte ≠ Format.array32.code)
    (h16 : byte ≠ Format.array16.code) (htable : byte ≠ Format.table.code) (p : Nat) : b.arrayHead byte p = none :=
  (if_neg hfix).trans (if_neg fun h => h.elim h32 fun h => h.elim h16 htable)

theorem Buffer.mapHead_fix {byte : UInt8} (h : 0x80 ≤ byte ∧ byte ≤ 0x8f) (p : Nat) :
    b.mapHead byte p = some ((byte &&& 0x0f).toNat, b.skip p 1) := if_pos h

theorem Buffer.mapHead_long {byte : UInt8}
    (h : byte = Format.map32.code ∨ byte = Format.table.code ∨ byte = Format.map16.code) (p : Nat) :
    b.mapHead byte p = some (b.beAt (b.skip p 1) 8, b.skip (b.skip p 1) 8) := by
  rcases h with rfl | rfl | rfl <;> rfl

theorem Buffer.mapHead_none {byte : UInt8} (hfix : ¬(0x80 ≤ byte ∧ byte ≤ 0x8f))
    (h : ¬(byte = Format.map32.code ∨ byte = Format.table.code)) (h16 : byte ≠ Format.map16.code) (p : Nat) :
    b.mapHead byte p = none :=
  (if_neg hfix).trans (if_neg fun hlong => hlong.elim (fun h32 => h (.inl h32)) fun hlong =>
    hlong.elim (fun htable => h (.inr htable)) h16)

theorem forall_head {o : Option (Nat × Nat)} {n q : Nat} (ho : o = some (n, q)) {X : Nat → Nat → Prop} :
    (∀ count r, o = some (count, r) → X count r) ↔ X n q := by
  subst ho
  constructor
  · exact fun h => h n q rfl
  · rintro h _ _ ⟨⟩
    exact h

end

end Gb.Msgpack
