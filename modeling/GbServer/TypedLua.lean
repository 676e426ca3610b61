import GbServer.LuaRoundTrip
import GbServer.Lib.FloatWiden
import Mathlib.Data.List.Forall2
/-!
# TypedLua — typed values that the Lua unpacker reads

Which Lua values a typed value corresponds to (`Corresponds`), and what the Lua unpacker pushes for its bytes (`toLua`).
The two sides agree on the markers of numbers and short strings, and on arrays and maps of any size, whose counts
`unpack_table` reads as they were packed; the negative fixint of -32 is taken for the marker of a table, and the length of
a long string is read as one of eight bytes.  `readLua_packed` is the induction over the type, and `pushesLua_of_crosses`
is about whole messages.
-/
namespace Gb.Msgpack

open Stateful
open Bytes (toBe toLe beNat)
open FloatBits (binary32 binary64)
open FloatBits.Format (widens_binary)

/-! ## Correspondence -/

/-- The value that `lua_pushinteger`, `lua_pushboolean` or `lua_pushnumber` makes of a number. -/
def luaNum : (t : NumType) → t.Val → LuaValue
  | .int _,  n     => .integer (IntType.int64.wrap n.val)
  | .bool,   value => .boolean value
  | .float,  bits  => .number (widen bits)
  | .double, bits  => .number bits

/-- The entries of a sequence, behind its first `i`. -/
def sequenceFrom (i : Nat) : List LuaValue → List (LuaValue × LuaValue)
  | []            => []
  | val :: values => (.integer (IntType.int64.wrap (i + 1 : Nat)), val) :: sequenceFrom (i + 1) values

theorem length_sequenceFrom : ∀ (values : List LuaValue) (i : Nat), (sequenceFrom i values).length = values.length
  | [],          _ => rfl
  | _ :: values, i => congrArg (· + 1) (length_sequenceFrom values (i + 1))

/-- The Lua values that a value corresponds to: numbers of the same value, sequences for vectors and keyed tables for
maps, with their entries in any order. -/
def Corresponds : (t : Ty) → t.Val → LuaValue → Prop
  | .num t,     value, w => w.normal = (luaNum t value).normal
  | .string,    str,   w => w = .string str
  | .vector t,  array, w => ∃ values entries, List.Forall₂ (Corresponds t) array values ∧
    entries.Perm (sequenceFrom 0 values) ∧ w = .table entries
  | .map _ k m, map,   w => ∃ items entries,
    List.Forall₂ (fun e item => Corresponds k e.1 item.1 ∧ Corresponds m e.2 item.2) map.val items ∧
    entries.Perm items ∧ w = .table entries
  | _,          _,     _ => False

/-- What the Lua unpacker pushes for a packed float: an integer where it is an `int32_t`. -/
def pushedFloat (bits : BitVec 32) : LuaValue :=
  match binary32.toInt bits.toNat with
  | some i =>
    if IntType.int32.min ≤ i ∧ i ≤ IntType.int32.max then .integer (IntType.int64.wrap i) else .number (widen bits)
  | none   => .number (widen bits)

/-- What it pushes for a packed number; a double is packed as an integer where it is an `int64_t`. -/
def pushedNum : (t : NumType) → t.Val → LuaValue
  | .float,  bits  => pushedFloat bits
  | .double, bits  => .ofNumber bits
  | .int t,  n     => luaNum (.int t) n
  | .bool,   value => luaNum .bool value

/-- A key as `lua_rawset` stores it. -/
def LuaValue.stored (key : LuaValue) : LuaValue := key.key.getD .nil

/-- What the Lua unpacker pushes for a packed value. -/
def toLua : (t : Ty) → t.Val → LuaValue
  | .num t,     value => pushedNum t value
  | .string,    str   => .string str
  | .vector t,  array => .table (sequenceFrom 0 (List.map (toLua t) array))
  | .map _ k m, map   => .table (map.val.map fun e => ((toLua k e.1).stored, toLua m e.2))
  | _,          _     => .nil

/-- The keys of one table: none is not a number, and no two are stored as one. -/
def Keyed (keys : List LuaValue) : Prop :=
  (∀ key ∈ keys, key.key ≠ none) ∧ keys.Pairwise fun x y => LuaValue.same x.stored y.stored = false

/-- A property of each value of a container. -/
def Each {α : Type} (p : α → Prop) (array : List α) : Prop := ∀ v ∈ array, p v

/-- The values that the Lua unpacker reads as they were packed: no number is -32, strings are short, and the keys of a map
are keys in Lua too. -/
def Crosses : (t : Ty) → t.Val → Prop
  | .num (.int _),  n     => n.val ≠ -32
  | .num .bool,     _     => True
  | .num .float,    bits  => binary32.toInt (BitVec.toNat bits) ≠ some (-32)
  | .num .double,   bits  => binary64.toInt (BitVec.toNat bits) ≠ some (-32)
  | .string,        str   => List.length str ≤ 255
  | .vector t,      array => List.length array < 2 ^ 32 ∧ Each (Crosses t) array
  | .map _ k m,     map   =>
    map.val.length < 2 ^ 32 ∧ Each (fun e => Crosses k e.1 ∧ Crosses m e.2) map.val ∧
      Keyed (map.val.map fun e => toLua k e.1)
  | _,              _     => False

/-- A value fits in the free slots of a stack: a table lies below its values, and a key below what it maps to. -/
def Fits : (t : Ty) → t.Val → Nat → Prop
  | .vector t,  array, free => 0 < free ∧ Each (fun v => Fits t v (free - 1)) array
  | .map _ k m, map,   free => 0 < free ∧ Each (fun e => Fits k e.1 (free - 1) ∧ Fits m e.2 (free - 1 - 1)) map.val
  | _,          _,     free => 0 < free

/-! ## Numbers -/

section

variable {b : Buffer} {depth free : Nat}

theorem packInt16_int8 {n : Int} (lo : IntType.int8.min ≤ n) (hi : n ≤ IntType.int8.max) : packInt16 n = packInt8 n :=
  if_pos ⟨hi, lo⟩

theorem packInt32_int16 {n : Int} (lo : IntType.int16.min ≤ n) (hi : n ≤ IntType.int16.max) :
    packInt32 n = packInt16 n := if_pos ⟨hi, lo⟩

theorem packInt64_int32 {n : Int} (lo : IntType.int32.min ≤ n) (hi : n ≤ IntType.int32.max) :
    packInt64 n = packInt32 n := if_pos ⟨hi, lo⟩

theorem packUint16_uint8 {n : Int} (hi : n ≤ IntType.uint8.max) : packUint16 n = packUint8 n := if_neg (by omega)

theorem packUint32_uint16 {n : Int} (hi : n ≤ IntType.uint16.max) : packUint32 n = packUint16 n := if_neg (by omega)

theorem packUint64_uint32 {n : Int} (hi : n ≤ IntType.uint32.max) : packUint64 n = packUint32 n := if_neg (by omega)

/-- A smaller type of the same sign. -/
theorem IntType.Val.widened {s t : IntType} (n : t.Val) (lo : s.min ≤ t.min) (hi : t.max ≤ s.max) :
    ∃ m : s.Val, m.val = n.val := ⟨⟨n.val, Int.le_trans lo n.2.1, Int.le_trans n.2.2 hi⟩, rfl⟩

/-- An integer has one form for every type of its sign. -/
theorem packInt_cases (t : IntType) (n : t.Val) :
    (∃ m : IntType.int64.Val, m.val = n.val ∧ packInt t n.val = packInt64 m.val) ∨
      ∃ m : IntType.uint64.Val, m.val = n.val ∧ packInt t n.val = packUint64 m.val := by
  have signed : ∀ lo : IntType.int64.min ≤ t.min, ∀ hi : t.max ≤ IntType.int64.max, packInt t n.val = packInt64 n.val →
      ∃ m : IntType.int64.Val, m.val = n.val ∧ packInt t n.val = packInt64 m.val := fun lo hi h => by
    obtain ⟨m, hm⟩ := n.widened lo hi
    exact ⟨m, hm, hm ▸ h⟩
  have unsigned : ∀ lo : IntType.uint64.min ≤ t.min, ∀ hi : t.max ≤ IntType.uint64.max,
      packInt t n.val = packUint64 n.val →
      ∃ m : IntType.uint64.Val, m.val = n.val ∧ packInt t n.val = packUint64 m.val := fun lo hi h => by
    obtain ⟨m, hm⟩ := n.widened lo hi
    exact ⟨m, hm, hm ▸ h⟩
  obtain ⟨lo, hi⟩ := n.2
  cases t with
  | int8   =>
    have lo16 : IntType.int16.min ≤ n.val := Int.le_trans (by decide) lo
    have hi16 : n.val ≤ IntType.int16.max := Int.le_trans hi (by decide)
    have lo32 : IntType.int32.min ≤ n.val := Int.le_trans (by decide) lo
    have hi32 : n.val ≤ IntType.int32.max := Int.le_trans hi (by decide)
    apply Or.inl
    apply signed (by decide) (by decide)
    rw [packInt64_int32 lo32 hi32, packInt32_int16 lo16 hi16, packInt16_int8 lo hi, packInt]
  | int16  =>
    have lo32 : IntType.int32.min ≤ n.val := Int.le_trans (by decide) lo
    have hi32 : n.val ≤ IntType.int32.max := Int.le_trans hi (by decide)
    apply Or.inl
    apply signed (by decide) (by decide)
    rw [packInt64_int32 lo32 hi32, packInt32_int16 lo hi, packInt]
  | int32  =>
    apply Or.inl
    apply signed (by decide) (by decide)
    rw [packInt64_int32 lo hi, packInt]
  | int64  => exact .inl ⟨n, rfl, rfl⟩
  | uint8  =>
    apply Or.inr
    apply unsigned (by decide) (by decide)
    rw [packUint64_uint32 (Int.le_trans hi (by decide)), packUint32_uint16 (Int.le_trans hi (by decide)),
      packUint16_uint8 hi, packInt]
  | uint16 =>
    apply Or.inr
    apply unsigned (by decide) (by decide)
    rw [packUint64_uint32 (Int.le_trans hi (by decide)), packUint32_uint16 hi, packInt]
  | uint32 =>
    apply Or.inr
    apply unsigned (by decide) (by decide)
    rw [packUint64_uint32 hi, packInt]
  | uint64 => exact .inr ⟨n, rfl, rfl⟩

/-- The forms of an unsigned integer. -/
theorem packUint64_cases (n : Int) : (n ≤ 127 ∧ packUint64 n = [toByte n]) ∨
    ∃ format bs, (format = .uint8 ∨ format = .uint16 ∨ format = .uint32 ∨ format = .uint64) ∧
      packUint64 n = Format.code format :: bs := by
  unfold packUint64 packUint32 packUint16 packUint8
  by_cases h64 : IntType.uint32.max < n
  · rw [if_pos h64]
    exact .inr ⟨.uint64, _, .inr (.inr (.inr rfl)), rfl⟩
  · rw [if_neg h64]
    by_cases h32 : IntType.uint16.max < n
    · rw [if_pos h32]
      exact .inr ⟨.uint32, _, .inr (.inr (.inl rfl)), rfl⟩
    · rw [if_neg h32]
      by_cases h16 : IntType.uint8.max < n
      · rw [if_pos h16]
        exact .inr ⟨.uint16, _, .inr (.inl rfl), rfl⟩
      · rw [if_neg h16]
        by_cases hfix : n ≤ 0x7f
        · rw [if_pos hfix]
          exact .inl ⟨hfix, rfl⟩
        · rw [if_neg hfix]
          exact .inr ⟨.uint8, _, .inl rfl, rfl⟩

theorem readLua_packUint64 (hfree : 0 < free) (n : IntType.uint64.Val) :
    Decodes b (readLua b (depth + 1) free) (packUint64 n.val) (.integer (IntType.int64.wrap n.val)) := by
  have lo : 0 ≤ n.val := n.2.1
  rcases packUint64_cases n.val with ⟨hi, hpack⟩ | ⟨format, bs, hformat, hpack⟩
  · have hbyte := toNat_toByte n.val
    have hle : (toByte n.val).toNat ≤ 127 := by omega
    have hvalue : ((toByte n.val).toNat : Int) = n.val := by omega
    have h := @readLua_positive b depth free hfree _ (UInt8.le_iff_toNat_le.2 hle)
    rwa [hvalue, ← hpack] at h
  · have hnumber := (decodes_packUint64 (b := b) lo n.2.2).number (t := .int .uint64)
      (congrArg some (IntType.uint64.wrap_self n))
    rw [hpack] at hnumber ⊢
    exact readLua_unsigned hfree hformat hnumber

theorem readLua_packInt (hfree : 0 < free) {t : IntType} {n : t.Val} (hn : n.val ≠ -32) :
    Decodes b (readLua b (depth + 1) free) (packInt t n.val) (.integer (IntType.int64.wrap n.val)) := by
  rcases packInt_cases t n with ⟨m, hm, hpack⟩ | ⟨m, hm, hpack⟩
  · rw [hpack, ← hm, IntType.int64.wrap_self]
    exact readLua_packInt64 hfree (hm ▸ hn)
  · rw [hpack, ← hm]
    exact readLua_packUint64 hfree m

/-- The forms of a float. -/
theorem packFloat_cases (bits : BitVec 32) :
    (∃ n : IntType.int64.Val, binary32.toInt bits.toNat = some n.val ∧ pushedFloat bits = .integer n ∧
      packFloat bits.toNat = packInt64 n.val) ∨
    (pushedFloat bits = .number (widen bits) ∧ packFloat bits.toNat = Format.float32.code :: toLe 4 bits.toNat) := by
  unfold pushedFloat packFloat
  cases hi : binary32.toInt bits.toNat with
  | none   => exact .inr ⟨rfl, rfl⟩
  | some i =>
    by_cases hrange : IntType.int32.min ≤ i ∧ i ≤ IntType.int32.max
    · have lo : IntType.int64.min ≤ i := Int.le_trans (by decide) hrange.1
      have hi : i ≤ IntType.int64.max := Int.le_trans hrange.2 (by decide)
      have hval := IntType.int64.wrap_val i lo hi
      refine .inl ⟨IntType.int64.wrap i, by rw [hval], if_pos hrange, ?_⟩
      rw [hval, packInt64_int32 hrange.1 hrange.2]
      exact if_pos hrange
    · exact .inr ⟨if_neg hrange, if_neg hrange⟩

theorem readLua_packFloat (hfree : 0 < free) {bits : BitVec 32} (h : binary32.toInt bits.toNat ≠ some (-32)) :
    Decodes b (readLua b (depth + 1) free) (packFloat bits.toNat) (pushedFloat bits) := by
  rcases packFloat_cases bits with ⟨n, hn, hvalue, hpack⟩ | ⟨hvalue, hpack⟩
  · rw [hvalue, hpack]
    exact readLua_packInt64 hfree fun h32 => h (by rw [hn, h32])
  · rw [hvalue, hpack]
    refine readLua_float32 hfree ((decodes_float32 _ (Bytes.toLe_length 4 _)).number ?_)
    have hlt : bits.toNat < 256 ^ 4 := by
      have := bits.isLt
      omega
    rw [Bytes.leNat_toLe, Nat.mod_eq_of_lt hlt]
    simp [NumType.cast]

theorem readLua_packNum (hfree : 0 < free) : ∀ {t : NumType} {value : t.Val}, Crosses (.num t) value →
    Decodes b (readLua b (depth + 1) free) (packNum t value) (pushedNum t value)
  | .int _,  _,     h => readLua_packInt hfree h
  | .bool,   value, _ => readLua_bool hfree value
  | .float,  _,     h => readLua_packFloat hfree h
  | .double, _,     h => readLua_packDouble hfree h

end

/-! ## Containers -/

section

variable {b : Buffer} {depth free : Nat}

/-- What fills a table, behind its marker. -/
theorem decodes_readEntries (hfree : 0 < free)
    {entries : Nat → List (LuaValue × LuaValue) → Reader (List (LuaValue × LuaValue))} {x : UInt8} {bs : List UInt8}
    {result : List (LuaValue × LuaValue)} (h : Decodes b (entries (free - 1) []) bs result) :
    Decodes b (readEntries b free entries) (x :: bs) (.table result) :=
  (decodes_takeSlot hfree).still (.skip (h.map LuaValue.table))

/-- What fills a table, behind its marker and a count. -/
theorem decodes_countedEntries (hfree : 0 < free) {k n : Nat} (hn : n < 256 ^ k)
    {entries : Nat → Nat → List (LuaValue × LuaValue) → Reader (List (LuaValue × LuaValue))} {x : UInt8}
    {bs : List UInt8} {result : List (LuaValue × LuaValue)} (h : Decodes b (entries n (free - 1) []) bs result) :
    Decodes b (readEntries b free fun free acc => do entries (← readTableSize b k 0) free acc)
      (x :: (toBe k n ++ bs)) (.table result) := by
  have hcount := decodes_tableSize (b := b) k n
  rw [Nat.mod_eq_of_lt hn] at hcount
  exact decodes_readEntries hfree (hcount.bind h)

theorem readLua_packArray (hfree : 0 < free) {α : Type} {packType : α → List UInt8} {array : List α}
    (hsize : array.length < 2 ^ 32) {entries : List (LuaValue × LuaValue)}
    (h : Decodes b (readItems (readLua b depth (free - 1)) 0 array.length []) (array.flatMap packType) entries) :
    Decodes b (readLua b (depth + 1) free) (packArray packType array) (.table entries) := by
  unfold packArray
  dsimp only
  by_cases hfix : array.length ≤ 15
  · rw [if_pos hfix]
    obtain ⟨hlo, hhi, hlen⟩ := fixarray_byte array.length hfix
    generalize UInt8.ofNat (0x90 ||| array.length) = byte at hlo hhi hlen ⊢
    refine .front ?_
    iterate 10 refine .ite_neg (by simp only [Format.code]; grind) ?_
    iterate 2 refine .ite_neg (by grind) ?_
    refine .ite_pos ⟨hlo, hhi⟩ (.front ?_)
    iterate 4 refine .ite_neg (by simp only [Format.code]; grind) ?_
    refine .ite_pos ⟨hlo, hhi⟩ (decodes_readEntries hfree ?_)
    rw [hlen]
    exact h
  · rw [if_neg hfix]
    by_cases h16 : array.length ≤ 0xffff
    · rw [if_pos h16]
      refine .front ?_
      repeat first | refine .ite_pos (by decide) ?_ | refine .ite_neg (by decide) ?_
      refine .front ?_
      repeat first | refine .ite_pos (by decide) ?_ | refine .ite_neg (by decide) ?_
      exact decodes_countedEntries hfree (by omega) h
    · rw [if_neg h16, if_pos (by omega)]
      refine .front ?_
      repeat first | refine .ite_pos (by decide) ?_ | refine .ite_neg (by decide) ?_
      refine .front ?_
      repeat first | refine .ite_pos (by decide) ?_ | refine .ite_neg (by decide) ?_
      exact decodes_countedEntries hfree (by omega) h

theorem readLua_packMap (hfree : 0 < free) {α β : Type} {packKey : α → List UInt8} {packMapped : β → List UInt8}
    {map : List (α × β)} (hsize : map.length < 2 ^ 32) {entries : List (LuaValue × LuaValue)}
    (h : Decodes b (readFields (readLua b depth (free - 1)) (readLua b depth (free - 1 - 1)) map.length [])
      (map.flatMap fun e => packKey e.1 ++ packMapped e.2) entries) :
    Decodes b (readLua b (depth + 1) free) (packMap packKey packMapped map) (.table entries) := by
  unfold packMap
  dsimp only
  by_cases hfix : map.length ≤ 15
  · rw [if_pos hfix]
    obtain ⟨hlo, hhi, hlen⟩ := fixmap_byte map.length hfix
    generalize UInt8.ofNat (0x80 ||| map.length) = byte at hlo hhi hlen ⊢
    refine .front ?_
    iterate 10 refine .ite_neg (by simp only [Format.code]; grind) ?_
    iterate 3 refine .ite_neg (by grind) ?_
    refine .ite_pos ⟨hlo, hhi⟩ (.front ?_)
    iterate 4 refine .ite_neg (by simp only [Format.code]; grind) ?_
    refine .ite_neg (by grind) (.ite_pos ⟨hlo, hhi⟩ (decodes_readEntries hfree ?_))
    rw [hlen]
    exact h
  · rw [if_neg hfix]
    by_cases h16 : map.length ≤ 0xffff
    · rw [if_pos h16]
      refine .front ?_
      repeat first | refine .ite_pos (by decide) ?_ | refine .ite_neg (by decide) ?_
      refine .front ?_
      repeat first | refine .ite_pos (by decide) ?_ | refine .ite_neg (by decide) ?_
      exact decodes_countedEntries hfree (by omega) h
    · rw [if_neg h16, if_pos (by omega)]
      refine .front ?_
      repeat first | refine .ite_pos (by decide) ?_ | refine .ite_neg (by decide) ?_
      refine .front ?_
      repeat first | refine .ite_pos (by decide) ?_ | refine .ite_neg (by decide) ?_
      exact decodes_countedEntries hfree (by omega) h

/-- The keys of a sequence are all new. -/
theorem same_index {i j : Nat} (hij : i < j) (hj : j < 2 ^ 32) :
    LuaValue.same (.integer (IntType.int64.wrap i)) (.integer (IntType.int64.wrap j)) = false := by
  have hval : ∀ n : Nat, n < 2 ^ 32 → (IntType.int64.wrap n).val = n := fun n hn => by
    apply IntType.int64.wrap_val
    all_goals
      simp only [IntType.min, IntType.max]
      omega
  have hi := hval i (by omega)
  have hj := hval j hj
  apply decide_eq_false
  intro heq
  have hvals := congrArg Subtype.val heq
  omega

theorem decodes_items {m : Reader LuaValue} {α : Type} {packType : α → List UInt8} {f : α → LuaValue} :
    ∀ (array : List α) (i : Nat) (acc : List (LuaValue × LuaValue)), i + array.length < 2 ^ 32 →
      (∀ v ∈ array, Decodes b m (packType v) (f v) ∧ (f v).isNil = false) →
      (∀ e ∈ acc, ∃ j ≤ i, e.1 = .integer (IntType.int64.wrap j)) →
      Decodes b (readItems m i array.length acc) (array.flatMap packType) (acc ++ sequenceFrom i (array.map f))
  | [],         i, acc, _,     _, _    => by
    rw [List.map_nil, sequenceFrom, List.append_nil]
    exact .pure acc
  | v :: array, i, acc, hsize, h, hacc => by
    rw [List.length_cons] at hsize
    obtain ⟨hv, hnil⟩ := h v List.mem_cons_self
    have hset : LuaValue.set (.integer (IntType.int64.wrap (i + 1 : Nat))) (f v) acc
        = acc ++ [(.integer (IntType.int64.wrap (i + 1 : Nat)), f v)] := by
      apply set_new hnil
      intro e he
      obtain ⟨j, hj, heq⟩ := hacc e he
      rw [heq]
      exact same_index (by omega) (by omega)
    have htail := decodes_items array (i + 1) (acc ++ [(.integer (IntType.int64.wrap (i + 1 : Nat)), f v)]) (by omega)
      (fun x hx => h x (List.mem_cons_of_mem v hx)) fun e he => by
        rcases List.mem_append.1 he with he | he
        · obtain ⟨j, hj, heq⟩ := hacc e he
          exact ⟨j, by omega, heq⟩
        · rw [List.mem_singleton.1 he]
          exact ⟨i + 1, Nat.le_refl _, rfl⟩
    rw [List.append_assoc, List.singleton_append] at htail
    rw [List.flatMap_cons, List.map_cons, sequenceFrom]
    refine hv.bind ?_
    rw [hset]
    exact htail

theorem stored_eq {key : LuaValue} (h : key.key ≠ none) : key.key = some key.stored := by
  obtain ⟨k, hk⟩ := Option.ne_none_iff_exists'.1 h
  rw [LuaValue.stored, hk, Option.getD_some]

theorem decodes_fields {mk mv : Reader LuaValue} {α β : Type} {packKey : α → List UInt8} {packMapped : β → List UInt8}
    {f : α → LuaValue} {g : β → LuaValue} : ∀ (map : List (α × β)) (acc : List (LuaValue × LuaValue)),
      (∀ e ∈ map, Decodes b mk (packKey e.1) (f e.1) ∧ Decodes b mv (packMapped e.2) (g e.2) ∧ (g e.2).isNil = false) →
      Keyed (map.map fun e => f e.1) → (∀ x ∈ acc, ∀ e ∈ map, LuaValue.same x.1 (f e.1).stored = false) →
      Decodes b (readFields mk mv map.length acc) (map.flatMap fun e => packKey e.1 ++ packMapped e.2)
        (acc ++ map.map fun e => ((f e.1).stored, g e.2))
  | [],       acc, _, _,      _    => by
    rw [List.map_nil, List.append_nil]
    exact .pure acc
  | e :: map, acc, h, hkeyed, hacc => by
    obtain ⟨hkeys, hpair⟩ := hkeyed
    rw [List.map_cons, List.pairwise_cons] at hpair
    obtain ⟨hk, hv, hnil⟩ := h e List.mem_cons_self
    have hstored := stored_eq (hkeys (f e.1) List.mem_cons_self)
    have hset : LuaValue.set (f e.1).stored (g e.2) acc = acc ++ [((f e.1).stored, g e.2)] :=
      set_new hnil acc fun x hx => hacc x hx e List.mem_cons_self
    have htail := decodes_fields map (acc ++ [((f e.1).stored, g e.2)]) (fun x hx => h x (List.mem_cons_of_mem e hx))
      ⟨fun key hkey => hkeys key (List.mem_cons_of_mem _ hkey), hpair.2⟩ fun x hx y hy => by
        rcases List.mem_append.1 hx with hx | hx
        · exact hacc x hx y (List.mem_cons_of_mem e hy)
        · rw [List.mem_singleton.1 hx]
          exact hpair.1 _ (List.mem_map_of_mem (f := fun e : α × β => f e.1) hy)
    rw [List.append_assoc, List.singleton_append] at htail
    rw [List.flatMap_cons, List.map_cons, List.append_assoc]
    refine hk.bind (hv.bind ?_)
    rw [hstored]
    dsimp only
    rw [hset]
    exact htail

end

/-! ## Values -/

theorem isNil_ofNumber (bits : BitVec 64) : (LuaValue.ofNumber bits).isNil = false := by
  rcases packDouble_cases bits with ⟨n, _, hvalue, _⟩ | ⟨_, hvalue, _⟩
  all_goals
    rw [hvalue]
    rfl

theorem isNil_pushedFloat (bits : BitVec 32) : (pushedFloat bits).isNil = false := by
  rcases packFloat_cases bits with ⟨n, _, hvalue, _⟩ | ⟨hvalue, _⟩
  all_goals
    rw [hvalue]
    rfl

theorem isNil_toLua {t : Ty} {v : t.Val} (h : Crosses t v) : (toLua t v).isNil = false := by
  cases t with
  | num t =>
    cases t with
    | int t  => rfl
    | bool   => rfl
    | float  => exact isNil_pushedFloat v
    | double => exact isNil_ofNumber v
  | string    => rfl
  | vector t  => rfl
  | map _ k m => rfl
  | _         => exact h.elim

theorem packInt_pos (t : IntType) (n : t.Val) : 0 < (packInt t n.val).length := by
  rcases packInt_cases t n with ⟨m, _, hpack⟩ | ⟨m, _, hpack⟩
  · rw [hpack]
    exact packInt64_pos m.val
  · rcases packUint64_cases m.val with ⟨_, hbytes⟩ | ⟨_, _, _, hbytes⟩
    all_goals
      rw [hpack, hbytes]
      exact Nat.succ_pos _

theorem packFloat_pos (bits : BitVec 32) : 0 < (packFloat bits.toNat).length := by
  rcases packFloat_cases bits with ⟨n, _, _, hpack⟩ | ⟨_, hpack⟩
  · rw [hpack]
    exact packInt64_pos n.val
  · rw [hpack]
    exact Nat.succ_pos _

theorem packNum_pos : ∀ (t : NumType) (value : t.Val), 0 < (packNum t value).length
  | .int t,  n     => packInt_pos t n
  | .bool,   value => by cases value <;> exact Nat.one_pos
  | .float,  bits  => packFloat_pos bits
  | .double, bits  => packDouble_pos bits

/-- A packed container is its elements behind a header. -/
theorem packArray_body {α : Type} (packType : α → List UInt8) {array : List α} (hsize : array.length < 2 ^ 32) :
    ∃ header, 0 < header.length ∧ packArray packType array = header ++ array.flatMap packType := by
  unfold packArray
  dsimp only
  by_cases hfix : array.length ≤ 15
  · rw [if_pos hfix]
    exact ⟨[_], Nat.one_pos, rfl⟩
  · rw [if_neg hfix]
    by_cases h16 : array.length ≤ 0xffff
    · rw [if_pos h16]
      exact ⟨_ :: toBe 2 array.length, Nat.succ_pos _, rfl⟩
    · rw [if_neg h16, if_pos (by omega)]
      exact ⟨_ :: toBe 4 array.length, Nat.succ_pos _, rfl⟩

theorem packMap_body {α β : Type} (packKey : α → List UInt8) (packMapped : β → List UInt8) {map : List (α × β)}
    (hsize : map.length < 2 ^ 32) : ∃ header, 0 < header.length ∧
      packMap packKey packMapped map = header ++ map.flatMap fun e => packKey e.1 ++ packMapped e.2 := by
  unfold packMap
  dsimp only
  by_cases hfix : map.length ≤ 15
  · rw [if_pos hfix]
    exact ⟨[_], Nat.one_pos, rfl⟩
  · rw [if_neg hfix]
    by_cases h16 : map.length ≤ 0xffff
    · rw [if_pos h16]
      exact ⟨_ :: toBe 2 map.length, Nat.succ_pos _, rfl⟩
    · rw [if_neg h16, if_pos (by omega)]
      exact ⟨_ :: toBe 4 map.length, Nat.succ_pos _, rfl⟩

theorem pack_pos : ∀ {t : Ty} {v : t.Val}, Crosses t v → 0 < (pack t v).length
  | .num t,     value, _ => packNum_pos t value
  | .string,    _,     h => packString_pos h
  | .vector t,  _,     h => by
    obtain ⟨header, hpos, hpack⟩ := packArray_body (pack t) h.1
    rw [pack, hpack, List.length_append]
    omega
  | .map _ k m, _,     h => by
    obtain ⟨header, hpos, hpack⟩ := packMap_body (pack k) (pack m) h.1
    rw [pack, hpack, List.length_append]
    omega
  | .nullptr,   _,     h => h.elim
  | .enum _,    _,     h => h.elim
  | .binary,    _,     h => h.elim
  | .list _,    _,     h => h.elim
  | .array _ _, _,     h => h.elim
  | .unit,      _,     h => h.elim
  | .pair _ _,  _,     h => h.elim

theorem exists_depth {t : Ty} {v : t.Val} (h : Crosses t v) {depth : Nat} (hdepth : (pack t v).length ≤ depth) :
    ∃ depth', depth = depth' + 1 :=
  Nat.exists_eq_succ_of_ne_zero (Nat.ne_of_gt (Nat.lt_of_lt_of_le (pack_pos h) hdepth))

theorem length_le_flatMap {α β : Type} {f : α → List β} {array : List α} {v : α} (h : v ∈ array) :
    (f v).length ≤ (array.flatMap f).length :=
  (List.sublist_flatten_of_mem (List.mem_map_of_mem h)).length_le

/-- **A value that crosses, and fits on the stack, is read as the value that it corresponds to.**  Every level of nesting
has a byte of its own. -/
theorem readLua_packed (b : Buffer) : ∀ (t : Ty) (v : t.Val) (depth free : Nat), Crosses t v → Fits t v free →
    (pack t v).length ≤ depth → Decodes b (readLua b depth free) (pack t v) (toLua t v)
  | .num t,     value, depth, free, h, hfits, hdepth => by
    obtain ⟨depth, rfl⟩ := exists_depth (t := .num t) h hdepth
    exact readLua_packNum hfits h
  | .string,    str,   depth, free, h, hfits, hdepth => by
    obtain ⟨depth, rfl⟩ := exists_depth (t := .string) h hdepth
    exact readLua_packString hfits h
  | .vector t,  array, depth, free, h, hfits, hdepth => by
    obtain ⟨depth, rfl⟩ := exists_depth (t := .vector t) h hdepth
    obtain ⟨header, hpos, hpack⟩ := packArray_body (pack t) h.1
    have hlen : header.length + (List.flatMap (pack t) array).length ≤ depth + 1 := by
      rw [← List.length_append, ← hpack]
      exact hdepth
    refine readLua_packArray hfits.1 h.1 (decodes_items array 0 [] (by have := h.1; omega) (fun v hv => ?_) nofun)
    have hle := length_le_flatMap (f := pack t) hv
    exact ⟨readLua_packed b t v depth (free - 1) (h.2 v hv) (hfits.2 v hv) (by omega), isNil_toLua (h.2 v hv)⟩
  | .map _ k m, map,   depth, free, h, hfits, hdepth => by
    obtain ⟨depth, rfl⟩ := exists_depth (t := .map _ k m) h hdepth
    obtain ⟨header, hpos, hpack⟩ := packMap_body (pack k) (pack m) h.1
    have hlen : header.length + (List.flatMap (fun e : k.Val × m.Val => pack k e.1 ++ pack m e.2) map.val).length ≤
        depth + 1 := by
      rw [← List.length_append, ← hpack]
      exact hdepth
    refine readLua_packMap hfits.1 h.1 (decodes_fields map.val [] (fun e he => ?_) h.2.2 nofun)
    have hle := length_le_flatMap (f := fun e : k.Val × m.Val => pack k e.1 ++ pack m e.2) he
    rw [List.length_append] at hle
    obtain ⟨hk, hm⟩ := h.2.1 e he
    obtain ⟨hkfits, hmfits⟩ := hfits.2 e he
    exact ⟨readLua_packed b k e.1 depth (free - 1) hk hkfits (by omega),
      readLua_packed b m e.2 depth (free - 1 - 1) hm hmfits (by omega), isNil_toLua hm⟩
  | .nullptr,   _,     _,     _,    h, _,     _      => h.elim
  | .enum _,    _,     _,     _,    h, _,     _      => h.elim
  | .binary,    _,     _,     _,    h, _,     _      => h.elim
  | .list _,    _,     _,     _,    h, _,     _      => h.elim
  | .array _ _, _,     _,     _,    h, _,     _      => h.elim
  | .unit,      _,     _,     _,    h, _,     _      => h.elim
  | .pair _ _,  _,     _,     _,    h, _,     _      => h.elim

/-! ## What is read corresponds -/

theorem toNat_widen (bits : BitVec 32) : (widen bits).toNat = FloatBits.convert binary32 binary64 bits.toNat :=
  (BitVec.toNat_ofNat _ 64).trans (Nat.mod_eq_of_lt (widens_binary.convert_lt bits.toNat))

theorem toInt_widen (bits : BitVec 32) : binary64.toInt (widen bits).toNat = binary32.toInt bits.toNat := by
  rw [toNat_widen]
  exact widens_binary.toInt_convert bits.toNat

/-- What is made narrow again is as it was, but for a NaN that is not quiet. -/
theorem narrow_widen_iff (bits : BitVec 32) :
    BitVec.ofNat 32 (FloatBits.convert binary64 binary32 (widen bits).toNat) = bits ↔
      binary32.signaling bits.toNat = false := by
  have hlt : FloatBits.convert binary64 binary32 (widen bits).toNat < 2 ^ 32 := by
    rw [toNat_widen]
    exact widens_binary.convert_convert_lt bits.isLt
  have hback := widens_binary.convert_convert_iff bits.isLt
  rw [← toNat_widen] at hback
  rw [← BitVec.toNat_inj, BitVec.toNat_ofNat, Nat.mod_eq_of_lt hlt]
  exact hback

theorem ofNumber_integral {bits : BitVec 64} {n : IntType.int64.Val} (h : binary64.toInt bits.toNat = some n.val) :
    LuaValue.ofNumber bits = .integer n := by
  rw [LuaValue.ofNumber, h]
  exact dif_pos n.2

theorem normal_ofNumber (bits : BitVec 64) : (LuaValue.ofNumber bits).normal = .ofNumber bits := by
  rcases packDouble_cases bits with ⟨n, _, hvalue, _⟩ | ⟨_, hvalue, _⟩
  · rw [hvalue]
    rfl
  · rw [hvalue]
    exact hvalue

theorem normal_pushedNum : ∀ (t : NumType) (value : t.Val), (pushedNum t value).normal = (luaNum t value).normal
  | .int _,  _    => rfl
  | .bool,   _    => rfl
  | .float,  bits => by
    rcases packFloat_cases bits with ⟨n, hn, hvalue, _⟩ | ⟨hvalue, _⟩
    · change (pushedFloat bits).normal = .ofNumber (widen bits)
      rw [hvalue, ofNumber_integral ((toInt_widen bits).trans hn)]
      rfl
    · exact congrArg LuaValue.normal hvalue
  | .double, bits => normal_ofNumber bits

/-- A key is stored as a value equal to it. -/
theorem normal_stored {key : LuaValue} (h : key.key ≠ none) : key.stored.normal = key.normal := by
  have hstored := stored_eq h
  cases key with
  | number bits =>
    rw [key_number] at hstored
    split at hstored
    · cases hstored
    · rw [← Option.some.inj hstored]
      exact normal_ofNumber bits
  | nil         => exact absurd rfl h
  | _           => rfl

/-- A key corresponds to what it corresponded to before it was stored. -/
theorem corresponds_stored {t : Ty} {v : t.Val} {key : LuaValue} (h : Corresponds t v key) (hkey : key.key ≠ none) :
    Corresponds t v key.stored := by
  cases t with
  | num t     => exact (normal_stored hkey).trans h
  | string    =>
    cases h
    rfl
  | vector t  =>
    obtain ⟨values, entries, hvalues, hperm, rfl⟩ := h
    exact ⟨values, entries, hvalues, hperm, rfl⟩
  | map _ k m =>
    obtain ⟨items, entries, hitems, hperm, rfl⟩ := h
    exact ⟨items, entries, hitems, hperm, rfl⟩
  | _         => exact h.elim

theorem forall₂_map {α β : Type} {R : α → β → Prop} {f : α → β} {l : List α} (h : ∀ v ∈ l, R v (f v)) :
    List.Forall₂ R l (l.map f) := List.forall₂_map_right_iff.2 (List.forall₂_same.2 h)

theorem corresponds_toLua : ∀ (t : Ty) (v : t.Val), Crosses t v → Corresponds t v (toLua t v)
  | .num t,     value, _ => normal_pushedNum t value
  | .string,    _,     _ => rfl
  | .vector t,  array, h => ⟨_, _, forall₂_map fun v hv => corresponds_toLua t v (h.2 v hv), .refl _, rfl⟩
  | .map _ k m, map,   h => by
    refine ⟨_, _, forall₂_map fun e he => ?_, .refl _, rfl⟩
    obtain ⟨hk, hm⟩ := h.2.1 e he
    have hkey := h.2.2.1 _ (List.mem_map_of_mem he)
    exact ⟨corresponds_stored (corresponds_toLua k e.1 hk) hkey, corresponds_toLua m e.2 hm⟩
  | .nullptr,   _,     h => h.elim
  | .enum _,    _,     h => h.elim
  | .binary,    _,     h => h.elim
  | .list _,    _,     h => h.elim
  | .array _ _, _,     h => h.elim
  | .unit,      _,     h => h.elim
  | .pair _ _,  _,     h => h.elim

/-! ## Messages -/

/-- A message is unpacked to one value, which corresponds to what was packed, on top of what was on the stack. -/
def PushesLua (b : Buffer) (limit : Nat) (stack : List LuaValue) (t : Ty) (v : t.Val) : Prop :=
  ∃ rounds s w, unpackLoop b limit rounds 0 ⟨{}, stack⟩ = .ok 1 s ∧ s.stack = w :: stack ∧ Corresponds t v w

/-- **The bytes of a value that crosses push the value that it corresponds to**, whatever it is built from. -/
theorem pushesLua_of_crosses {b : Buffer} {limit : Nat} {stack : List LuaValue} {t : Ty} {v : t.Val}
    (hb : b.bytes = pack t v) (h : Crosses t v) (hfits : Fits t v (limit - stack.length)) :
    PushesLua b limit stack t v := by
  have hdepth : (pack t v).length ≤ b.depth := by
    rw [← hb]
    exact Nat.le_succ _
  obtain ⟨u, hread, hpos, _⟩ := readLua_packed b t v b.depth _ h hfits hdepth {} (Nat.zero_le _) (front_of_bytes hb)
  have hcall := (unpackStackProxy_simulates b limit b.depth).push ⟨{}, stack⟩ _ u hread
  have hfirst : b.isEmpty {} = false := by
    have hbytes := pack_pos h
    rw [← hb] at hbytes
    exact decide_eq_false (Nat.not_le_of_lt hbytes)
  have hlast : b.isEmpty u = true := by
    rw [← hb, Nat.zero_add] at hpos
    exact decide_eq_true (Nat.le_of_eq hpos.symm)
  refine ⟨2, ⟨u, toLua t v :: stack⟩, toLua t v, ?_, rfl, corresponds_toLua t v h⟩
  rw [unpackLoop_succ, hfirst, if_neg Bool.false_ne_true, hcall]
  dsimp only
  rw [unpackLoop_succ, hlast, if_pos rfl]

end Gb.Msgpack
