import GbServer.LuaBalance
import GbServer.MsgpackRoundTrip
/-!
# LuaRoundTrip — which Lua values come back from their bytes

Of the markers that the Lua packer writes, one stands for two things: the negative fixint of -32 is the marker of a
table.  Long strings are read with a length of eight bytes, as they are by the typed decoder; tables have one of four
bytes on both sides.  What the reader makes of the packed bytes is `readLua_pack`; what it was made of, `survives_of_readLua`.
-/
namespace Gb.Msgpack

open Stateful
open Bytes (toBe beNat slice)
open FloatBits (binary32 binary64)

/-! ## Scalars -/

section

variable {b : Buffer} {depth free : Nat}

theorem decodes_takeSlot (hfree : 0 < free) : Decodes b (takeSlot free) [] () := by
  rw [takeSlot, if_neg (Nat.ne_of_gt hfree)]
  exact .pure ()

theorem decodes_readByte (hfree : 0 < free) (x : UInt8) (value : LuaValue) :
    Decodes b (readByte b free value) [x] value := (decodes_takeSlot hfree).still (.skip (.pure value))

theorem decodes_readScalar (hfree : 0 < free) {α : Type} (f : α → LuaValue) {m : Reader α} {bs : List UInt8} {a : α}
    (hm : Decodes b m bs a) : Decodes b (readScalar free f m) bs (f a) := by
  have h := hm.bind (f := fun a => do takeSlot free; return f a) ((decodes_takeSlot hfree).still (.pure (f a)))
  rwa [List.append_nil] at h

theorem readLua_nil (hfree : 0 < free) : Decodes b (readLua b (depth + 1) free) packNil .nil := by
  refine .front ?_
  repeat first | refine .ite_pos (by decide) ?_ | refine .ite_neg (by decide) ?_
  exact decodes_readByte hfree _ _

theorem readLua_bool (hfree : 0 < free) (value : Bool) :
    Decodes b (readLua b (depth + 1) free) (packBool value) (.boolean value) := by
  cases value
  all_goals
    refine .front ?_
    repeat first | refine .ite_pos (by decide) ?_ | refine .ite_neg (by decide) ?_
    exact decodes_readByte hfree _ _

/-- What a marker of a number is read with. -/
theorem readLua_signed (hfree : 0 < free) {format : Format}
    (hformat : format = .int8 ∨ format = .int16 ∨ format = .int32 ∨ format = .int64) {bs : List UInt8}
    {n : IntType.int64.Val} (h : Decodes b (unpackNumber b (.int .int64)) (format.code :: bs) n) :
    Decodes b (readLua b (depth + 1) free) (format.code :: bs) (.integer n) := by
  have hscalar := decodes_readScalar hfree .integer h
  refine .front ?_
  rcases hformat with rfl | rfl | rfl | rfl
  all_goals
    repeat first | refine .ite_pos (by decide) ?_ | refine .ite_neg (by decide) ?_
    exact hscalar

theorem readLua_unsigned (hfree : 0 < free) {format : Format}
    (hformat : format = .uint8 ∨ format = .uint16 ∨ format = .uint32 ∨ format = .uint64) {bs : List UInt8}
    {n : IntType.uint64.Val} (h : Decodes b (unpackNumber b (.int .uint64)) (format.code :: bs) n) :
    Decodes b (readLua b (depth + 1) free) (format.code :: bs) (.integer (IntType.int64.wrap n.val)) := by
  have hscalar := decodes_readScalar hfree (fun n : IntType.uint64.Val => LuaValue.integer (IntType.int64.wrap n.val)) h
  refine .front ?_
  rcases hformat with rfl | rfl | rfl | rfl
  all_goals
    repeat first | refine .ite_pos (by decide) ?_ | refine .ite_neg (by decide) ?_
    exact hscalar

theorem readLua_float32 (hfree : 0 < free) {bs : List UInt8} {bits : BitVec 32}
    (h : Decodes b (unpackNumber b .float) (Format.float32.code :: bs) bits) :
    Decodes b (readLua b (depth + 1) free) (Format.float32.code :: bs) (.number (widen bits)) := by
  have hscalar := decodes_readScalar hfree (fun bits : BitVec 32 => LuaValue.number (widen bits)) h
  refine .front ?_
  repeat first | refine .ite_pos (by decide) ?_ | refine .ite_neg (by decide) ?_
  exact hscalar

theorem readLua_float64 (hfree : 0 < free) {bs : List UInt8} {bits : BitVec 64}
    (h : Decodes b (unpackNumber b .double) (Format.float64.code :: bs) bits) :
    Decodes b (readLua b (depth + 1) free) (Format.float64.code :: bs) (.number bits) := by
  have hscalar := decodes_readScalar hfree LuaValue.number h
  refine .front ?_
  repeat first | refine .ite_pos (by decide) ?_ | refine .ite_neg (by decide) ?_
  exact hscalar

theorem readLua_positive (hfree : 0 < free) {byte : UInt8} (h : byte ≤ 0x7f) :
    Decodes b (readLua b (depth + 1) free) [byte] (.integer (IntType.int64.wrap byte.toNat)) := by
  have hscalar := decodes_readScalar (b := b) hfree (fun _ => LuaValue.integer (IntType.int64.wrap byte.toNat))
    (.safeIncremen [byte])
  refine .front ?_
  iterate 10 refine .ite_neg (by simp only [Format.code]; grind) ?_
  exact .ite_pos h hscalar

/-- The least fixint is taken for a table. -/
theorem readLua_negative (hfree : 0 < free) {byte : UInt8} (h : 0xe0 < byte) :
    Decodes b (readLua b (depth + 1) free) [byte]
      (.integer (IntType.int64.wrap (IntType.int8.wrap byte.toNat).val)) := by
  have hscalar := decodes_readScalar (b := b) hfree
    (fun _ => LuaValue.integer (IntType.int64.wrap (IntType.int8.wrap byte.toNat).val)) (.safeIncremen [byte])
  refine .front ?_
  iterate 10 refine .ite_neg (by simp only [Format.code]; grind) ?_
  exact .ite_neg (by grind) (.ite_pos (by grind) hscalar)

/-- The forms of a signed integer. -/
theorem packInt64_cases (n : Int) :
    (-32 ≤ n ∧ n ≤ -1 ∧ packInt64 n = [toByte (0xe0 + 32 + n)]) ∨ (0 ≤ n ∧ n ≤ 127 ∧ packInt64 n = [toByte n]) ∨
      ∃ format bs, (format = .int8 ∨ format = .int16 ∨ format = .int32 ∨ format = .int64) ∧
        packInt64 n = Format.code format :: bs := by
  unfold packInt64 packInt32 packInt16 packInt8
  split
  · split
    · split
      · split
        · rename_i h
          exact .inl ⟨h.1, h.2, rfl⟩
        · split
          · rename_i h
            exact .inr (.inl ⟨h.1, h.2, rfl⟩)
          · exact .inr (.inr ⟨.int8, _, .inl rfl, rfl⟩)
      · exact .inr (.inr ⟨.int16, _, .inr (.inl rfl), rfl⟩)
    · exact .inr (.inr ⟨.int32, _, .inr (.inr (.inl rfl)), rfl⟩)
  · exact .inr (.inr ⟨.int64, _, .inr (.inr (.inr rfl)), rfl⟩)

theorem wrap_of_val {t : IntType} {m : Int} {n : t.Val} (h : m = n.val) : t.wrap m = n := by
  rw [h, t.wrap_self]

theorem readLua_packInt64 (hfree : 0 < free) {n : IntType.int64.Val} (hn : n.val ≠ -32) :
    Decodes b (readLua b (depth + 1) free) (packInt64 n.val) (.integer n) := by
  rcases packInt64_cases n.val with ⟨lo, hi, hpack⟩ | ⟨lo, hi, hpack⟩ | ⟨format, bs, hformat, hpack⟩
  · have hbyte := toNat_toByte (0xe0 + 32 + n.val)
    have hgt : (224 : Nat) < (toByte (0xe0 + 32 + n.val)).toNat := by omega
    have h := @readLua_negative b depth free hfree _ (UInt8.lt_iff_toNat_lt.2 hgt)
    rwa [wrap_of_val (n := n) (wrap_int8 (by omega) (by omega) (by omega)), ← hpack] at h
  · have hbyte := toNat_toByte n.val
    have hle : (toByte n.val).toNat ≤ 127 := by omega
    have h := @readLua_positive b depth free hfree _ (UInt8.le_iff_toNat_le.2 hle)
    rwa [wrap_of_val (n := n) (by omega), ← hpack] at h
  · have hnumber := (decodes_packInt64 (b := b) n.2.1 n.2.2).number (t := .int .int64)
      (congrArg some (IntType.int64.wrap_self n))
    rw [hpack] at hnumber ⊢
    exact readLua_signed hfree hformat hnumber

/-- A number in Lua: a float with an integral value is equal to that integer. -/
def LuaValue.ofNumber (bits : BitVec 64) : LuaValue :=
  match binary64.toInt bits.toNat with
  | some i => if h : IntType.int64.min ≤ i ∧ i ≤ IntType.int64.max then .integer ⟨i, h⟩ else .number bits
  | none   => .number bits

theorem packDouble_cases (bits : BitVec 64) :
    (∃ n : IntType.int64.Val, binary64.toInt bits.toNat = some n.val ∧ LuaValue.ofNumber bits = .integer n ∧
      packDouble bits.toNat = packInt64 n.val) ∨
    ((∀ n : IntType.int64.Val, binary64.toInt bits.toNat ≠ some n.val) ∧ LuaValue.ofNumber bits = .number bits ∧
      packDouble bits.toNat = Format.float64.code :: Bytes.toLe 8 bits.toNat) := by
  unfold LuaValue.ofNumber packDouble
  cases hi : binary64.toInt bits.toNat with
  | none   => exact .inr ⟨fun _ h => (nomatch h), rfl, rfl⟩
  | some i =>
    by_cases hrange : IntType.int64.min ≤ i ∧ i ≤ IntType.int64.max
    · exact .inl ⟨⟨i, hrange⟩, rfl, dif_pos hrange, if_pos hrange⟩
    · refine .inr ⟨fun n h => hrange ?_, dif_neg hrange, if_neg hrange⟩
      rw [Option.some.inj h]
      exact n.2

theorem readLua_packDouble (hfree : 0 < free) {bits : BitVec 64} (h : binary64.toInt bits.toNat ≠ some (-32)) :
    Decodes b (readLua b (depth + 1) free) (packDouble bits.toNat) (.ofNumber bits) := by
  rcases packDouble_cases bits with ⟨n, hn, hvalue, hpack⟩ | ⟨_, hvalue, hpack⟩
  · rw [hvalue, hpack]
    exact readLua_packInt64 hfree fun h32 => h (by rw [hn, h32])
  · rw [hvalue, hpack]
    refine readLua_float64 hfree ((decodes_float64 _ (Bytes.toLe_length 8 _)).number ?_)
    have hlt : bits.toNat < 256 ^ 8 := by
      have := bits.isLt
      omega
    rw [Bytes.leNat_toLe, Nat.mod_eq_of_lt hlt]
    simp [NumType.cast]

theorem decodes_fixstr (hfree : 0 < free) (str : List UInt8) (hlen : str.length ≤ 31) :
    Decodes b (do
      match ← peekBytes b str.length with
      | some str' =>
        takeSlot free
        safeIncremen b str.length
        return LuaValue.string str'
      | none => throw .luaStack) str (LuaValue.string str) := by
  intro u hle hu
  have hend := Decodes.length_le hle hu
  have hin : b.inRange u str.length = true := (inRange_iff hle (by omega)).2 hend
  have hslice : slice b.bytes u.dataPointer str.length = str := (List.prefix_iff_eq_take.1 hu).symm
  have hpeek : peekBytes b str.length u
      = .ok (some str) { u with log := .read u.dataPointer str.length :: u.log } := by
    rw [peekBytes, if_pos hin, hslice]
  have hrest : Decodes b (do takeSlot free; safeIncremen b str.length; return LuaValue.string str) str (.string str) :=
    (decodes_takeSlot hfree).still ((Decodes.safeIncremen str).map fun _ => LuaValue.string str)
  obtain ⟨v, hv, hpos, hec⟩ := hrest { u with log := .read u.dataPointer str.length :: u.log } hle hu
  exact ⟨v, (bind_of_ok hpeek).trans hv, hpos, hec⟩

theorem readLua_packString (hfree : 0 < free) {str : List UInt8} (h : str.length ≤ 255) :
    Decodes b (readLua b (depth + 1) free) (packString str) (.string str) := by
  have htyped := decodes_packString (b := b) h
  unfold packString at htyped ⊢
  dsimp only at htyped ⊢
  by_cases hfix : str.length ≤ 31
  · rw [if_pos hfix]
    obtain ⟨hlo, hhi, hlen⟩ := fixstr_byte str.length hfix
    have hbody := decodes_fixstr (b := b) hfree str hfix
    refine .front ?_
    generalize UInt8.ofNat (0xa0 ||| str.length) = byte at hlo hhi hlen ⊢
    iterate 10 refine .ite_neg (by simp only [Format.code]; grind) ?_
    iterate 4 refine .ite_neg (by grind) ?_
    refine .ite_pos ⟨hlo, hhi⟩ (.skip ?_)
    rw [hlen]
    exact hbody
  · rw [if_neg hfix, if_pos h] at htyped ⊢
    have hscalar := decodes_readScalar hfree LuaValue.string htyped
    refine .front ?_
    repeat first | refine .ite_pos (by decide) ?_ | refine .ite_neg (by decide) ?_
    exact hscalar

/-! ## Tables -/

theorem decodes_readTableSize : ∀ (bs : List UInt8) (size : Nat),
    Decodes b (readTableSize b bs.length size) bs (size + beNat bs)
  | [],      size => .pure size
  | x :: bs, size => by
    have hvalue : size + beNat (x :: bs) = size + x.toNat * 2 ^ (8 * bs.length) + beNat bs := by
      have happend := Bytes.beNat_append [x] bs
      rw [List.singleton_append] at happend
      have hone : beNat [x] = x.toNat := by simp [beNat]
      rw [happend, hone, Nat.pow_mul, Nat.add_assoc]
    rw [hvalue]
    exact .front (.skip (decodes_readTableSize bs _))

theorem decodes_tableSize (k n : Nat) : Decodes b (readTableSize b k 0) (toBe k n) (n % 256 ^ k) := by
  have h := decodes_readTableSize (b := b) (toBe k n) 0
  rwa [Bytes.toBe_length, Bytes.beNat_toBe, Nat.zero_add] at h

/-- The marker of a table, its count, and what fills it. -/
theorem readLua_table (hfree : 0 < free) {count : Nat} {bs : List UInt8} {entries : List (LuaValue × LuaValue)}
    (h : Decodes b (readFields (readLua b depth (free - 1)) (readLua b depth (free - 1 - 1)) (count % 256 ^ 4) []) bs
      entries) :
    Decodes b (readLua b (depth + 1) free) (Format.table.code :: (toBe 4 count ++ bs)) (.table entries) := by
  have hentries : Decodes b (readEntries b free fun free entries => do
      readFields (readLua b depth free) (readLua b depth (free - 1)) (← readTableSize b 4 0) entries)
      (Format.table.code :: (toBe 4 count ++ bs)) (.table entries) := by
    refine (decodes_takeSlot hfree).still (.skip ?_)
    exact Decodes.map ((decodes_tableSize 4 count).bind h) LuaValue.table
  refine .front ?_
  repeat first | refine .ite_pos (by decide) ?_ | refine .ite_neg (by decide) ?_
  refine .front ?_
  repeat first | refine .ite_pos (by decide) ?_ | refine .ite_neg (by decide) ?_
  exact hentries

theorem set_new {key val : LuaValue} (hval : val.isNil = false) : ∀ entries : List (LuaValue × LuaValue),
    (∀ e ∈ entries, LuaValue.same e.1 key = false) → LuaValue.set key val entries = entries ++ [(key, val)]
  | [],           _ => by rw [LuaValue.set, hval, if_neg Bool.false_ne_true, List.nil_append]
  | e :: entries, h => by
    rw [LuaValue.set, h e List.mem_cons_self, if_neg Bool.false_ne_true,
      set_new hval entries fun x hx => h x (List.mem_cons_of_mem e hx), List.cons_append]

end

/-! ## Values -/

mutual

/-- What a value is equal to in Lua, with its integral floats as integers. -/
def LuaValue.normal : LuaValue → LuaValue
  | .number bits   => .ofNumber bits
  | .table entries => .table (normalEntries entries)
  | value          => value

def normalEntries : List (LuaValue × LuaValue) → List (LuaValue × LuaValue)
  | []                    => []
  | (key, val) :: entries => (key.normal, val.normal) :: normalEntries entries

end

mutual

/-- The values that Lua has: keys are as they are stored, no two are one, and no value of a key is nil. -/
def LuaValue.Valid : LuaValue → Prop
  | .table entries => (entries.Pairwise fun x y => LuaValue.same x.1 y.1 = false) ∧ ValidEntries entries
  | _              => True

def ValidEntries : List (LuaValue × LuaValue) → Prop
  | []                    => True
  | (key, val) :: entries => (key.key = some key ∧ val.isNil = false) ∧ key.Valid ∧ val.Valid ∧ ValidEntries entries

end

mutual

/-- The values without the integer -32, without long strings, and with counts of tables that fit in four bytes. -/
def LuaValue.Survives : LuaValue → Prop
  | .integer n     => n.val ≠ -32
  | .number bits   => binary64.toInt bits.toNat ≠ some (-32)
  | .string str    => str.length ≤ 255
  | .table entries => entries.length < 2 ^ 32 ∧ SurvivesEntries entries
  | _              => True

def SurvivesEntries : List (LuaValue × LuaValue) → Prop
  | []                    => True
  | (key, val) :: entries => key.Survives ∧ val.Survives ∧ SurvivesEntries entries

end

mutual

/-- The slots of the stack that it takes to read a value. -/
def LuaValue.slots : LuaValue → Nat
  | .table entries => 1 + slotsEntries entries
  | _              => 1

def slotsEntries : List (LuaValue × LuaValue) → Nat
  | []                    => 0
  | (key, val) :: entries => max (max key.slots (1 + val.slots)) (slotsEntries entries)

end

mutual

/-- The depth of nesting. -/
def LuaValue.levels : LuaValue → Nat
  | .table entries => 1 + levelsEntries entries
  | _              => 1

def levelsEntries : List (LuaValue × LuaValue) → Nat
  | []                    => 0
  | (key, val) :: entries => max (max key.levels val.levels) (levelsEntries entries)

end

theorem key_number (bits : BitVec 64) : (LuaValue.number bits).key =
    if binary64.infinity < binary64.absolute bits.toNat then none else some (.ofNumber bits) := by
  rw [LuaValue.key, LuaValue.ofNumber]
  cases binary64.toInt bits.toNat with
  | none   => rfl
  | some i =>
    by_cases hrange : IntType.int64.min ≤ i ∧ i ≤ IntType.int64.max
    · simp [hrange]
    · simp [hrange]

theorem ofNumber_of_key {bits : BitVec 64} (h : (LuaValue.number bits).key = some (.number bits)) :
    LuaValue.ofNumber bits = .number bits := by
  rw [key_number] at h
  split at h
  · cases h
  · exact Option.some.inj h

/-- A key is what it was, or still a table. -/
theorem normal_of_key {key : LuaValue} (h : key.key = some key) :
    key.normal = key ∨ ∃ entries, key = .table entries := by
  cases key with
  | number bits   => exact .inl (ofNumber_of_key h)
  | table entries => exact .inr ⟨entries, rfl⟩
  | _             => exact .inl rfl

theorem key_normal {key : LuaValue} (h : key.key = some key) : key.normal.key = some key.normal := by
  rcases normal_of_key h with hn | ⟨entries, rfl⟩
  · rw [hn, h]
  · rfl

theorem same_table_left (entries : List (LuaValue × LuaValue)) (y : LuaValue) : LuaValue.same (.table entries) y = false := by
  cases y <;> rfl

theorem same_table_right (x : LuaValue) (entries : List (LuaValue × LuaValue)) : LuaValue.same x (.table entries) = false := by
  cases x <;> rfl

theorem same_normal {x y : LuaValue} (hx : x.key = some x) (hy : y.key = some y) (h : LuaValue.same x y = false) :
    LuaValue.same x.normal y.normal = false := by
  rcases normal_of_key hx with hnx | ⟨entries, rfl⟩
  · rcases normal_of_key hy with hny | ⟨entries, rfl⟩
    · rw [hnx, hny, h]
    · exact same_table_right _ _
  · exact same_table_left _ _

theorem isNil_normal (v : LuaValue) : v.normal.isNil = v.isNil := by
  cases v with
  | number bits =>
    change (LuaValue.ofNumber bits).isNil = false
    unfold LuaValue.ofNumber
    split
    · split <;> rfl
    · rfl
  | _ => rfl

theorem one_le_slots (v : LuaValue) : 1 ≤ v.slots := by
  cases v with
  | table entries => exact Nat.le_add_right 1 _
  | _             => exact Nat.le_refl 1

theorem one_le_levels (v : LuaValue) : 1 ≤ v.levels := by
  cases v with
  | table entries => exact Nat.le_add_right 1 _
  | _             => exact Nat.le_refl 1

theorem validEntries_keys : ∀ entries : List (LuaValue × LuaValue), ValidEntries entries →
    ∀ e ∈ entries, e.1.key = some e.1
  | [],                    _, _, he => nomatch he
  | (key, val) :: entries, h, e, he => by
    unfold ValidEntries at h
    rcases List.mem_cons.1 he with rfl | he
    · exact h.1.1
    · exact validEntries_keys entries h.2.2.2 e he

mutual

/-- **A value that survives is read as it was packed.** -/
theorem readLua_pack (b : Buffer) : ∀ (v : LuaValue) (depth free : Nat), v.Valid → v.Survives → v.slots ≤ free →
    v.levels ≤ depth → Decodes b (readLua b depth free) (packStackProxy v) v.normal
  | v,               0,         _,    _,  _,  _,     hlevels => absurd (Nat.le_trans (one_le_levels v) hlevels) (by decide)
  | .nil,            depth + 1, _,    _,  _,  hfree, _       => readLua_nil hfree
  | .boolean value,  depth + 1, _,    _,  _,  hfree, _       => readLua_bool hfree value
  | .integer n,      depth + 1, _,    _,  hs, hfree, _       => readLua_packInt64 hfree hs
  | .number bits,    depth + 1, _,    _,  hs, hfree, _       => readLua_packDouble hfree hs
  | .string str,     depth + 1, _,    _,  hs, hfree, _       => readLua_packString hfree hs
  | .table entries,  depth + 1, free, hv, hs, hfree, hlevels => by
    unfold LuaValue.slots at hfree
    unfold LuaValue.levels at hlevels
    unfold LuaValue.Valid at hv
    unfold LuaValue.Survives at hs
    have hfields := readFields_pack b entries [] depth (free - 1) hv.2 hv.1 hs.2 (by omega) (by omega)
      fun x hx => nomatch hx
    refine readLua_table (by omega) ?_
    have hlt : entries.length < 256 ^ 4 := by
      have := hs.1
      omega
    rw [Nat.mod_eq_of_lt hlt]
    exact hfields

theorem readFields_pack (b : Buffer) : ∀ (entries acc : List (LuaValue × LuaValue)) (depth free : Nat),
    ValidEntries entries → (entries.Pairwise fun x y => LuaValue.same x.1 y.1 = false) → SurvivesEntries entries →
    slotsEntries entries ≤ free → levelsEntries entries ≤ depth →
    (∀ x ∈ acc, ∀ e ∈ entries, LuaValue.same x.1 e.1.normal = false) →
    Decodes b (readFields (readLua b depth free) (readLua b depth (free - 1)) entries.length acc) (packEntries entries)
      (acc ++ normalEntries entries)
  | [],                    acc, depth, free, _,  _,     _,  _,      _,       _    => by
    rw [normalEntries, List.append_nil]
    exact .pure acc
  | (key, val) :: entries, acc, depth, free, hv, hpair, hs, hslots, hlevels, hnew => by
    unfold ValidEntries at hv
    unfold SurvivesEntries at hs
    unfold slotsEntries at hslots
    unfold levelsEntries at hlevels
    obtain ⟨⟨hkeyed, hnil⟩, hkv, hvv, htv⟩ := hv
    obtain ⟨hks, hvs, hts⟩ := hs
    rw [List.pairwise_cons] at hpair
    have hkey := readLua_pack b key depth free hkv hks (by omega) (by omega)
    have hval := readLua_pack b val depth (free - 1) hvv hvs (by omega) (by omega)
    have hset : LuaValue.set key.normal val.normal acc = acc ++ [(key.normal, val.normal)] :=
      set_new ((isNil_normal val).trans hnil) acc fun x hx => hnew x hx (key, val) List.mem_cons_self
    have hkeys := validEntries_keys entries htv
    have htail := readFields_pack b entries (acc ++ [(key.normal, val.normal)]) depth free htv hpair.2 hts (by omega)
      (by omega) fun x hx e he => by
        rcases List.mem_append.1 hx with hx | hx
        · exact hnew x hx e (List.mem_cons_of_mem _ he)
        · rw [List.mem_singleton.1 hx]
          exact same_normal hkeyed (hkeys e he) (hpair.1 e he)
    rw [List.append_assoc, List.singleton_append] at htail
    rw [packEntries, normalEntries, List.append_assoc]
    refine hkey.bind (hval.bind ?_)
    rw [key_normal hkeyed]
    dsimp only
    rw [hset]
    exact htail

end

/-! ## What comes back survived -/

section

variable {b : Buffer}

/-- A program that returns nothing. -/
def NeverReturns {α : Type} (m : Reader α) : Prop := ∀ u a u', m u ≠ .ok a u'

theorem NeverReturns.bind {α β : Type} {m : Reader α} {f : α → Reader β} (hf : ∀ a, NeverReturns (f a)) :
    NeverReturns (m >>= f) := by
  intro u a u' h
  obtain ⟨c, v, _, h⟩ := bind_eq_ok h
  exact hf c v a u' h

theorem NeverReturns.ite {α : Type} {c : Prop} [Decidable c] {m n : Reader α} (hm : NeverReturns m) (hn : NeverReturns n) :
    NeverReturns (if c then m else n) := by
  split
  · exact hm
  · exact hn

theorem NeverReturns.takeSlot {α : Type} {m : Reader α} : NeverReturns (Msgpack.takeSlot 0 >>= fun _ => m) := by
  intro u a u' h
  obtain ⟨_, v, h, _⟩ := bind_eq_ok h
  cases h

theorem readTable_zero (readValue : Nat → Reader LuaValue) : NeverReturns (readTable b readValue 0) := by
  refine .bind fun byte => ?_
  iterate 6 refine .ite .takeSlot ?_
  exact fun _ _ _ h => nomatch h

/-- Every value takes a slot. -/
theorem readLua_slot {depth free : Nat} {u u' : Unpacker} {w : LuaValue} (h : readLua b depth free u = .ok w u') :
    0 < free := by
  rcases Nat.eq_zero_or_pos free with rfl | hfree
  · exfalso
    revert h
    cases depth with
    | zero       => exact fun h => nomatch h
    | succ depth =>
      have hscalar : ∀ {α : Type} (f : α → LuaValue) (m : Reader α), NeverReturns (readScalar 0 f m) :=
        fun f m => .bind fun a => .takeSlot
      suffices hnever : NeverReturns (readLua b (depth + 1) 0) from hnever u w u'
      refine .bind fun byte => ?_
      iterate 3 refine .ite .takeSlot ?_
      iterate 6 refine .ite (hscalar _ _) ?_
      refine .ite (readTable_zero _) (.ite (hscalar _ _) (.ite (hscalar _ _) ?_))
      refine .ite (readTable_zero _) (.ite (readTable_zero _) (.ite (.bind fun _ => .bind fun str => ?_) ?_))
      · cases str with
        | none     => exact fun _ _ _ h => nomatch h
        | some str => exact .takeSlot
      · exact fun _ _ _ h => nomatch h
  · exact hfree

/-- The marker of a table is read as a table: its count, and its entries. -/
theorem readLua_tableMarker {depth free : Nat} {xs : List UInt8} {u u' : Unpacker} {w : LuaValue}
    (hu : Format.table.code :: xs <+: b.bytes.drop u.dataPointer)
    (h : readLua b (depth + 1) free u = .ok w u') :
    ∃ v result, v.dataPointer = u.dataPointer ∧ w = .table result ∧
      (do
        safeIncremen b 1
        let count ← readTableSize b 4 0
        readFields (readLua b depth (free - 1)) (readLua b depth (free - 1 - 1)) count []) v = .ok result u' := by
  unfold readLua at h
  rw [run_front hu] at h
  repeat rw [if_neg (by decide)] at h
  rw [if_pos (by decide)] at h
  unfold readTable at h
  rw [run_front (by exact hu)] at h
  rw [if_neg (by decide), if_neg (by decide), if_pos (by decide)] at h
  obtain ⟨_, v, hslot, h⟩ := bind_eq_ok h
  obtain ⟨_, rfl⟩ := ok_of_takeSlot hslot
  obtain ⟨_, v, hskip, h⟩ := bind_eq_ok h
  obtain ⟨result, v', hread, hw⟩ := bind_eq_ok h
  obtain ⟨rfl, rfl⟩ := ok_of_pure hw
  refine ⟨_, result, ?_, rfl, (bind_of_ok hskip).trans hread⟩
  rfl

theorem set_length (key val : LuaValue) : ∀ entries : List (LuaValue × LuaValue),
    (LuaValue.set key val entries).length ≤ entries.length + 1 ∧
      ((LuaValue.set key val entries).length = entries.length + 1 →
        LuaValue.set key val entries = entries ++ [(key, val)])
  | []           => by
    rw [LuaValue.set]
    split
    · exact ⟨Nat.zero_le _, fun h => nomatch h⟩
    · exact ⟨Nat.le_refl _, fun _ => rfl⟩
  | e :: entries => by
    obtain ⟨hle, heq⟩ := set_length key val entries
    rw [LuaValue.set]
    split
    · split
      · exact ⟨by rw [List.length_cons]; omega, fun h => by rw [List.length_cons] at h; omega⟩
      · exact ⟨by rw [List.length_cons, List.length_cons]; omega, fun h => by
          rw [List.length_cons, List.length_cons] at h
          omega⟩
    · rw [List.length_cons, List.length_cons]
      exact ⟨by omega, fun h => by rw [heq (by omega), List.cons_append]⟩

/-- As many entries as were read are there only if all keys were new. -/
theorem readFields_length {rk rv : Reader LuaValue} : ∀ (count : Nat) (acc result : List (LuaValue × LuaValue))
    (u u' : Unpacker), readFields rk rv count acc u = .ok result u' → result.length ≤ acc.length + count ∧
      (result.length = acc.length + count → acc <+: result)
  | 0,         acc, result, u, u', h => by
    cases h
    exact ⟨Nat.le_refl _, fun _ => List.prefix_rfl⟩
  | count + 1, acc, result, u, u', h => by
    obtain ⟨key, v, _, h⟩ := bind_eq_ok h
    obtain ⟨val, w, _, h⟩ := bind_eq_ok h
    cases hkey : key.key with
    | none     =>
      rw [hkey] at h
      cases h
    | some key' =>
      rw [hkey] at h
      obtain ⟨hle, hfront⟩ := readFields_length count _ result w u' h
      obtain ⟨hset, heq⟩ := set_length key' val acc
      refine ⟨by omega, fun hlen => ?_⟩
      have hnew := heq (by omega)
      rw [hnew, List.length_append, List.length_singleton] at hfront
      exact (List.prefix_append _ _).trans (hfront (by omega))

theorem length_normalEntries : ∀ entries : List (LuaValue × LuaValue), (normalEntries entries).length = entries.length
  | []                    => rfl
  | (key, val) :: entries => by rw [normalEntries, List.length_cons, List.length_cons, length_normalEntries entries]

end

mutual

/-- No string is too long for a length field. -/
def LuaValue.Sized : LuaValue → Prop
  | .string str    => str.length < 2 ^ 32
  | .table entries => SizedEntries entries
  | _              => True

def SizedEntries : List (LuaValue × LuaValue) → Prop
  | []                    => True
  | (key, val) :: entries => key.Sized ∧ val.Sized ∧ SizedEntries entries

end

/-- A value that was read and is, or is stored as, the value that was packed. -/
def LuaValue.ReadAs (w v : LuaValue) : Prop := w = v.normal ∨ w.key = some v.normal

theorem LuaValue.ReadAs.of_table {result : List (LuaValue × LuaValue)} {v : LuaValue}
    (h : (LuaValue.table result).ReadAs v) : v.normal = .table result :=
  h.elim (fun h => h.symm) fun h => (Option.some.inj h).symm

section

variable {b : Buffer} {depth free : Nat} {u u' : Unpacker} {w : LuaValue}

theorem Decodes.of_run {α : Type} {m : Reader α} {xs : List UInt8} {a c : α} (h : Decodes b m xs a)
    (hle : u.dataPointer ≤ b.bytes.length) (hu : xs <+: b.bytes.drop u.dataPointer) (hrun : m u = .ok c u') :
    c = a ∧ u'.dataPointer = u.dataPointer + xs.length := by
  obtain ⟨v, hv, hpos, _⟩ := h u hle hu
  have hsame := hrun.symm.trans hv
  injection hsame with hc hu'
  subst hu'
  exact ⟨hc, hpos⟩

/-- A program that decodes the front of what lies there stops before the rest of it. -/
theorem Decodes.after {α : Type} {m : Reader α} {xs ys : List UInt8} {a c : α} (h : Decodes b m xs a)
    (hle : u.dataPointer ≤ b.bytes.length) (hu : xs ++ ys <+: b.bytes.drop u.dataPointer) (hrun : m u = .ok c u') :
    c = a ∧ u'.dataPointer ≤ b.bytes.length ∧ ys <+: b.bytes.drop u'.dataPointer := by
  have hfront := (List.prefix_append xs ys).trans hu
  have hend := Decodes.length_le hle hfront
  obtain ⟨hc, hpos⟩ := h.of_run hle hfront hrun
  exact ⟨hc, by omega, drop_step hu hpos⟩

/-- The least fixint is the marker of a table. -/
theorem readLua_least {n : Int} (hn : n = -32) (hu : packInt64 n <+: b.bytes.drop u.dataPointer)
    (h : readLua b (depth + 1) free u = .ok w u') : ∃ result, w = .table result := by
  have hmarker : packInt64 n = Format.table.code :: [] := by
    rw [hn]
    rfl
  rw [hmarker] at hu
  obtain ⟨_, result, _, hw, _⟩ := readLua_tableMarker hu h
  exact ⟨result, hw⟩

theorem readLua_long {str : List UInt8} (hlong : 255 < str.length) (hsize : str.length < 2 ^ 32)
    (hle : u.dataPointer ≤ b.bytes.length) (hu : packString str <+: b.bytes.drop u.dataPointer)
    (h : readLua b (depth + 1) free u = .ok w u') : w = .string [] := by
  have hmarker : ∃ format bs, (format = .str16 ∨ format = .str32) ∧ packString str = Format.code format :: bs := by
    unfold packString
    dsimp only
    rw [if_neg (by omega), if_neg (by omega)]
    by_cases h16 : str.length ≤ 0xffff
    · rw [if_pos h16]
      exact ⟨.str16, _, .inl rfl, rfl⟩
    · rw [if_neg h16, if_pos (by omega)]
      exact ⟨.str32, _, .inr rfl, rfl⟩
  obtain ⟨format, bs, hformat, hpack⟩ := hmarker
  have hread : ∃ v, v.dataPointer = u.dataPointer ∧ readScalar free LuaValue.string (unpackString b) v = .ok w u' := by
    unfold readLua at h
    rw [run_front (hpack ▸ hu)] at h
    refine ⟨{ u with log := .read u.dataPointer 1 :: u.log }, rfl, ?_⟩
    rcases hformat with rfl | rfl
    all_goals
      iterate 8 rw [if_neg (by decide)] at h
      rw [if_pos (by decide)] at h
      exact h
  obtain ⟨v, hv, hscalar⟩ := hread
  obtain ⟨s, r, hs, hrest⟩ := bind_eq_ok hscalar
  obtain ⟨_, r', _, hrest⟩ := bind_eq_ok hrest
  obtain ⟨rfl, _⟩ := ok_of_pure hrest
  rw [(unpackString_long hlong hsize (hv ▸ hle) (hv ▸ hu) hs).1]

/-- The entries behind the marker of a table, as many as the count that was packed. -/
theorem readLua_entries {entries : List (LuaValue × LuaValue)} (hle : u.dataPointer ≤ b.bytes.length)
    (hu : packStackProxy (.table entries) <+: b.bytes.drop u.dataPointer)
    (h : readLua b (depth + 1) free u = .ok w u') :
    ∃ v result, w = .table result ∧ v.dataPointer ≤ b.bytes.length ∧ packEntries entries <+: b.bytes.drop v.dataPointer ∧
      readFields (readLua b depth (free - 1)) (readLua b depth (free - 1 - 1)) (entries.length % 256 ^ 4) [] v
        = .ok result u' := by
  rw [packStackProxy] at hu
  obtain ⟨v, result, hv, hw, hrun⟩ := readLua_tableMarker hu h
  have hcount : Decodes b (do safeIncremen b 1; readTableSize b 4 0) (Format.table.code :: toBe 4 entries.length)
      (entries.length % 256 ^ 4) := .skip (decodes_tableSize 4 entries.length)
  have hbytes : (Format.table.code :: toBe 4 entries.length) ++ packEntries entries <+: b.bytes.drop v.dataPointer := by
    rw [hv]
    exact hu
  obtain ⟨_, v₁, hskip, hrest⟩ := bind_eq_ok hrun
  obtain ⟨count, v₂, hsize, hrest⟩ := bind_eq_ok hrest
  obtain ⟨rfl, hend, hentries⟩ := hcount.after (hv ▸ hle) hbytes ((bind_of_ok hskip).trans hsize)
  exact ⟨v₂, result, hw, hend, hentries, hrest⟩

end

mutual

/-- **What is read as it was packed survived, and fitted.** -/
theorem survives_of_readLua (b : Buffer) : ∀ (v : LuaValue) (depth free : Nat), v.Valid → v.Sized →
    ∀ u u' w, u.dataPointer ≤ b.bytes.length → packStackProxy v <+: b.bytes.drop u.dataPointer →
      readLua b depth free u = .ok w u' → w.ReadAs v → v.Survives ∧ v.slots ≤ free ∧ v.levels ≤ depth
  | v,              0,         _,    _,  _,  _, _,  _, _,   _,  h, _     => nomatch h
  | .nil,           depth + 1, _,    _,  _,  _, _,  _, _,   _,  h, _     =>
    ⟨trivial, readLua_slot h, Nat.succ_pos depth⟩
  | .boolean value, depth + 1, _,    _,  _,  _, _,  _, _,   _,  h, _     =>
    ⟨trivial, readLua_slot h, Nat.succ_pos depth⟩
  | .integer n,     depth + 1, _,    _,  _,  u, u', w, hle, hu, h, hread => by
    refine ⟨fun hn => ?_, readLua_slot h, Nat.succ_pos depth⟩
    obtain ⟨result, rfl⟩ := readLua_least hn hu h
    cases hread.of_table
  | .number bits,   depth + 1, _,    _,  _,  u, u', w, hle, hu, h, hread => by
    refine ⟨fun hbits => ?_, readLua_slot h, Nat.succ_pos depth⟩
    rcases packDouble_cases bits with ⟨n, hn, hvalue, hpack⟩ | ⟨hnone, _, _⟩
    · have hmarker : packInt64 n.val <+: b.bytes.drop u.dataPointer := by
        rw [← hpack]
        exact hu
      obtain ⟨result, rfl⟩ := readLua_least (Option.some.inj (hn.symm.trans hbits)) hmarker h
      cases hvalue.symm.trans hread.of_table
    · exact hnone ⟨-32, by decide⟩ hbits
  | .string str,    depth + 1, _,    _,  hs, u, u', w, hle, hu, h, hread => by
    refine ⟨Nat.le_of_not_lt fun hlong => ?_, readLua_slot h, Nat.succ_pos depth⟩
    have hw := readLua_long hlong hs hle hu h
    subst hw
    have hstr : LuaValue.string str = .string [] := hread.elim (fun h => h.symm) fun h => (Option.some.inj h).symm
    injection hstr with hstr
    rw [hstr] at hlong
    exact absurd hlong (by decide)
  | .table entries, depth + 1, free, hv, hs, u, u', w, hle, hu, h, hread => by
    unfold LuaValue.Valid at hv
    unfold LuaValue.Sized at hs
    obtain ⟨v, result, rfl, hvpos, hbytes, hfields⟩ := readLua_entries hle hu h
    have hresult : normalEntries entries = result := by
      have htable := hread.of_table
      injection htable
    have hlen := (readFields_length _ _ _ _ _ hfields).1
    rw [← hresult, length_normalEntries, List.length_nil, Nat.zero_add] at hlen
    have hlt : entries.length < 256 ^ 4 := Nat.lt_of_le_of_lt hlen (Nat.mod_lt _ (by decide))
    rw [Nat.mod_eq_of_lt hlt, ← hresult] at hfields
    obtain ⟨hsurvive, hslots, hlevels⟩ := survives_of_readFields b entries [] depth (free - 1) hv.2 hs v u' hvpos hbytes hfields
    have hfree := readLua_slot h
    unfold LuaValue.Survives LuaValue.slots LuaValue.levels
    exact ⟨⟨by omega, hsurvive⟩, by omega, by omega⟩

theorem survives_of_readFields (b : Buffer) : ∀ (entries acc : List (LuaValue × LuaValue)) (depth free : Nat),
    ValidEntries entries → SizedEntries entries → ∀ u u', u.dataPointer ≤ b.bytes.length →
      packEntries entries <+: b.bytes.drop u.dataPointer →
      readFields (readLua b depth free) (readLua b depth (free - 1)) entries.length acc u
        = .ok (acc ++ normalEntries entries) u' →
      SurvivesEntries entries ∧ slotsEntries entries ≤ free ∧ levelsEntries entries ≤ depth
  | [],                    _,   _,     _,    _,  _,  _, _,  _,   _,  _ =>
    ⟨trivial, Nat.zero_le _, Nat.zero_le _⟩
  | (key, val) :: entries, acc, depth, free, hv, hs, u, u', hle, hu, h => by
    unfold ValidEntries at hv
    unfold SizedEntries at hs
    obtain ⟨⟨hkeyed, hnil⟩, hkv, hvv, htv⟩ := hv
    obtain ⟨hks, hvs, hts⟩ := hs
    rw [packEntries, List.append_assoc] at hu
    obtain ⟨k, v, hk, hrest⟩ := bind_eq_ok h
    obtain ⟨w, r, hw, hrest⟩ := bind_eq_ok hrest
    cases hstored : k.key with
    | none    =>
      rw [hstored] at hrest
      cases hrest
    | some k' =>
      rw [hstored] at hrest
      dsimp only at hrest
      -- all entries are there, so every key was new and the next entry is this one
      obtain ⟨hlen, hfront⟩ := readFields_length _ _ _ _ _ hrest
      obtain ⟨hset, hnew⟩ := set_length k' w acc
      have htotal : (acc ++ normalEntries ((key, val) :: entries)).length = acc.length + (entries.length + 1) := by
        rw [List.length_append, length_normalEntries, List.length_cons]
      have hacc := hnew (by omega)
      rw [hacc] at hfront hrest
      have hpre := hfront (by rw [htotal, List.length_append, List.length_singleton]; omega)
      rw [normalEntries, List.prefix_append_right_inj] at hpre
      have hentry : (k', w) = (key.normal, val.normal) := (List.cons_prefix_cons.1 hpre).1
      injection hentry with hk' hw'
      have hkread : k.ReadAs key := .inr (hk' ▸ hstored)
      obtain ⟨hks', hkslots, hklevels⟩ :=
        survives_of_readLua b key depth free hkv hks u v k hle ((List.prefix_append _ _).trans hu) hk hkread
      obtain ⟨_, hvle, hu₂⟩ := (readLua_pack b key depth free hkv hks' hkslots hklevels).after hle hu hk
      obtain ⟨hvs', hvslots, hvlevels⟩ :=
        survives_of_readLua b val depth (free - 1) hvv hvs v r w hvle ((List.prefix_append _ _).trans hu₂) hw (.inl hw')
      obtain ⟨_, hrle, hu₃⟩ := (readLua_pack b val depth (free - 1) hvv hvs' hvslots hvlevels).after hvle hu₂ hw
      have htail : acc ++ normalEntries ((key, val) :: entries) = (acc ++ [(k', w)]) ++ normalEntries entries := by
        rw [normalEntries, hk', hw', List.append_assoc, List.singleton_append]
      rw [htail] at hrest
      obtain ⟨hts', htslots, htlevels⟩ :=
        survives_of_readFields b entries _ depth free htv hts r u' hrle hu₃ hrest
      have hslot := one_le_slots val
      unfold SurvivesEntries slotsEntries levelsEntries
      exact ⟨⟨hks', hvs', hts'⟩, by omega, by omega⟩

end

/-! ## Messages -/

theorem packInt64_pos (n : Int) : 1 ≤ (packInt64 n).length := by
  rcases packInt64_cases n with ⟨_, _, h⟩ | ⟨_, _, h⟩ | ⟨_, _, _, h⟩
  all_goals
    rw [h]
    exact Nat.succ_pos _

theorem packDouble_pos (bits : BitVec 64) : 1 ≤ (packDouble bits.toNat).length := by
  rcases packDouble_cases bits with ⟨n, _, _, hpack⟩ | ⟨_, _, hpack⟩
  · rw [hpack]
    exact packInt64_pos n.val
  · rw [hpack]
    exact Nat.succ_pos _

theorem packString_pos {str : List UInt8} (h : str.length ≤ 255) : 1 ≤ (packString str).length := by
  unfold packString
  dsimp only
  by_cases hfix : str.length ≤ 31
  · rw [if_pos hfix]
    exact Nat.succ_pos _
  · rw [if_neg hfix, if_pos h]
    exact Nat.succ_pos _

mutual

/-- Every level has a marker. -/
theorem levels_le : ∀ v : LuaValue, v.Survives → v.levels ≤ (packStackProxy v).length
  | .nil,           _ => Nat.le_refl 1
  | .boolean value, _ => by cases value <;> exact Nat.le_refl 1
  | .integer n,     _ => packInt64_pos n.val
  | .number bits,   _ => packDouble_pos bits
  | .string str,    h => packString_pos h
  | .table entries, h => by
    unfold LuaValue.Survives at h
    have hle := levelsEntries_le entries h.2
    rw [LuaValue.levels, packStackProxy, List.length_cons, List.length_append]
    omega

theorem levelsEntries_le : ∀ entries : List (LuaValue × LuaValue), SurvivesEntries entries →
    levelsEntries entries ≤ (packEntries entries).length
  | [],                    _ => Nat.zero_le _
  | (key, val) :: entries, h => by
    unfold SurvivesEntries at h
    have hkey := levels_le key h.1
    have hval := levels_le val h.2.1
    have hle := levelsEntries_le entries h.2.2
    rw [levelsEntries, packEntries, List.length_append, List.length_append]
    omega

end

/-- Values fit on a stack one after another. -/
def SlotsFit : Nat → List LuaValue → Prop
  | _,    []          => True
  | free, v :: values => v.slots ≤ free ∧ SlotsFit (free - 1) values

/-- A message is unpacked to these values, on top of what was on the stack, and they are all counted. -/
def LuaRoundTrips (b : Buffer) (limit : Nat) (stack : List LuaValue) (values : List LuaValue) : Prop :=
  ∃ rounds t, unpackLoop b limit rounds 0 ⟨{}, stack⟩ = .ok values.length t ∧
    t.stack = (values.map LuaValue.normal).reverse ++ stack

section

variable {b : Buffer} {limit : Nat}

theorem isEmpty_of_packLua_nil {u : Unpacker} (h : b.bytes.drop u.dataPointer = packLua []) : b.isEmpty u = true :=
  decide_eq_true (List.drop_eq_nil_iff.1 h)

/-- **A message of values that survive is unpacked to them.** -/
theorem unpackLoop_packLua : ∀ (values : List LuaValue) (i : Nat) (s : LuaState),
    (∀ v ∈ values, v.Valid ∧ v.Survives) → SlotsFit (limit - s.stack.length) values →
    s.unpacker.dataPointer ≤ b.bytes.length → b.bytes.drop s.unpacker.dataPointer = packLua values →
    ∃ t, unpackLoop b limit (values.length + 1) i s = .ok (i + values.length) t ∧
      t.stack = (values.map LuaValue.normal).reverse ++ s.stack
  | [],          i, s, _, _,    _,   hu => by
    refine ⟨s, ?_, rfl⟩
    rw [List.length_nil, unpackLoop_succ, if_pos (isEmpty_of_packLua_nil hu)]
    rfl
  | v :: values, i, s, h, hfit, hle, hu => by
    obtain ⟨hvalid, hsurvives⟩ := h v List.mem_cons_self
    have hbytes : packStackProxy v ++ packLua values = b.bytes.drop s.unpacker.dataPointer := hu.symm
    have hfront : packStackProxy v <+: b.bytes.drop s.unpacker.dataPointer := ⟨_, hbytes⟩
    have hend := Decodes.length_le hle hfront
    have hlevels := levels_le v hsurvives
    have hpos := one_le_levels v
    have hdepth : v.levels ≤ b.depth := by
      unfold Buffer.depth
      omega
    obtain ⟨u, hu', hupos, _⟩ := readLua_pack b v b.depth _ hvalid hsurvives hfit.1 hdepth s.unpacker hle hfront
    have hcall := (unpackStackProxy_simulates b limit b.depth).push s _ u hu'
    have hdrop : b.bytes.drop u.dataPointer = packLua values := by
      rw [hupos, ← List.drop_drop, ← hbytes, List.drop_left]
    have hrest : SlotsFit (limit - (v.normal :: s.stack).length) values := by
      rw [List.length_cons, Nat.sub_add_eq]
      exact hfit.2
    obtain ⟨t, ht, hstack⟩ := unpackLoop_packLua values (i + 1) ⟨u, v.normal :: s.stack⟩
      (fun x hx => h x (List.mem_cons_of_mem v hx)) hrest (by rw [hupos]; exact hend) hdrop
    have hempty : b.isEmpty s.unpacker = false := decide_eq_false (by omega)
    refine ⟨t, ?_, ?_⟩
    · rw [List.length_cons, unpackLoop_succ, hempty, if_neg Bool.false_ne_true, hcall]
      dsimp only
      rw [ht, Nat.add_assoc, Nat.add_comm 1]
    · rw [hstack, List.map_cons, List.reverse_cons, List.append_assoc, List.singleton_append]

/-- A loop that counts what it pushes leaves what was on the stack. -/
theorem unpackLoop_stack : ∀ (rounds i n : Nat) (s t : LuaState), unpackLoop b limit rounds i s = .ok n t →
    t.stack.length + i = s.stack.length + n → s.stack <:+ t.stack
  | 0,          _, _, _, _, h, _ => nomatch h
  | rounds + 1, i, n, s, t, h, hheight => by
    rw [unpackLoop_succ] at h
    by_cases hempty : b.isEmpty s.unpacker
    · rw [if_pos hempty] at h
      cases h
      exact List.suffix_rfl
    · rw [if_neg hempty] at h
      cases hcall : unpackStackProxy b limit b.depth s with
      | ok _ r    =>
        rw [hcall] at h
        have hle := (unpackLoop_height rounds (i + 1) n r t h).1
        have hr := (unpackStackProxy_simulates b limit b.depth).height s r hcall
        obtain ⟨v, _, hv⟩ := (unpackStackProxy_simulates b limit b.depth).pushed hcall (by omega)
        have hrest := unpackLoop_stack rounds (i + 1) n r t h (by omega)
        rw [hv] at hrest
        exact (List.suffix_cons v s.stack).trans hrest
      | error e r =>
        rw [hcall] at h
        cases h

/-- A run of the loop that pushes all that it counts begins with a value, which is at the bottom of what it pushed. -/
theorem unpackLoop_first {rounds i n : Nat} {s t : LuaState} (hrun : unpackLoop b limit rounds i s = .ok (i + (n + 1)) t)
    (hlen : t.stack.length = s.stack.length + (n + 1)) :
    b.isEmpty s.unpacker = false ∧ ∃ rounds' r w, readLua b b.depth (limit - s.stack.length) s.unpacker = .ok w r.unpacker ∧
      r.stack = w :: s.stack ∧ unpackLoop b limit rounds' (i + 1) r = .ok (i + (n + 1)) t ∧ r.stack <:+ t.stack := by
  cases rounds with
  | zero        => cases hrun
  | succ rounds =>
    rw [unpackLoop_succ] at hrun
    by_cases hempty : b.isEmpty s.unpacker
    · rw [if_pos hempty] at hrun
      injection hrun with hcount
      omega
    · rw [if_neg hempty] at hrun
      cases hcall : unpackStackProxy b limit b.depth s with
      | error e r =>
        rw [hcall] at hrun
        cases hrun
      | ok _ r    =>
        rw [hcall] at hrun
        have hsim := unpackStackProxy_simulates b limit b.depth
        have hheight := (unpackLoop_height rounds (i + 1) _ r t hrun).1
        have hone := hsim.height s r hcall
        obtain ⟨w, hread, hr⟩ := hsim.pushed hcall (by omega)
        have hrlen : r.stack.length = s.stack.length + 1 := congrArg List.length hr
        refine ⟨Bool.eq_false_iff.2 hempty, rounds, r, w, hread, hr, hrun, ?_⟩
        exact unpackLoop_stack rounds (i + 1) _ r t hrun (by omega)

/-- **A message that is unpacked to its values had values that survive.** -/
theorem survive_of_unpackLoop : ∀ (values : List LuaValue) (rounds i : Nat) (s t : LuaState),
    (∀ v ∈ values, v.Valid ∧ v.Sized) → s.unpacker.dataPointer ≤ b.bytes.length →
    b.bytes.drop s.unpacker.dataPointer = packLua values →
    unpackLoop b limit rounds i s = .ok (i + values.length) t →
    t.stack = (values.map LuaValue.normal).reverse ++ s.stack →
    (∀ v ∈ values, v.Survives) ∧ SlotsFit (limit - s.stack.length) values
  | [],          _,      _, _, _, _, _,   _,  _,    _      => ⟨fun _ hv => (nomatch hv), trivial⟩
  | v :: values, rounds, i, s, t, h, hle, hu, hrun, hstack => by
    have hlen : t.stack.length = s.stack.length + (values.length + 1) := by
      rw [hstack, List.length_append, List.length_reverse, List.length_map, List.length_cons, Nat.add_comm]
    obtain ⟨_, rounds', r, w, hread, hr, hrest, top, htop⟩ := unpackLoop_first hrun hlen
    have hfirst : top = (values.map LuaValue.normal).reverse ∧ w = v.normal := by
      rw [hstack, hr, List.map_cons, List.reverse_cons, List.append_assoc, List.singleton_append] at htop
      have hlens : top.length = (values.map LuaValue.normal).reverse.length := by
        have hboth := congrArg List.length htop
        simp only [List.length_append, List.length_cons] at hboth
        omega
      obtain ⟨htops, hcons⟩ := List.append_inj htop hlens
      exact ⟨htops, (List.cons.inj hcons).1⟩
    obtain ⟨hvalid, hsized⟩ := h v List.mem_cons_self
    have hbytes : packStackProxy v ++ packLua values = b.bytes.drop s.unpacker.dataPointer := hu.symm
    obtain ⟨hsurvives, hslots, hlevels⟩ := survives_of_readLua b v b.depth _ hvalid hsized s.unpacker r.unpacker w hle
      ⟨_, hbytes⟩ hread (.inl hfirst.2)
    obtain ⟨_, hpos⟩ :=
      (readLua_pack b v b.depth _ hvalid hsurvives hslots hlevels).of_run hle ⟨_, hbytes⟩ hread
    have hend : r.unpacker.dataPointer ≤ b.bytes.length := by
      rw [hpos]
      exact Decodes.length_le hle ⟨_, hbytes⟩
    have hdrop : b.bytes.drop r.unpacker.dataPointer = packLua values := by
      rw [hpos, ← List.drop_drop, ← hbytes, List.drop_left]
    obtain ⟨hvalues, hfit⟩ := survive_of_unpackLoop values rounds' (i + 1) r t
      (fun x hx => h x (List.mem_cons_of_mem v hx)) hend hdrop
      (hrest.trans (by rw [Nat.add_assoc, Nat.add_comm 1]))
      (by rw [← htop, hfirst.1])
    refine ⟨fun x hx => ?_, hslots, ?_⟩
    · rcases List.mem_cons.1 hx with rfl | hx
      · exact hsurvives
      · exact hvalues x hx
    · rw [hr, List.length_cons, Nat.sub_add_eq] at hfit
      exact hfit

theorem luaRoundTrips_of_survive {values stack : List LuaValue} (hb : b.bytes = packLua values)
    (hvalid : ∀ v ∈ values, v.Valid) (h : ∀ v ∈ values, v.Survives) (hfit : SlotsFit (limit - stack.length) values) :
    LuaRoundTrips b limit stack values := by
  obtain ⟨t, ht, hstack⟩ := unpackLoop_packLua values 0 ⟨{}, stack⟩ (fun v hv => ⟨hvalid v hv, h v hv⟩) hfit
    (Nat.zero_le _) hb
  rw [Nat.zero_add] at ht
  exact ⟨_, t, ht, hstack⟩

theorem survive_of_luaRoundTrips {values stack : List LuaValue} (hb : b.bytes = packLua values)
    (hvalid : ∀ v ∈ values, v.Valid) (hsized : ∀ v ∈ values, v.Sized) (h : LuaRoundTrips b limit stack values) :
    (∀ v ∈ values, v.Survives) ∧ SlotsFit (limit - stack.length) values := by
  obtain ⟨rounds, t, ht, hstack⟩ := h
  refine survive_of_unpackLoop values rounds 0 ⟨{}, stack⟩ t (fun v hv => ⟨hvalid v hv, hsized v hv⟩) (Nat.zero_le _) hb ?_
    hstack
  rw [Nat.zero_add]
  exact ht

end

/-- **Values that survive, and fit on the stack, come back; and where no string is too long for a length field, no
others do.** -/
theorem unpackLoop_packLua_iff (values : List LuaValue) (hvalid : ∀ v ∈ values, v.Valid) (b : Buffer) (limit : Nat)
    (stack : List LuaValue) (hb : b.bytes = packLua values) :
    ((∀ v ∈ values, v.Survives) ∧ SlotsFit (limit - stack.length) values → LuaRoundTrips b limit stack values) ∧
    ((∀ v ∈ values, v.Sized) → LuaRoundTrips b limit stack values →
      (∀ v ∈ values, v.Survives) ∧ SlotsFit (limit - stack.length) values) :=
  ⟨fun h => luaRoundTrips_of_survive hb hvalid h.1 h.2, fun hsized h => survive_of_luaRoundTrips hb hvalid hsized h⟩

/-- A table with one entry, and a number. -/
def luaGreeting : List LuaValue := [.table [(.string [0x68], .boolean true)], .integer ⟨7, by decide⟩]

def luaGreetingBytes : Buffer := .ofBytes [0xe0, 0, 0, 0, 1, 0xa1, 0x68, 0xc3, 7] (by decide)

theorem luaGreeting_valid : ∀ v ∈ luaGreeting, v.Valid := by
  simp [luaGreeting, LuaValue.Valid, ValidEntries, LuaValue.key, LuaValue.isNil]

theorem unpackLoop_packLua_greeting : LuaRoundTrips luaGreetingBytes 20 [] luaGreeting :=
  (unpackLoop_packLua_iff luaGreeting luaGreeting_valid luaGreetingBytes 20 [] (by decide)).1
    ⟨by simp [luaGreeting, LuaValue.Survives, SurvivesEntries],
      by simp [luaGreeting, SlotsFit, LuaValue.slots, slotsEntries]⟩

/-- The bytes of the integer -32. -/
def least : Buffer := .ofBytes [0xe0] (by decide)

theorem not_unpackLoop_packLua : ¬∀ values : List LuaValue, (∀ v ∈ values, v.Valid ∧ v.Sized) → ∀ b : Buffer,
    b.bytes = packLua values → ∀ limit, SlotsFit limit values → LuaRoundTrips b limit [] values := by
  intro h
  have hvalues : ∀ v ∈ [LuaValue.integer ⟨-32, by decide⟩], v.Valid ∧ v.Sized := by
    simp [LuaValue.Valid, LuaValue.Sized]
  have hround := h _ hvalues least (by decide) 20 ⟨by decide, trivial⟩
  have hsurvive := (survive_of_luaRoundTrips (by decide) (fun v hv => (hvalues v hv).1) (fun v hv => (hvalues v hv).2)
    hround).1
  exact hsurvive _ List.mem_cons_self rfl

end Gb.Msgpack
