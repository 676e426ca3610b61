import GbServer.TypedLua
/-!
# CodecAgreement — the same value in C++ and in Lua

Whether a C++ program and a Lua script see the same value in the bytes that the other one packed.  The Lua unpacker reads
what a C++ program packed, containers too (`pushesLua_of_crosses`).  The typed unpackers read the scalars that a script
packed; of a table they know the marker, but read its count of four bytes as one of eight, so that they run into the end
of the message (`ec_of_table`).
-/
namespace Gb.Msgpack

open Stateful
open Bytes (toBe)
open FloatBits (binary32 binary64)

/-! ## Scalars -/

mutual

/-- Values that are equal in Lua are packed alike. -/
theorem packStackProxy_normal : ∀ w : LuaValue, packStackProxy w.normal = packStackProxy w
  | .nil           => rfl
  | .boolean _     => rfl
  | .integer _     => rfl
  | .number bits   => by
    change packStackProxy (.ofNumber bits) = packDouble bits.toNat
    rcases packDouble_cases bits with ⟨n, _, hvalue, hpack⟩ | ⟨_, hvalue, _⟩
    · rw [hvalue, hpack, packStackProxy]
    · rw [hvalue, packStackProxy]
  | .string _      => rfl
  | .table entries => by
    rw [LuaValue.normal, packStackProxy, packStackProxy, length_normalEntries, packEntries_normal entries]

theorem packEntries_normal : ∀ entries : List (LuaValue × LuaValue),
    packEntries (normalEntries entries) = packEntries entries
  | []                    => rfl
  | (key, val) :: entries => by
    rw [normalEntries, packEntries, packEntries, packStackProxy_normal key, packStackProxy_normal val,
      packEntries_normal entries]

end

theorem packed_of_corresponds {t : NumType} {value : t.Val} {w : LuaValue} (h : Corresponds (.num t) value w) :
    packStackProxy w = packStackProxy (luaNum t value) := by
  have hnormal : w.normal = (luaNum t value).normal := h
  rw [← packStackProxy_normal w, hnormal, packStackProxy_normal]

/-- No type of integers is wider than those of Lua. -/
theorem wrap_int64 (t : IntType) (n : t.Val) : t.wrap (IntType.int64.wrap n.val).val = n := by
  have hmod : (IntType.int64.wrap n.val).val % IntType.int64.modulus = n.val % IntType.int64.modulus := by
    dsimp only [IntType.wrap]
    by_cases hle : n.val % IntType.int64.modulus ≤ IntType.int64.max
    · rw [if_pos hle, Int.emod_emod]
    · rw [if_neg hle, Int.sub_emod, Int.emod_self, Int.sub_zero, Int.emod_emod, Int.emod_emod]
  have hdvd : t.modulus ∣ IntType.int64.modulus := by cases t <;> decide
  rw [← wrap_emod, ← Int.emod_emod_of_dvd _ hdvd, hmod, Int.emod_emod_of_dvd _ hdvd, wrap_emod, t.wrap_self]

/-- The numbers that come back from Lua as they were: a negative zero is packed there as an integer, and a NaN comes back
quiet. -/
def Exact : (t : NumType) → t.Val → Prop
  | .int _,  _    => True
  | .bool,   _    => True
  | .float,  bits => (bits : BitVec 32) ≠ 0x80000000#32 ∧ binary32.signaling (BitVec.toNat bits) = false
  | .double, bits => (bits : BitVec 64) ≠ 0x8000000000000000#64

section

variable {b : Buffer}

theorem signaling_of_toInt {bits : Nat} {n : Int} (h : binary32.toInt bits = some n) :
    binary32.signaling bits = false := by
  apply decide_eq_false
  intro hnan
  rw [FloatBits.Format.toInt, if_neg (fun hfinite => Nat.lt_asymm hfinite.1 hnan.1)] at h
  cases h

/-- A float that Lua packed, as a double. -/
theorem decodes_luaFloat (bits : BitVec 32) :
    ∃ value : BitVec 32, Decodes b (unpackNumber b .float) (packDouble (widen bits).toNat) value ∧
      (value = bits ↔ Exact .float bits) := by
  rcases packDouble_cases (widen bits) with ⟨n, hn, _, hpack⟩ | ⟨hnone, _, hpack⟩
  · have hint : binary32.toInt bits.toNat = some n.val := (toInt_widen bits).symm.trans hn
    refine ⟨BitVec.ofNat 32 (binary32.ofInt n.val), ?_, ?_⟩
    · rw [hpack]
      exact (decodes_packInt64 n.2.1 n.2.2).number rfl
    · constructor
      · intro heq
        refine ⟨fun hzero => ?_, signaling_of_toInt hint⟩
        -- the integer has lost the sign
        have hval : binary32.toInt bits.toNat = some 0 := by
          rw [hzero]
          exact binary32.toInt_signBit (by decide)
        rw [Option.some.inj (hint.symm.trans hval), binary32.ofInt_zero, hzero] at heq
        exact absurd heq (by decide)
      · rintro ⟨hzero, _⟩
        rw [binary32.ofInt_of_toInt hint bits.isLt fun hz => hzero (BitVec.eq_of_toNat_eq hz), BitVec.ofNat_toNat,
          BitVec.setWidth_eq]
  · refine ⟨BitVec.ofNat 32 (FloatBits.convert binary64 binary32 (widen bits).toNat), ?_, ?_⟩
    · rw [hpack]
      refine (decodes_float64 _ (Bytes.toLe_length 8 _)).number ?_
      have hlt : (widen bits).toNat < 256 ^ 8 := by
        have := (widen bits).isLt
        omega
      rw [Bytes.leNat_toLe, Nat.mod_eq_of_lt hlt]
      rfl
    · rw [narrow_widen_iff]
      refine ⟨fun h => ⟨fun hzero => ?_, h⟩, fun h => h.2⟩
      refine hnone ⟨0, by decide⟩ ?_
      rw [toInt_widen, hzero]
      exact binary32.toInt_signBit (by decide)

theorem decodes_luaDouble (bits : BitVec 64) :
    ∃ value : BitVec 64, Decodes b (unpackNumber b .double) (packDouble bits.toNat) value ∧
      (value = bits ↔ Exact .double bits) := by
  by_cases hzero : bits = 0x8000000000000000#64
  · refine ⟨0#64, ?_, ?_⟩
    · rw [hzero]
      exact decodes_packDouble_negative
    · refine ⟨fun heq => ?_, fun h => absurd hzero h⟩
      rw [← heq] at hzero
      exact absurd hzero (by decide)
  · exact ⟨bits, decodes_packDouble hzero, fun _ => hzero, fun _ => rfl⟩

/-- **A number that Lua packed is read at its type**, as the number that it was if it is one of the exact ones. -/
theorem decodes_luaNum : ∀ (t : NumType) (value : t.Val), ∃ value' : t.Val,
    Decodes b (unpackNum b t) (packStackProxy (luaNum t value)) value' ∧ (value' = value ↔ Exact t value)
  | .int t,  n     => ⟨n, (decodes_packInt64 (IntType.int64.wrap n.val).2.1 (IntType.int64.wrap n.val).2.2).number
    (congrArg some (wrap_int64 t n)), iff_of_true rfl trivial⟩
  | .bool,   value => ⟨value, decodes_packBool value, iff_of_true rfl trivial⟩
  | .float,  bits  => decodes_luaFloat bits
  | .double, bits  => decodes_luaDouble bits

/-! ## Tables -/

/-- A length that goes on where the message ends. -/
theorem readBeLoop_short : ∀ (k out : Nat) {u v : Unpacker} {n : Nat}, u.dataPointer ≤ b.bytes.length →
    b.bytes.length < u.dataPointer + k → readBeLoop b k out u = .ok n v → v.ec = true
  | 0,     _,   _, _, _, hle, hshort, _ => absurd hle (Nat.not_le_of_lt hshort)
  | k + 1, out, u, v, n, hle, hshort, h => by
    obtain ⟨x, r, hdata, h⟩ := bind_eq_ok h
    obtain ⟨_, w, hskip, h⟩ := bind_eq_ok h
    have hpos : r.dataPointer = u.dataPointer := by
      unfold safeData at hdata
      split at hdata
      all_goals
        cases hdata
        rfl
    unfold safeIncremen at hskip
    split at hskip
    · rename_i hnext
      cases hskip
      exact readBeLoop_short k _ (by exact hnext) (by dsimp only; omega) h
    · cases hskip
      exact (((progress b).readBeLoop k _).of_ok h).ec rfl

theorem table_front {entries : List (LuaValue × LuaValue)} (hb : b.bytes = packStackProxy (.table entries)) :
    Format.table.code :: (toBe 4 entries.length ++ packEntries entries) <+: b.bytes.drop 0 :=
  front_of_bytes (by rw [hb, packStackProxy])

/-- **A decoder that reads the count of a table as one of eight bytes sets the error**, where it takes as many entries as
it has read, and no entry from no bytes: the count is at least the number of entries times 2 ^ 32, and the message of an
empty table ends in the middle of it. -/
theorem ec_of_table {entries : List (LuaValue × LuaValue)} {α : Type} {f : Nat → Reader α} {u u' : Unpacker} {a : α}
    (hb : b.bytes = packStackProxy (.table entries)) (hsmall : b.bytes.length < 2 ^ 32) (hu : u.dataPointer = 0)
    (hf : ∀ size, Steps (fun s _ t => Progress b s t) (f size))
    (htaken : ∀ size v, v.dataPointer ≤ b.bytes.length → f size v = .ok a u' → u'.ec = false →
      entries.length ≤ size ∧ size ≤ b.bytes.length)
    (h : (do safeIncremen b 1; f (← readBeUnsigned b 8)) u = .ok a u') : u'.ec = true := by
  cases hec : u'.ec with
  | true  => rfl
  | false =>
    exfalso
    have hle : u.dataPointer ≤ b.bytes.length := hu ▸ Nat.zero_le _
    have hbytes : Format.table.code :: (toBe 4 entries.length ++ packEntries entries) <+: b.bytes.drop u.dataPointer := by
      rw [hu]
      exact table_front hb
    have hmarker : Format.table.code :: (toBe 0 0 ++ (toBe 4 entries.length ++ packEntries entries)) <+:
        b.bytes.drop u.dataPointer := hbytes
    obtain ⟨size, v, _, hv, hrun⟩ := announced_long (by decide) (by decide) hle hmarker h
    have hcount := htaken size v hv hrun hec
    obtain ⟨size', v', hlong, hv', hrun'⟩ := announced_long (n := entries.length) (by decide) (by omega)
      hle hbytes h
    have hcount' := htaken size' v' hv' hrun' hec
    have hempty : entries = [] := List.eq_nil_of_length_eq_zero (by omega)
    have hlen : b.bytes.length = 5 := by
      rw [hb, hempty]
      rfl
    obtain ⟨_, r, hskip, hrest⟩ := bind_eq_ok h
    obtain ⟨count, w, hread, hrest⟩ := bind_eq_ok hrest
    have hr := (((progress b).safeIncremen 1).of_ok hskip).position hle
    rw [safeIncremen, if_pos (by omega)] at hskip
    injection hskip with _ hrpos
    have hone : r.dataPointer = u.dataPointer + 1 := by rw [← hrpos]
    have hw := readBeLoop_short 8 0 hr.2 (by omega) hread
    rw [((hf count).of_ok hrest).ec hw] at hec
    cases hec

theorem unpackIndexed_consumes {α : Type} {m : Reader α} (hm : Steps (fun s _ t => Progress b s t) m) :
    ∀ (count : Nat) (acc result : List α) (u u' : Unpacker), unpackIndexed b m count acc u = .ok result u' →
      u.dataPointer ≤ b.bytes.length → u'.ec = false → u.dataPointer + count ≤ u'.dataPointer
  | 0,         acc, result, u, u', h, _, _ => by
    cases h
    exact Nat.le_refl _
  | count + 1, acc, result, u, u', h, hle, hec => by
    have hb := progress b
    obtain ⟨key, v, hkey, h⟩ := bind_eq_ok h
    obtain ⟨val, w, hval, h⟩ := bind_eq_ok h
    obtain ⟨array, r, hstore, h⟩ := bind_eq_ok h
    have hvw := hm.of_ok hval
    have hwr := (hb.store acc key.val val).of_ok hstore
    have hv := ((hb.unpackNumber (.int .int64)).of_ok hkey).position hle
    have hw := hvw.position hv.2
    have hr := hwr.position hw.2
    have hrest := unpackIndexed_consumes hm count array result r u' h hr.2 hec
    rcases (unpackNumber_consumes u.dataPointer (.int .int64)).ok ⟨rfl, hle⟩ hkey with hpast | hfail
    · have := hpast.1
      omega
    · rw [((hb.unpackIndexed hm count array).of_ok h).ec (hwr.ec (hvw.ec hfail))] at hec
      cases hec

/-- No vector is read from a table with as many entries. -/
theorem unpackArray_table {entries : List (LuaValue × LuaValue)} {α : Type} {m : Reader α} {init : α} {array : List α}
    {u' : Unpacker} (hm : Steps (fun s _ t => Progress b s t) m) (hb : b.bytes = packStackProxy (.table entries))
    (hsmall : b.bytes.length < 2 ^ 32) (hlen : array.length = entries.length)
    (h : unpackArray b true init m {} = .ok array u') : u'.ec = true := by
  have hprogress := progress b
  unfold unpackArray at h
  rw [run_front (table_front hb)] at h
  obtain ⟨_, v, hnote, h⟩ := bind_eq_ok h
  cases hnote
  rw [if_neg (by decide), if_neg (by decide), if_neg (by decide), if_pos rfl] at h
  refine ec_of_table (f := fun count => do
    announce b true count
    unpackIndexed b m count (List.replicate count init)) hb hsmall rfl (fun count => ?_) (fun count v hv hrun hec => ?_) h
  · exact hprogress.bind (hprogress.announce true count) fun _ => hprogress.unpackIndexed hm count _
  · obtain ⟨_, w, hannounce, hrun⟩ := bind_eq_ok hrun
    have hw := ((hprogress.announce true count).of_ok hannounce).position hv
    have hend := ((hprogress.unpackIndexed hm count _).of_ok hrun).position hw.2
    have hcount := unpackIndexed_length count _ array w u' hrun
    have hmoved := unpackIndexed_consumes hm count _ array w u' hrun hw.2 hec
    rw [List.length_replicate] at hcount
    omega

/-- No map is, where an entry takes a byte. -/
theorem unpackMap_table {entries : List (LuaValue × LuaValue)} {α β : Type} {keys : Keys α} {mk : Reader α}
    {mv : Reader β} {unordered : Bool} {map : KeyedMap keys β} {u' : Unpacker} (hmk : Steps (fun s _ t => Progress b s t) mk)
    (hmv : Steps (fun s _ t => Progress b s t) mv)
    (hmoves : ∀ p, MovesOrFails b p (do let key ← mk; let val ← mv; return (key, val)))
    (hb : b.bytes = packStackProxy (.table entries)) (hsmall : b.bytes.length < 2 ^ 32)
    (hlen : map.val.length = entries.length) (h : unpackMap b keys unordered mk mv {} = .ok map u') : u'.ec = true := by
  have hprogress := progress b
  unfold unpackMap at h
  rw [run_front (table_front hb)] at h
  obtain ⟨_, v, hnote, h⟩ := bind_eq_ok h
  cases hnote
  rw [if_neg (by decide), if_pos (.inr rfl)] at h
  refine ec_of_table (f := unpackCountedMap b keys unordered mk mv) hb hsmall rfl
    (fun count => hprogress.unpackCountedMap hmk hmv unordered count) (fun count v hv hrun hec => ?_) h
  obtain ⟨_, w, hannounce, hrun⟩ := bind_eq_ok hrun
  have hw := ((hprogress.announce unordered count).of_ok hannounce).position hv
  have hend := ((hprogress.unpackEntries hmk hmv count _).of_ok hrun).position hw.2
  have hcount := (unpackEntries_length count _ map w u' hrun).1
  have hmoved := unpackEntries_consumes hmk hmv hmoves count _ map w u' hrun hw.2 hec
  have hnone : (KeyedMap.empty : KeyedMap keys β).val.length = 0 := rfl
  omega

end

/-! ## Agreement -/

/-- Values that are the same but for the order of the entries of maps. -/
def SameValue : (t : Ty) → t.Val → t.Val → Prop
  | .vector t,  array, array' => List.Forall₂ (SameValue t) array array'
  | .map _ k m, map,   map'   => ∃ entries,
    List.Forall₂ (fun e e' => SameValue k e.1 e'.1 ∧ SameValue m e.2 e'.2) map.val entries ∧ entries.Perm map'.val
  | _,          value, value' => value = value'

/-- A message is unpacked to this value, with the error clear. -/
def DecodesTyped (b : Buffer) (t : Ty) (v : t.Val) : Prop :=
  ∃ value u, unpack b t = .ok value u ∧ u.ec = false ∧ SameValue t value v

/-- One message of a value, from C++, and one of the value that it corresponds to, from Lua, are both read on the other
side as what they were packed from. -/
structure CodecsAgree (b b' : Buffer) (limit : Nat) (stack : List LuaValue) (t : Ty) (v : t.Val) : Prop where
  pushes  : PushesLua b limit stack t v
  decodes : DecodesTyped b' t v

/-- The values that both sides read as what they were packed from. -/
def Shared : (t : Ty) → t.Val → Prop
  | .num t,  value => Crosses (.num t) value ∧ Exact t value
  | .string, str   => List.length str ≤ 255
  | _,       _     => False

/-- The entries of a map take a byte. -/
def EntryConsumes : Ty → Prop
  | .map _ k m => (Consumes k || Consumes m) = true
  | _          => True

section

variable {b : Buffer} {limit : Nat} {stack : List LuaValue}

/-- What a message pushes is what is read at its front. -/
theorem readLua_of_pushes {t : Ty} {v : t.Val} (h : PushesLua b limit stack t v) :
    b.bytes ≠ [] ∧ ∃ w u, readLua b (b.bytes.length + 1) (limit - stack.length) {} = .ok w u ∧ Corresponds t v w := by
  obtain ⟨rounds, s, w, hrun, hstack, hw⟩ := h
  have hlen : s.stack.length = stack.length + (0 + 1) := by rw [hstack, List.length_cons]
  obtain ⟨hempty, _, r, w', hread, hr, _, hsuffix⟩ := unpackLoop_first (n := 0) hrun hlen
  refine ⟨fun hnil => of_decide_eq_false hempty (by rw [hnil]; exact Nat.le_refl 0), w', r.unpacker, hread, ?_⟩
  have heq : r.stack = s.stack := hsuffix.eq_of_length (by rw [hr, hlen, List.length_cons])
  rw [hr, hstack] at heq
  rw [(List.cons.inj heq).1]
  exact hw

theorem not_corresponds_table : ∀ (t : NumType) (value : t.Val) (entries : List (LuaValue × LuaValue)),
    ¬Corresponds (.num t) value (.table entries)
  | .int _,  _,    _, h => by cases h
  | .bool,   _,    _, h => by cases h
  | .float,  bits, _, h => by
    have hnumber : LuaValue.table _ = LuaValue.ofNumber (widen bits) := h
    rcases packDouble_cases (widen bits) with ⟨_, _, hvalue, _⟩ | ⟨_, hvalue, _⟩
    all_goals
      rw [hvalue] at hnumber
      cases hnumber
  | .double, bits, _, h => by
    have hnumber : LuaValue.table _ = LuaValue.ofNumber bits := h
    rcases packDouble_cases bits with ⟨_, _, hvalue, _⟩ | ⟨_, hvalue, _⟩
    all_goals
      rw [hvalue] at hnumber
      cases hnumber

/-- A number that is -32 is packed as the marker of a table. -/
theorem packNum_least : ∀ {t : NumType} {value : t.Val}, ¬Crosses (.num t) value → packNum t value = packInt64 (-32)
  | .int t,  n,    h => by
    have hn : n.val = -32 := Decidable.not_not.1 h
    rcases packInt_cases t n with ⟨m, hm, hpack⟩ | ⟨m, hm, _⟩
    · rw [packNum, hpack, hm, hn]
    · have hlo : 0 ≤ m.val := m.2.1
      omega
  | .bool,   _,    h => absurd trivial h
  | .float,  bits, h => by
    have hbits : binary32.toInt (BitVec.toNat bits) = some (-32) := Decidable.not_not.1 h
    rcases packFloat_cases bits with ⟨n, hn, _, hpack⟩ | ⟨hvalue, _⟩
    · rw [packNum, hpack, ← Option.some.inj (hbits.symm.trans hn)]
    · unfold pushedFloat at hvalue
      rw [hbits] at hvalue
      dsimp only at hvalue
      rw [if_pos (by decide)] at hvalue
      cases hvalue
  | .double, bits, h => by
    have hbits : binary64.toInt (BitVec.toNat bits) = some (-32) := Decidable.not_not.1 h
    rcases packDouble_cases bits with ⟨n, hn, _, hpack⟩ | ⟨hnone, _, _⟩
    · rw [packNum, hpack, ← Option.some.inj (hbits.symm.trans hn)]
    · exact absurd hbits (hnone ⟨-32, by decide⟩)

theorem crosses_of_pushes {t : NumType} {value : t.Val} (hb : b.bytes = packNum t value)
    (h : PushesLua b limit stack (.num t) value) : Crosses (.num t) value := by
  by_contra hleast
  obtain ⟨_, w, u, hread, hw⟩ := readLua_of_pushes h
  obtain ⟨entries, rfl⟩ := readLua_least rfl (front_of_bytes (hb.trans (packNum_least hleast))) hread
  exact not_corresponds_table t value entries hw

theorem short_of_pushes {str : List UInt8} (hb : b.bytes = packString str) (h : PushesLua b limit stack .string str) :
    str.length ≤ 255 := by
  obtain ⟨hne, w, u, hread, hw⟩ := readLua_of_pushes h
  by_contra hlong
  by_cases hsize : str.length < 2 ^ 32
  · have hempty : LuaValue.string str = .string [] :=
      hw.symm.trans (readLua_long (by omega) hsize (Nat.zero_le _) (front_of_bytes hb) hread)
    injection hempty with hstr
    rw [hstr] at hlong
    exact hlong (Nat.zero_le 255)
  · -- no length field holds the length
    apply hne
    rw [hb]
    unfold packString
    dsimp only
    rw [if_neg (by omega), if_neg (by omega), if_neg (by omega), if_neg (by omega)]

theorem exact_of_decodes {t : NumType} {value : t.Val} {w : LuaValue} (hw : Corresponds (.num t) value w)
    (hb : b.bytes = packStackProxy w) (h : DecodesTyped b (.num t) value) : Exact t value := by
  obtain ⟨value', u, hrun, _, hsame⟩ := h
  obtain ⟨read, hread, hiff⟩ := decodes_luaNum (b := b) t value
  have heq : value' = read :=
    (hread.of_run (Nat.zero_le _) (front_of_bytes (hb.trans (packed_of_corresponds hw))) hrun).1
  exact hiff.1 (heq ▸ hsame)

theorem decodesTyped_of_decodes {t : Ty} {v : t.Val} {w : LuaValue} (hb : b.bytes = packStackProxy w)
    (hsame : SameValue t v v) (h : Decodes b (unpackType b t) (packStackProxy w) v) : DecodesTyped b t v := by
  obtain ⟨u, hu, _, hec⟩ := roundTrips_of_decodes (hb ▸ h)
  exact ⟨v, u, hu, hec, hsame⟩

/-- **No container is read by the typed unpackers as what Lua packed**, where no message has 2 ^ 32 bytes. -/
theorem not_decodes_container {w : LuaValue} (hb : b.bytes = packStackProxy w) (hsmall : b.bytes.length < 2 ^ 32) :
    (∀ (t : Ty) (array : List t.Val), Corresponds (.vector t) array w → ¬DecodesTyped b (.vector t) array) ∧
    ∀ (unordered : Bool) (k m : Ty) (map : KeyedMap (k.keys unordered) m.Val), EntryConsumes (.map unordered k m) →
      Corresponds (.map unordered k m) map w → ¬DecodesTyped b (.map unordered k m) map := by
  have hprogress := progress b
  constructor
  · rintro t array ⟨values, entries, hvalues, hperm, rfl⟩ ⟨value, u, hrun, hec, hsame⟩
    have hsame : List.Forall₂ (SameValue t) value array := hsame
    have hlen : List.length value = entries.length := by
      rw [hsame.length_eq, hvalues.length_eq, hperm.length_eq, length_sequenceFrom]
    rw [unpackArray_table (hprogress.unpackType t) hb hsmall hlen hrun] at hec
    cases hec
  · rintro unordered k m map htakes ⟨items, entries, hitems, hperm, rfl⟩ ⟨value, u, hrun, hec, read, hread, hmap⟩
    have hlen : value.val.length = entries.length := by
      rw [hread.length_eq, hmap.length_eq, hitems.length_eq, hperm.length_eq]
    rw [unpackMap_table (hprogress.unpackType k) (hprogress.unpackType m)
      (fun p => unpackType_consumes p (.pair k m) htakes) hb hsmall hlen hrun] at hec
    cases hec

end

theorem codecsAgree_of_shared {b b' : Buffer} {limit : Nat} {stack : List LuaValue} {w : LuaValue} :
    ∀ {t : Ty} {v : t.Val}, Corresponds t v w → b.bytes = pack t v → b'.bytes = packStackProxy w → Shared t v →
      stack.length < limit → CodecsAgree b b' limit stack t v
  | .num t,     value, hw, hb, hb', h, hfree => by
    refine ⟨pushesLua_of_crosses hb h.1 (Nat.sub_pos_of_lt hfree), ?_⟩
    obtain ⟨read, hread, hiff⟩ := decodes_luaNum (b := b') t value
    rw [hiff.2 h.2, ← packed_of_corresponds hw] at hread
    exact decodesTyped_of_decodes hb' rfl hread
  | .string,    str,   hw, hb, hb', h, hfree => by
    refine ⟨pushesLua_of_crosses hb h (Nat.sub_pos_of_lt hfree), ?_⟩
    have hstr : w = .string str := hw
    refine decodesTyped_of_decodes hb' rfl ?_
    rw [hstr]
    exact decodes_packString h
  | .vector _,  _,     _,  _,  _,   h, _     => h.elim
  | .map _ _ _, _,     _,  _,  _,   h, _     => h.elim
  | .nullptr,   _,     _,  _,  _,   h, _     => h.elim
  | .enum _,    _,     _,  _,  _,   h, _     => h.elim
  | .binary,    _,     _,  _,  _,   h, _     => h.elim
  | .list _,    _,     _,  _,  _,   h, _     => h.elim
  | .array _ _, _,     _,  _,  _,   h, _     => h.elim
  | .unit,      _,     _,  _,  _,   h, _     => h.elim
  | .pair _ _,  _,     _,  _,  _,   h, _     => h.elim

theorem shared_of_codecsAgree {b b' : Buffer} {limit : Nat} {stack : List LuaValue} {w : LuaValue} :
    ∀ {t : Ty} {v : t.Val}, Corresponds t v w → b.bytes = pack t v → b'.bytes = packStackProxy w →
      b'.bytes.length < 2 ^ 32 → EntryConsumes t → CodecsAgree b b' limit stack t v → Shared t v
  | .num _,     _,     hw, hb, hb', _,      _,      h =>
    ⟨crosses_of_pushes hb h.pushes, exact_of_decodes hw hb' h.decodes⟩
  | .string,    _,     _,  hb, _,   _,      _,      h => short_of_pushes hb h.pushes
  | .vector t,  array, hw, _,  hb', hsmall, _,      h => (not_decodes_container hb' hsmall).1 t array hw h.decodes
  | .map _ k m, map,   hw, _,  hb', hsmall, htakes, h =>
    (not_decodes_container hb' hsmall).2 _ k m map htakes hw h.decodes
  | .nullptr,   _,     hw, _,  _,   _,      _,      _ => hw.elim
  | .enum _,    _,     hw, _,  _,   _,      _,      _ => hw.elim
  | .binary,    _,     hw, _,  _,   _,      _,      _ => hw.elim
  | .list _,    _,     hw, _,  _,   _,      _,      _ => hw.elim
  | .array _ _, _,     hw, _,  _,   _,      _,      _ => hw.elim
  | .unit,      _,     hw, _,  _,   _,      _,      _ => hw.elim
  | .pair _ _,  _,     hw, _,  _,   _,      _,      _ => hw.elim

/-- **The two sides agree on the values that are shared, where Lua has a slot for one; and in messages of fewer than
2 ^ 32 bytes, and where the entries of a map take a byte, on no others.** -/
theorem codecsAgree_iff (t : Ty) (v : t.Val) (w : LuaValue) (hw : Corresponds t v w) (b b' : Buffer) (limit : Nat)
    (stack : List LuaValue) (hb : b.bytes = pack t v) (hb' : b'.bytes = packStackProxy w) :
    (Shared t v ∧ stack.length < limit → CodecsAgree b b' limit stack t v) ∧
    (b'.bytes.length < 2 ^ 32 → EntryConsumes t → CodecsAgree b b' limit stack t v →
      Shared t v ∧ stack.length < limit) := by
  refine ⟨fun h => codecsAgree_of_shared hw hb hb' h.1 h.2, fun hsmall htakes h => ?_⟩
  obtain ⟨_, _, _, hread, _⟩ := readLua_of_pushes h.pushes
  exact ⟨shared_of_codecsAgree hw hb hb' hsmall htakes h, Nat.lt_of_sub_pos (readLua_slot hread)⟩

/-- A `uint8_t` of 200, which Lua packs as an `int16_t`. -/
theorem codecsAgree_200 : CodecsAgree (.ofBytes [0xcc, 0xc8] (by decide))
    (.ofBytes [0xd1, 0x00, 0xc8] (by decide)) 20 [] (.num (.int .uint8))
    (IntType.uint8.wrap 200) :=
  (codecsAgree_iff (.num (.int .uint8)) (IntType.uint8.wrap 200) (.integer (IntType.int64.wrap 200)) rfl
    (.ofBytes [0xcc, 0xc8] (by decide))
    (.ofBytes [0xd1, 0x00, 0xc8] (by decide)) 20 [] (by decide) (by decide)).1
    ⟨⟨by change (200 : Int) ≠ -32; decide, trivial⟩, by decide⟩

/-- A vector of one integer, and the sequence of it. -/
def single : List IntType.int32.Val := [IntType.int32.wrap 1]

def singleTable : LuaValue := .table (sequenceFrom 0 [.integer (IntType.int64.wrap 1)])

theorem single_corresponds : Corresponds (.vector (.num (.int .int32))) single singleTable :=
  ⟨_, _, .cons rfl .nil, .refl _, rfl⟩

theorem singleTable_valid : singleTable.Valid := by
  simp [singleTable, sequenceFrom, LuaValue.Valid, ValidEntries, LuaValue.key, LuaValue.isNil]

theorem not_codecsAgree : ¬∀ (t : Ty) (v : t.Val) (w : LuaValue), Corresponds t v w → w.Valid → ∀ b b' : Buffer,
    b.bytes = pack t v → b'.bytes = packStackProxy w → CodecsAgree b b' 20 [] t v := by
  intro h
  have hagree := h (.vector (.num (.int .int32))) single singleTable single_corresponds singleTable_valid
    (.ofBytes [0x91, 0x01] (by decide))
    (.ofBytes [0xe0, 0, 0, 0, 1, 1, 1] (by decide)) (by decide) (by decide)
  exact shared_of_codecsAgree single_corresponds (by decide) (by decide) (by decide) trivial hagree

end Gb.Msgpack
