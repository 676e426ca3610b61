import GbServer.MsgpackDecodes
/-!
# MsgpackRoundTrip — which values come back from their bytes

The packer and the unpacker agree on every marker and on the lengths of one byte; a length of two or four bytes is read
as one of eight.  So what is short enough comes back (`decodes_pack`), and nothing else does (`survives_of_unpack`): the
eight bytes are a number no message is long enough for.

Integers come back at every type that has them, not only at their own (`unpack_packInt`).
-/
namespace Gb.Msgpack

open Stateful
open Bytes (toBe beNat)
open FloatBits (binary32 binary64)

/-- A container whose size is packed in the marker, with elements that survive. -/
def Short {α : Type} (survives : α → Prop) (array : List α) : Prop := array.length ≤ 15 ∧ ∀ v ∈ array, survives v

/-- The values whose lengths are packed in the marker or in one byte; an enumeration is packed as an `int32_t`, and the
negative zero as an integer. -/
def Survives : (t : Ty) → t.Val → Prop
  | .num (.int _), _     => True
  | .num .bool,    _     => True
  | .num .float,   bits  => (bits : BitVec 32) ≠ 0x80000000#32
  | .num .double,  bits  => (bits : BitVec 64) ≠ 0x8000000000000000#64
  | .nullptr,      _     => True
  | .enum t,       value => t.wrap (IntType.int32.wrap value.val).val = value
  | .string,       str   => (str : List UInt8).length ≤ 255
  | .binary,       data  => (data : List UInt8).length < 255
  | .vector t,     array => Short (Survives t) array
  | .list t,       array => Short (Survives t) array
  | .array _ t,    array => Short (Survives t) array.val
  | .map _ k v,    map   => Short (fun e : k.Val × v.Val => Survives k e.1 ∧ Survives v e.2) map.val
  | .unit,         _     => True
  | .pair s t,     value => Survives s value.1 ∧ Survives t value.2

section

variable {b : Buffer}

theorem decodes_packFloat {bits : BitVec 32} (h : bits ≠ 0x80000000#32) :
    Decodes b (unpackNumber b .float) (packFloat bits.toNat) bits := by
  have hlt := bits.isLt
  unfold packFloat
  have hcopy : Decodes b (unpackNumber b .float) (Format.float32.code :: Bytes.toLe 4 bits.toNat) bits := by
    refine (decodes_float32 _ (Bytes.toLe_length 4 _)).number ?_
    rw [Bytes.leNat_toLe, Nat.mod_eq_of_lt (by omega : bits.toNat < 256 ^ 4)]
    simp [NumType.cast]
  split
  · rename_i i hi
    split
    · rename_i hrange
      refine (decodes_packInt32 hrange.1 hrange.2).number ?_
      have hbits := binary32.ofInt_of_toInt hi (by exact hlt) fun hz => h (BitVec.eq_of_toNat_eq hz)
      simp [NumType.cast, hbits]
    · exact hcopy
  · exact hcopy

theorem decodes_packDouble {bits : BitVec 64} (h : bits ≠ 0x8000000000000000#64) :
    Decodes b (unpackNumber b .double) (packDouble bits.toNat) bits := by
  have hlt := bits.isLt
  unfold packDouble
  have hcopy : Decodes b (unpackNumber b .double) (Format.float64.code :: Bytes.toLe 8 bits.toNat) bits := by
    refine (decodes_float64 _ (Bytes.toLe_length 8 _)).number ?_
    rw [Bytes.leNat_toLe, Nat.mod_eq_of_lt (by omega : bits.toNat < 256 ^ 8)]
    simp [NumType.cast]
  split
  · rename_i i hi
    split
    · rename_i hrange
      refine (decodes_packInt64 hrange.1 hrange.2).number ?_
      have hbits := binary64.ofInt_of_toInt hi (by exact hlt) fun hz => h (BitVec.eq_of_toNat_eq hz)
      simp [NumType.cast, hbits]
    · exact hcopy
  · exact hcopy

/-- The negative zero is packed as an integer, and comes back without its sign. -/
theorem decodes_packFloat_negative :
    Decodes b (unpackNumber b .float) (packFloat (0x80000000#32).toNat) (0#32 : BitVec 32) := by
  have hint : binary32.toInt (0x80000000#32).toNat = some 0 := binary32.toInt_signBit (by decide)
  have hpack : packFloat (0x80000000#32).toNat = packInt32 0 := by
    rw [packFloat, hint]
    rfl
  rw [hpack]
  refine (decodes_packInt32 (by decide) (by decide)).number ?_
  rw [NumType.cast, binary32.ofInt_zero]

theorem decodes_packDouble_negative :
    Decodes b (unpackNumber b .double) (packDouble (0x8000000000000000#64).toNat) (0#64 : BitVec 64) := by
  have hint : binary64.toInt (0x8000000000000000#64).toNat = some 0 := binary64.toInt_signBit (by decide)
  have hpack : packDouble (0x8000000000000000#64).toNat = packInt64 0 := by
    rw [packDouble, hint]
    rfl
  rw [hpack]
  refine (decodes_packInt64 (by decide) (by decide)).number ?_
  rw [NumType.cast, binary64.ofInt_zero]

/-- **A value that survives is decoded as it was packed.** -/
theorem decodes_pack : ∀ (t : Ty) (v : t.Val), Survives t v → Decodes b (unpackType b t) (pack t v) v
  | .num (.int t), n, _ => (decodes_packInt t n).number (congrArg some (t.wrap_self n))
  | .num .bool,    value, _ => decodes_packBool value
  | .num .float,   bits, h => decodes_packFloat h
  | .num .double,  bits, h => decodes_packDouble h
  | .nullptr,      _, _ => decodes_packNil
  | .enum t,       value, h => by
    have hint := (decodes_packInt (b := b) .int32 (IntType.int32.wrap value.val)).number
      (t := .int .int32) (congrArg some (IntType.int32.wrap_self _))
    have hval := hint.map fun v : IntType.int32.Val => t.wrap v.val
    rw [show t.wrap (IntType.int32.wrap value.val).val = value from h] at hval
    exact hval
  | .string,       str, h => decodes_packString h
  | .binary,       data, h => decodes_packBinary h
  | .vector t,     array, h => decodes_packArray true t.init h.1 fun v hv => decodes_pack t v (h.2 v hv)
  | .list t,       array, h => decodes_packArray false t.init h.1 fun v hv => decodes_pack t v (h.2 v hv)
  | .array size t, array, h => decodes_packStdarray t.init array (array.2 ▸ h.1) fun v hv => decodes_pack t v (h.2 v hv)
  | .map unordered k v, map, h =>
    decodes_packMap unordered map h.1 fun e he => ⟨decodes_pack k e.1 (h.2 e he).1, decodes_pack v e.2 (h.2 e he).2⟩
  | .unit,         _, _ => .pure ()
  | .pair s t,     value, h => by
    have hsnd := (decodes_pack t value.2 h.2).map fun snd => (value.1, snd)
    exact (decodes_pack s value.1 h.1).bind hsnd

/-! ## What a decoder consumes -/

/-- Past a position, or with the error set. -/
def Moved (b : Buffer) (p : Nat) (u : Unpacker) : Prop := Past b p u ∨ u.ec = true

/-- What a decoder does that returns from this position, also from the end. -/
def MovesOrFails (b : Buffer) (p : Nat) {α : Type} (m : Reader α) : Prop :=
  Hoare (fun u => u.dataPointer = p ∧ p ≤ b.bytes.length) m (fun _ => Moved b p) fun _ => True

namespace MovesOrFails

variable {p : Nat} {α β : Type} {m n : Reader α} {f : α → Reader β}

theorem bind (hm : MovesOrFails b p m) (hf : ∀ a, Steps (fun s _ t => Progress b s t) (f a)) :
    MovesOrFails b p (m >>= f) := by
  refine Hoare.bind hm fun a => Hoare.of_steps (hf a) (fun s _ t hs hst => ?_) fun _ _ _ _ _ => trivial
  rcases hs with hs | hs
  · exact .inl (hs.of_progress hst)
  · exact .inr (hst.ec hs)

theorem front {f : UInt8 → Reader β} (hf : ∀ byte, MovesOrFails b p (f byte)) :
    MovesOrFails b p (safeData b >>= f) := by
  refine Hoare.bind (Q := fun _ (u : Unpacker) => u.dataPointer = p ∧ p ≤ b.bytes.length) (fun u hu => ?_) hf
  unfold safeData
  cases b.bytes[u.dataPointer]? with
  | some _ => exact hu
  | none   => exact hu

theorem marker {e : Event} (hm : MovesOrFails b p m) : MovesOrFails b p (note e >>= fun _ => m) := fun _ hu => hm _ hu

theorem ite {c : Prop} [Decidable c] (hm : MovesOrFails b p m) (hn : MovesOrFails b p n) :
    MovesOrFails b p (if c then m else n) := Hoare.ite (fun _ => hm) fun _ => hn

theorem safeIncremen : MovesOrFails b p (Msgpack.safeIncremen b 1) := by
  rintro u ⟨rfl, hle⟩
  unfold Msgpack.safeIncremen
  by_cases hlt : u.dataPointer + 1 ≤ b.bytes.length
  · rw [if_pos hlt]
    exact .inl ⟨Nat.lt_succ_self _, hlt⟩
  · rw [if_neg hlt]
    exact .inr rfl

theorem incremen (hm : Steps (fun s _ t => Progress b s t) m) :
    MovesOrFails b p (Msgpack.safeIncremen b 1 >>= fun _ => m) := safeIncremen.bind fun _ => hm

theorem fails (hm : Steps (fun s _ t => Progress b s t) m) : MovesOrFails b p (setError >>= fun _ => m) := by
  refine Hoare.bind (Q := fun _ (u : Unpacker) => u.ec = true) (fun _ _ => ?_) fun _ =>
    Hoare.of_steps hm (fun _ _ _ hs hst => .inr (hst.ec hs)) fun _ _ _ _ _ => trivial
  exact (rfl : true = true)

/-- The second of two decoders, wherever the first one leaves off. -/
theorem after (hm : Steps (fun s _ t => Progress b s t) m) (hf : ∀ a q, MovesOrFails b q (f a)) :
    MovesOrFails b p (m >>= f) := by
  rintro u ⟨rfl, hle⟩
  have hsteps := hm u
  cases hmu : m u with
  | ok a r    =>
    rw [hmu] at hsteps
    obtain ⟨hge, hend⟩ := hsteps.position hle
    have hmoved := hf a r.dataPointer r ⟨rfl, hend⟩
    rw [bind_of_ok hmu]
    cases hfr : f a r with
    | ok c t    =>
      rw [hfr] at hmoved
      exact hmoved.imp_left fun h => ⟨Nat.lt_of_le_of_lt hge h.1, h.2⟩
    | error e t => exact trivial
  | error e r =>
    rw [bind_of_error hmu]
    exact trivial

end MovesOrFails

theorem readNumber_consumes (p : Nat) : MovesOrFails b p (readNumber b) := by
  have hb := progress b
  refine .front fun byte => .marker ?_
  refine .ite (.incremen (hb.pure _)) (.ite (.incremen (hb.pure _)) ?_)
  iterate 4 refine .ite (.incremen (hb.bind (hb.readBeUnsigned _) fun _ => hb.pure _)) ?_
  iterate 4 refine .ite (.incremen (hb.bind (hb.readBeSigned _ _) fun _ => hb.pure _)) ?_
  iterate 2 refine .ite (.incremen (hb.bind (hb.copyFloat _) fun _ => hb.bind (hb.safeIncremen _) fun _ => hb.pure _)) ?_
  exact .fails (hb.pure none)

theorem unpackNumber_consumes (p : Nat) (t : NumType) : MovesOrFails b p (unpackNumber b t) := by
  have hb := progress b
  refine (readNumber_consumes p).bind fun x => ?_
  cases x with
  | none   => exact hb.pure _
  | some x =>
    refine hb.bind (hb.cast x t) fun _ => ?_
    cases t.cast x with
    | none     => exact hb.undefined _
    | some val => exact hb.pure val

theorem unpackArray_consumes (p : Nat) {α : Type} (indexed : Bool) (init : α) {m : Reader α}
    (hm : Steps (fun s _ t => Progress b s t) m) : MovesOrFails b p (unpackArray b indexed init m) := by
  have hb := progress b
  have hcounted := fun count => hb.unpackCounted hm indexed count
  refine .front fun byte => .marker ?_
  refine .ite (.incremen (hcounted _)) ?_
  iterate 2 refine .ite (.incremen (hb.bind (hb.readBeUnsigned 8) hcounted)) ?_
  refine .ite (.incremen (hb.bind (hb.readBeUnsigned 8) fun count => hb.bind (hb.announce indexed count) fun _ => ?_))
    (.fails (hb.pure []))
  exact Steps.ite (hb.unpackIndexed hm count _) (hb.pure _)

/-- The types whose decoders always consume, or set the error: not those of nothing but empty structs, and not maps. -/
def Consumes : Ty → Bool
  | .map _ _ _ => false
  | .unit      => false
  | .pair s t  => Consumes s || Consumes t
  | _          => true

theorem unpackType_consumes (p : Nat) : ∀ t : Ty, Consumes t = true → MovesOrFails b p (unpackType b t)
  | .num (.int t),  _ => unpackNumber_consumes p _
  | .num .bool,     _ => by
    have hb := progress b
    have hfound : ∀ byte (value : Bool), MovesOrFails b p (do note (.marker .bool byte); safeIncremen b 1; return value) :=
      fun byte value => .marker (.incremen (hb.pure value))
    exact .front fun byte => .ite (hfound byte false) (.front fun byte => .ite (hfound byte true) (unpackNumber_consumes p _))
  | .num .float,    _ => unpackNumber_consumes p _
  | .num .double,   _ => unpackNumber_consumes p _
  | .nullptr,       _ => fun u hu =>
    MovesOrFails.safeIncremen { u with log := .marker .nil ((b.bytes[u.dataPointer]?).getD 0) :: u.log } hu
  | .enum t,        _ => (unpackNumber_consumes p _).bind fun _ => (progress b).pure _
  | .string,        _ => by
    have hb := progress b
    refine .front fun byte => .marker (.ite (.incremen (hb.takeBytes _)) ?_)
    iterate 3 refine .ite (.incremen (hb.bind (hb.readBeUnsigned _) hb.takeBytes)) ?_
    exact .fails (hb.pure [])
  | .binary,        _ => by
    have hb := progress b
    refine .front fun byte => .marker ?_
    iterate 3 refine .ite (.incremen (hb.bind (hb.readBeUnsigned _) hb.takeBytes)) ?_
    exact .fails (hb.pure [])
  | .vector t,      _ => unpackArray_consumes p true t.init ((progress b).unpackType t)
  | .list t,        _ => unpackArray_consumes p false t.init ((progress b).unpackType t)
  | .array size t,  _ =>
    (unpackArray_consumes p true t.init ((progress b).unpackType t)).bind fun vec => (progress b).copyOut size t.init vec
  | .pair s t,      h => by
    have hb := progress b
    cases hs : Consumes s with
    | true  =>
      exact (unpackType_consumes p s hs).bind fun _ => hb.bind (hb.unpackType t) fun _ => hb.pure _
    | false =>
      have ht : Consumes t = true := by rwa [Consumes, hs, Bool.false_or] at h
      exact .after (hb.unpackType s) fun fst q => (unpackType_consumes q t ht).bind fun snd => hb.pure (fst, snd)

/-! ## Long lengths -/

theorem readBeLoop_ok : ∀ (k out : Nat) (u : Unpacker), ∃ n v, readBeLoop b k out u = .ok n v ∧ out * 256 ^ k ≤ n
  | 0,     out, u => ⟨out, u, rfl, by simp⟩
  | k + 1, out, u => by
    have hdata : ∃ x v, safeData b u = .ok x v := by
      unfold safeData
      cases b.bytes[u.dataPointer]? with
      | some x => exact ⟨x, _, rfl⟩
      | none   => exact ⟨0, _, rfl⟩
    have hskip : ∀ v, ∃ w, safeIncremen b 1 v = .ok () w := fun v => by
      unfold safeIncremen
      split <;> exact ⟨_, rfl⟩
    obtain ⟨x, v, hx⟩ := hdata
    obtain ⟨w, hw⟩ := hskip v
    obtain ⟨n, t, hn, hle⟩ := readBeLoop_ok k (out * 256 + x.toNat) w
    refine ⟨n, t, ?_, Nat.le_trans ?_ hle⟩
    · rw [readBeLoop, bind_of_ok hx, bind_of_ok hw, hn]
    · rw [Nat.pow_succ', ← Nat.mul_assoc]
      exact Nat.mul_le_mul_right _ (Nat.le_add_right _ _)

theorem readBeLoop_add (j : Nat) : ∀ (k out : Nat) (u : Unpacker),
    readBeLoop b (k + j) out u = (readBeLoop b k out >>= readBeLoop b j) u
  | 0,     out, u => by
    rw [Nat.zero_add]
    rfl
  | k + 1, out, u => by
    rw [Nat.succ_add, readBeLoop, readBeLoop, bind_assoc]
    refine congrFun (congrArg _ (funext fun x => ?_)) u
    rw [bind_assoc]
    exact congrArg _ (funext fun _ => funext fun v => readBeLoop_add j k _ v)

/-- A length of `k` bytes is the front of the eight that are read. -/
theorem readBeUnsigned_long {k n : Nat} (hk : k ≤ 8) (hn : n < 256 ^ k) {rest : List UInt8} {u : Unpacker}
    (hle : u.dataPointer ≤ b.bytes.length) (hu : toBe k n ++ rest <+: b.bytes.drop u.dataPointer) :
    ∃ size v, readBeUnsigned b 8 u = .ok size v ∧ n * 256 ^ (8 - k) ≤ size := by
  have hfront : toBe k n <+: b.bytes.drop u.dataPointer := (List.prefix_append _ _).trans hu
  have hread : Decodes b (readBeUnsigned b k) (toBe k n) n := by
    have h := Decodes.readBeUnsigned (b := b) (toBe k n)
    rwa [Bytes.toBe_length, Bytes.beNat_toBe, Nat.mod_eq_of_lt hn] at h
  obtain ⟨v, hv, _, _⟩ := hread u hle hfront
  obtain ⟨size, w, hw, hsize⟩ := readBeLoop_ok (b := b) (8 - k) n v
  refine ⟨size, w, ?_, hsize⟩
  have hadd := readBeLoop_add (b := b) (8 - k) k 0 u
  rw [Nat.add_sub_cancel' hk] at hadd
  rw [readBeUnsigned, hadd]
  exact (bind_of_ok hv).trans hw

theorem run_front {α : Type} {x : UInt8} {xs : List UInt8} {u : Unpacker} (hu : x :: xs <+: b.bytes.drop u.dataPointer)
    (f : UInt8 → Reader α) : (safeData b >>= f) u = f x { u with log := .read u.dataPointer 1 :: u.log } := by
  have hdata : safeData b u = .ok x { u with log := .read u.dataPointer 1 :: u.log } := by
    rw [safeData, Decodes.getElem? hu]
  exact bind_of_ok hdata

/-- What is done with a length behind its marker. -/
theorem announced_long {α : Type} {x : UInt8} {k n : Nat} (hk : k ≤ 8) (hn : n < 256 ^ k) {rest : List UInt8}
    {u u' : Unpacker} (hle : u.dataPointer ≤ b.bytes.length) (hu : x :: (toBe k n ++ rest) <+: b.bytes.drop u.dataPointer)
    {f : Nat → Reader α} {a : α} (h : (do safeIncremen b 1; f (← readBeUnsigned b 8)) u = .ok a u') :
    ∃ size v, n * 256 ^ (8 - k) ≤ size ∧ v.dataPointer ≤ b.bytes.length ∧ f size v = .ok a u' := by
  obtain ⟨_, v, hskip, h⟩ := bind_eq_ok h
  have hone : u.dataPointer + 1 ≤ b.bytes.length := Decodes.length_le hle ((List.prefix_append [x] _).trans hu)
  rw [safeIncremen, if_pos hone] at hskip
  injection hskip with _ hv
  subst hv
  obtain ⟨size, w, hsize, h⟩ := bind_eq_ok h
  have hdrop : toBe k n ++ rest <+: b.bytes.drop (u.dataPointer + 1) := by
    obtain ⟨tail, htail⟩ := hu
    refine ⟨tail, ?_⟩
    rw [← List.drop_drop, ← htail]
    rfl
  obtain ⟨size', w', hread, hle'⟩ := readBeUnsigned_long hk hn (u := { u with dataPointer := u.dataPointer + 1 }) hone hdrop
  rw [hread] at hsize
  injection hsize with hs hw
  subst hs hw
  exact ⟨size', w', hle', (((progress b).readBeUnsigned 8).of_ok hread).position hone |>.2, h⟩

/-- No message is long enough for a string of such a length. -/
theorem takeBytes_long {size : Nat} (hsize : 2 ^ 47 ≤ size) {u u' : Unpacker} {bs : List UInt8}
    (h : takeBytes b size u = .ok bs u') : bs = [] ∧ u'.ec = true := by
  have hfits := b.fits
  unfold takeBytes at h
  split at h
  · split at h
    · omega
    · cases h
  · cases h
    exact ⟨rfl, rfl⟩

theorem unpackString_long {str s : List UInt8} (hlong : 255 < str.length) (hsize : str.length < 2 ^ 32)
    {u u' : Unpacker} (hle : u.dataPointer ≤ b.bytes.length) (hu : packString str <+: b.bytes.drop u.dataPointer)
    (h : unpackString b u = .ok s u') : s = [] ∧ u'.ec = true := by
  unfold packString at hu
  dsimp only at hu
  rw [if_neg (by omega), if_neg (by omega)] at hu
  unfold unpackString at h
  by_cases h16 : str.length ≤ 0xffff
  · rw [if_pos h16] at hu
    rw [run_front hu] at h
    obtain ⟨_, v, hnote, h⟩ := bind_eq_ok h
    cases hnote
    rw [if_neg (by decide), if_neg (by decide), if_pos rfl] at h
    obtain ⟨size, v, hlen, _, h⟩ := announced_long (n := str.length) (k := 2) (by decide) (by omega) (by exact hle) (by exact hu) h
    exact takeBytes_long (by omega) h
  · rw [if_neg h16, if_pos (by omega)] at hu
    rw [run_front hu] at h
    obtain ⟨_, v, hnote, h⟩ := bind_eq_ok h
    cases hnote
    rw [if_neg (by decide), if_pos rfl] at h
    obtain ⟨size, v, hlen, _, h⟩ := announced_long (n := str.length) (k := 4) (by decide) (by omega) (by exact hle) (by exact hu) h
    exact takeBytes_long (by omega) h

theorem unpackBinary_long {data s : List UInt8} (hlong : 255 ≤ data.length) (hsize : data.length < 2 ^ 32 - 1)
    {u u' : Unpacker} (hle : u.dataPointer ≤ b.bytes.length) (hu : packBinary data <+: b.bytes.drop u.dataPointer)
    (h : unpackBinary b u = .ok s u') : s = [] ∧ u'.ec = true := by
  unfold packBinary at hu
  dsimp only at hu
  rw [if_neg (by omega)] at hu
  unfold unpackBinary at h
  by_cases h16 : data.length < 0xffff
  · rw [if_pos h16] at hu
    rw [run_front hu] at h
    obtain ⟨_, v, hnote, h⟩ := bind_eq_ok h
    cases hnote
    rw [if_neg (by decide), if_pos rfl] at h
    obtain ⟨size, v, hlen, _, h⟩ := announced_long (n := data.length) (k := 2) (by decide) (by omega) (by exact hle) (by exact hu) h
    exact takeBytes_long (by omega) h
  · rw [if_neg h16, if_pos (by omega)] at hu
    rw [run_front hu] at h
    obtain ⟨_, v, hnote, h⟩ := bind_eq_ok h
    cases hnote
    rw [if_pos rfl] at h
    obtain ⟨size, v, hlen, _, h⟩ := announced_long (n := data.length) (k := 4) (by decide) (by omega) (by exact hle) (by exact hu) h
    exact takeBytes_long (by omega) h

theorem unpackArray_long {α : Type} {packType : α → List UInt8} {ws vs : List α} {m : Reader α} {indexed : Bool} {init : α}
    (hlong : 15 < ws.length) (hsize : ws.length < 2 ^ 32) {u u' : Unpacker} (hle : u.dataPointer ≤ b.bytes.length)
    (hu : packArray packType ws <+: b.bytes.drop u.dataPointer) (h : unpackArray b indexed init m u = .ok vs u') :
    ws.length < vs.length := by
  unfold packArray at hu
  dsimp only at hu
  rw [if_neg (by omega)] at hu
  unfold unpackArray at h
  by_cases h16 : ws.length ≤ 0xffff
  · rw [if_pos h16] at hu
    rw [run_front hu] at h
    obtain ⟨_, v, hnote, h⟩ := bind_eq_ok h
    cases hnote
    rw [if_neg (by decide), if_neg (by decide), if_pos rfl] at h
    obtain ⟨size, v, hlen, _, h⟩ := announced_long (n := ws.length) (k := 2) (by decide) (by omega) (by exact hle) (by exact hu) h
    rw [unpackCounted_length h]
    omega
  · rw [if_neg h16, if_pos (by omega)] at hu
    rw [run_front hu] at h
    obtain ⟨_, v, hnote, h⟩ := bind_eq_ok h
    cases hnote
    rw [if_neg (by decide), if_pos rfl] at h
    obtain ⟨size, v, hlen, _, h⟩ := announced_long (n := ws.length) (k := 4) (by decide) (by omega) (by exact hle) (by exact hu) h
    rw [unpackCounted_length h]
    omega

section

variable {α β : Type} {keys : Keys α} {mk : Reader α} {mv : Reader β}

theorem unpackEntries_consumes (hmk : Steps (fun s _ t => Progress b s t) mk)
    (hmv : Steps (fun s _ t => Progress b s t) mv)
    (hmoves : ∀ p, MovesOrFails b p (do let key ← mk; let val ← mv; return (key, val))) :
    ∀ (count : Nat) (acc map : KeyedMap keys β) (u u' : Unpacker), unpackEntries mk mv count acc u = .ok map u' →
      u.dataPointer ≤ b.bytes.length → u'.ec = false → u.dataPointer + count ≤ u'.dataPointer
  | 0,         acc, map, u, u', h, _, _ => by
    cases h
    exact Nat.le_refl _
  | count + 1, acc, map, u, u', h, hle, hec => by
    obtain ⟨key, v, hkey, h⟩ := bind_eq_ok h
    obtain ⟨val, w, hval, h⟩ := bind_eq_ok h
    have hw : w.dataPointer ≤ b.bytes.length := ((hmv.of_ok hval).position ((hmk.of_ok hkey).position hle).2).2
    have hsteps := ((progress b).unpackEntries hmk hmv count (acc.insertOrAssign key val)).of_ok h
    have hentry : (do let key ← mk; let val ← mv; return (key, val)) u = .ok (key, val) w := by
      rw [bind_of_ok hkey, bind_of_ok hval]
      rfl
    have hrest := unpackEntries_consumes hmk hmv hmoves count _ map w u' h hw hec
    rcases (hmoves u.dataPointer).ok ⟨rfl, hle⟩ hentry with hpast | hfail
    · have := hpast.1
      omega
    · rw [hsteps.ec hfail] at hec
      cases hec

theorem unpackMap_long {packKey : α → List UInt8} {packMapped : β → List UInt8} {entries : List (α × β)} {map : KeyedMap keys β}
    {unordered : Bool} (hlong : 15 < entries.length) (hsize : entries.length < 2 ^ 32)
    (hmk : Steps (fun s _ t => Progress b s t) mk) (hmv : Steps (fun s _ t => Progress b s t) mv)
    (hmoves : ∀ p, MovesOrFails b p (do let key ← mk; let val ← mv; return (key, val))) {u u' : Unpacker}
    (hle : u.dataPointer ≤ b.bytes.length) (hu : packMap packKey packMapped entries <+: b.bytes.drop u.dataPointer)
    (h : unpackMap b keys unordered mk mv u = .ok map u') : u'.ec = true := by
  have hfits := b.fits
  have hcounted : ∀ size v, 2 ^ 47 ≤ size → v.dataPointer ≤ b.bytes.length →
      unpackCountedMap b keys unordered mk mv size v = .ok map u' → u'.ec = true := by
    intro size v hsize hv h
    obtain ⟨_, w, hannounce, h⟩ := bind_eq_ok h
    have hw := ((((progress b).announce unordered size).of_ok hannounce).position hv).2
    cases hec : u'.ec with
    | true  => rfl
    | false =>
      have hmoved := unpackEntries_consumes hmk hmv hmoves size .empty map w u' h hw hec
      have hend := ((((progress b).unpackEntries hmk hmv size .empty).of_ok h).position hw).2
      omega
  unfold packMap at hu
  dsimp only at hu
  rw [if_neg (by omega)] at hu
  unfold unpackMap at h
  by_cases h16 : entries.length ≤ 0xffff
  · rw [if_pos h16] at hu
    rw [run_front hu] at h
    obtain ⟨_, v, hnote, h⟩ := bind_eq_ok h
    cases hnote
    rw [if_neg (by decide), if_neg (by decide), if_pos rfl] at h
    obtain ⟨size, v, hlen, hv, h⟩ := announced_long (n := entries.length) (k := 2) (by decide) (by omega) (by exact hle) (by exact hu) h
    exact hcounted size v (by omega) hv h
  · rw [if_neg h16, if_pos (by omega)] at hu
    rw [run_front hu] at h
    obtain ⟨_, v, hnote, h⟩ := bind_eq_ok h
    cases hnote
    rw [if_neg (by decide), if_pos (.inl rfl)] at h
    obtain ⟨size, v, hlen, hv, h⟩ := announced_long (n := entries.length) (k := 4) (by decide) (by omega) (by exact hle) (by exact hu) h
    exact hcounted size v (by omega) hv h

end

/-! ## What comes back was short -/

theorem drop_step {u v : Unpacker} {xs ys : List UInt8} (hu : xs ++ ys <+: b.bytes.drop u.dataPointer)
    (hv : v.dataPointer = u.dataPointer + xs.length) : ys <+: b.bytes.drop v.dataPointer := by
  obtain ⟨rest, hrest⟩ := hu
  refine ⟨rest, ?_⟩
  rw [hv, ← List.drop_drop, ← hrest, List.append_assoc, List.drop_left]

/-- Where a decoder was started on the bytes of a value, and returned it; with the error clear, where this is asked. -/
structure Returns (b : Buffer) (clear : Bool) {α : Type} (m : Reader α) (bs : List UInt8) (a : α) (u u' : Unpacker) : Prop where
  position : u.dataPointer ≤ b.bytes.length
  bytes    : bs <+: b.bytes.drop u.dataPointer
  run      : m u = .ok a u'
  ec       : clear = true → u'.ec = false

variable {clear : Bool}

/-- The error was clear before a step after which it is. -/
theorem ec_of_progress {u u' : Unpacker} (h : Progress b u u') (hec : clear = true → u'.ec = false) :
    clear = true → u.ec = false := by
  intro hclear
  cases huec : u.ec with
  | false => rfl
  | true  => exact (h.ec huec).symm.trans (hec hclear)

theorem Returns.eq {α : Type} {m : Reader α} {bs : List UInt8} {a c : α} {u u' : Unpacker} (h : Returns b clear m bs a u u')
    (hc : Decodes b m bs c) : c = a ∧ u'.dataPointer = u.dataPointer + bs.length := by
  obtain ⟨v, hv, hp, _⟩ := hc u h.position h.bytes
  have hrun := hv.symm.trans h.run
  injection hrun with ha hu
  exact ⟨ha, hu ▸ hp⟩

theorem elements_survive {α : Type} {m : Reader α} {packType : α → List UInt8} {P : α → Prop}
    (hm : Steps (fun s _ t => Progress b s t) m) (hdecodes : ∀ v, P v → Decodes b m (packType v) v) :
    ∀ (vs acc : List α) (u u' : Unpacker), (∀ v ∈ vs, ∀ u u', Returns b clear m (packType v) v u u' → P v) →
      Returns b clear (unpackElements m vs.length acc) (vs.flatMap packType) (acc ++ vs) u u' → ∀ v ∈ vs, P v
  | [],      _,   _, _,  _, _ => fun _ hv => nomatch hv
  | v :: vs, acc, u, u', h, hrun => by
    obtain ⟨w, t, hw, hrest⟩ := bind_eq_ok hrun.run
    obtain ⟨ws, hws, _⟩ := unpackElements_ok vs.length (acc ++ [w]) (acc ++ v :: vs) t u' hrest
    obtain rfl : w = v := by
      rw [List.append_assoc, List.singleton_append] at hws
      exact (List.cons.inj (List.append_cancel_left hws)).1.symm
    have hec := ec_of_progress (((progress b).unpackElements hm vs.length (acc ++ [w])).of_ok hrest) hrun.ec
    have hbytes := hrun.bytes
    rw [List.flatMap_cons] at hbytes
    have hreturns : Returns b clear m (packType w) w u t := ⟨hrun.position, (List.prefix_append _ _).trans hbytes, hw, hec⟩
    have hP := h w List.mem_cons_self u t hreturns
    have hpos := (hreturns.eq (hdecodes w hP)).2
    have htail : Returns b clear (unpackElements m vs.length (acc ++ [w])) (vs.flatMap packType) ((acc ++ [w]) ++ vs) t u' := {
      position := ((hm.of_ok hw).position hrun.position).2
      bytes    := drop_step hbytes hpos
      run      := by rw [List.append_assoc, List.singleton_append]; exact hrest
      ec       := hrun.ec }
    have hvs := elements_survive hm hdecodes vs (acc ++ [w]) t u' (fun x hx => h x (List.mem_cons_of_mem w hx)) htail
    intro x hx
    rcases List.mem_cons.1 hx with rfl | hx
    · exact hP
    · exact hvs x hx

/-- Behind a marker of a size, and what is announced of it. -/
theorem counted_short {α : Type} {x : UInt8} {xs : List UInt8} {reserves : Bool} {count : Nat} {m : Reader α} {a : α}
    {u u' : Unpacker} (hle : u.dataPointer ≤ b.bytes.length) (hu : x :: xs <+: b.bytes.drop u.dataPointer)
    (h : (do safeIncremen b 1; announce b reserves count; m) u = .ok a u') (hec : clear = true → u'.ec = false) :
    ∃ v, Returns b clear m xs a v u' := by
  obtain ⟨_, v, hskip, h⟩ := bind_eq_ok h
  obtain ⟨_, w, hannounce, h⟩ := bind_eq_ok h
  have hone := (Decodes.safeIncremen (b := b) [x]) u hle ((List.prefix_append [x] xs).trans hu)
  obtain ⟨v', hv', hpos, _⟩ := hone
  have hv : v.dataPointer = u.dataPointer + [x].length := by
    have hrun := hv'.symm.trans hskip
    injection hrun with _ hvv
    exact hvv ▸ hpos
  have hw : w.dataPointer = v.dataPointer := by
    unfold announce at hannounce
    dsimp only at hannounce
    split at hannounce
    · split at hannounce
      · cases hannounce
      · cases hannounce
        rfl
    · cases hannounce
      rfl
  have hend := Decodes.length_le hle ((List.prefix_append [x] xs).trans hu)
  refine ⟨w, by omega, ?_, h, hec⟩
  rw [hw]
  exact @drop_step b u v [x] xs hu hv

theorem unpackArray_short {α : Type} {m : Reader α} {packType : α → List UInt8} {indexed : Bool} {init : α}
    {ws vs : List α} (hshort : ws.length ≤ 15) {u u' : Unpacker}
    (hrun : Returns b clear (unpackArray b indexed init m) (packArray packType ws) vs u u') :
    ∃ v, Returns b clear (unpackElements m ws.length []) (ws.flatMap packType) vs v u' := by
  have hu := hrun.bytes
  have hread := hrun.run
  unfold packArray at hu
  dsimp only at hu
  rw [if_pos hshort] at hu
  obtain ⟨hlo, hhi, hlen⟩ := fixarray_byte ws.length hshort
  unfold unpackArray at hread
  rw [run_front hu] at hread
  obtain ⟨_, v, hnote, hread⟩ := bind_eq_ok hread
  cases hnote
  rw [if_pos ⟨hlo, hhi⟩, hlen] at hread
  exact counted_short (u := { u with log := _ }) (by exact hrun.position) (by exact hu) hread hrun.ec

theorem array_survives {α : Type} {m : Reader α} {packType : α → List UInt8} {P : α → Prop} {indexed : Bool} {init : α}
    (hm : Steps (fun s _ t => Progress b s t) m) (hdecodes : ∀ v, P v → Decodes b m (packType v) v) {vs : List α}
    (hsize : vs.length < 2 ^ 32) {u u' : Unpacker} (h : ∀ v ∈ vs, ∀ u u', Returns b clear m (packType v) v u u' → P v)
    (hrun : Returns b clear (unpackArray b indexed init m) (packArray packType vs) vs u u') : Short P vs := by
  have hshort : vs.length ≤ 15 := by
    by_contra hlong
    exact Nat.lt_irrefl _ (unpackArray_long (by omega) hsize hrun.position hrun.bytes hrun.run)
  obtain ⟨v, hv⟩ := unpackArray_short hshort hrun
  exact ⟨hshort, elements_survive hm hdecodes vs [] v u' h hv⟩

theorem stdarray_survives {α : Type} {m : Reader α} {packType : α → List UInt8} {P : α → Prop} {size : Nat} {init : α}
    (hm : Steps (fun s _ t => Progress b s t) m) (hdecodes : ∀ v, P v → Decodes b m (packType v) v)
    {array : {array : List α // array.length = size}} (hsize : array.val.length < 2 ^ 32) {u u' : Unpacker}
    (h : ∀ v ∈ array.val, ∀ u u', Returns b clear m (packType v) v u u' → P v)
    (hrun : Returns b clear (unpackStdarray b size init m) (packArray packType array.val) array u u') : Short P array.val := by
  obtain ⟨vec, v, hvec, hcopy⟩ := bind_eq_ok hrun.run
  unfold copyOut at hcopy
  dsimp only at hcopy
  split at hcopy
  · rename_i hle
    injection hcopy with harray hv
    have hlen : array.val.length = size := array.2
    -- a vector that was read from the bytes of the array is the array
    have hshort : array.val.length ≤ 15 := by
      by_contra hlong
      have := unpackArray_long (by omega) hsize hrun.position hrun.bytes hvec
      omega
    have hec : clear = true → v.ec = false := by
      have := hrun.ec
      rwa [← hv] at this
    have hruns : Returns b clear (unpackArray b true init m) (packArray packType array.val) vec u v :=
      ⟨hrun.position, hrun.bytes, hvec, hec⟩
    obtain ⟨w, hw⟩ := unpackArray_short hshort hruns
    obtain ⟨vs, hvs, hveclen⟩ := unpackElements_ok _ _ _ _ _ hw.run
    rw [List.nil_append] at hvs
    have heq : vec = array.val := by
      rw [← harray]
      simp [hvs, hveclen, hlen]
    rw [heq] at hruns
    exact array_survives hm hdecodes hsize h hruns
  · cases hcopy

theorem pair_survives {α β : Type} {m : Reader α} {n : Reader β} {packFst : α → List UInt8} {packSnd : β → List UInt8}
    {P : α → Prop} {Q : β → Prop} (hm : Steps (fun s _ t => Progress b s t) m) (hn : Steps (fun s _ t => Progress b s t) n)
    (hdecodes : ∀ v, P v → Decodes b m (packFst v) v) {fst : α} {snd : β} {u u' : Unpacker}
    (hfst : ∀ u u', Returns b clear m (packFst fst) fst u u' → P fst)
    (hsnd : ∀ u u', Returns b clear n (packSnd snd) snd u u' → Q snd)
    (h : Returns b clear (do let fst ← m; let snd ← n; return (fst, snd)) (packFst fst ++ packSnd snd) (fst, snd) u u') :
    P fst ∧ Q snd := by
  obtain ⟨fst', v, hrunFst, hrest⟩ := bind_eq_ok h.run
  obtain ⟨snd', w, hrunSnd, hrest⟩ := bind_eq_ok hrest
  cases hrest
  have hvec := ec_of_progress (hn.of_ok hrunSnd) h.ec
  have hruns : Returns b clear m (packFst fst) fst u v :=
    ⟨h.position, (List.prefix_append _ _).trans h.bytes, hrunFst, hvec⟩
  have hP := hfst u v hruns
  have hpos := (hruns.eq (hdecodes fst hP)).2
  have hvpos := ((hm.of_ok hrunFst).position h.position).2
  exact ⟨hP, hsnd v u' ⟨hvpos, drop_step h.bytes hpos, hrunSnd, h.ec⟩⟩

section

variable {α β : Type} {keys : Keys α} {mk : Reader α} {mv : Reader β}

theorem insertOrAssign_old {map : KeyedMap keys β} {key : α} (h : (map.1.any fun e => keys.same e.1 key) = true) (val : β) :
    (map.insertOrAssign key val).1.length = map.1.length := by
  have hassign : (map.insertOrAssign key val).1 = _ := Keys.assign_old h val
  rw [hassign, List.length_map]

theorem insertOrAssign_new {map : KeyedMap keys β} {key : α} (h : ¬(map.1.any fun e => keys.same e.1 key) = true) (val : β) :
    (map.insertOrAssign key val).1 = map.1 ++ [(key, val)] := Keys.assign_new h val

/-- As many entries as were read are there only if all keys were new. -/
theorem unpackEntries_length : ∀ (count : Nat) (acc map : KeyedMap keys β) (u u' : Unpacker),
    unpackEntries mk mv count acc u = .ok map u' → map.1.length ≤ acc.1.length + count ∧
      (map.1.length = acc.1.length + count → acc.1 <+: map.1)
  | 0,         acc, map, u, u', h => by
    cases h
    exact ⟨Nat.le_refl _, fun _ => List.prefix_rfl⟩
  | count + 1, acc, map, u, u', h => by
    obtain ⟨key, v, _, h⟩ := bind_eq_ok h
    obtain ⟨val, w, _, h⟩ := bind_eq_ok h
    obtain ⟨hle, hfront⟩ := unpackEntries_length count (acc.insertOrAssign key val) map w u' h
    by_cases hkey : (acc.1.any fun e => keys.same e.1 key) = true
    · have hlen := insertOrAssign_old hkey val
      exact ⟨by omega, fun _ => by omega⟩
    · rw [insertOrAssign_new hkey, List.length_append, List.length_singleton] at hle hfront
      exact ⟨by omega, fun hlen => (List.prefix_append _ _).trans (hfront (by omega))⟩

theorem entries_survive {packKey : α → List UInt8} {packMapped : β → List UInt8} {P : α → Prop} {Q : β → Prop}
    (hmk : Steps (fun s _ t => Progress b s t) mk) (hmv : Steps (fun s _ t => Progress b s t) mv)
    (hkey : ∀ k, P k → Decodes b mk (packKey k) k) (hmapped : ∀ v, Q v → Decodes b mv (packMapped v) v) :
    ∀ (entries : List (α × β)) (acc map : KeyedMap keys β) (u u' : Unpacker), map.1 = acc.1 ++ entries →
      (∀ e ∈ entries, (∀ u u', Returns b clear mk (packKey e.1) e.1 u u' → P e.1) ∧
        ∀ u u', Returns b clear mv (packMapped e.2) e.2 u u' → Q e.2) →
      Returns b clear (unpackEntries mk mv entries.length acc) (entries.flatMap fun e => packKey e.1 ++ packMapped e.2) map u u' →
      ∀ e ∈ entries, P e.1 ∧ Q e.2
  | [],           _,   _,   _, _,  _,    _, _    => fun _ he => nomatch he
  | e :: entries, acc, map, u, u', hmap, h, hrun => by
    obtain ⟨key, v, hk, hrest⟩ := bind_eq_ok hrun.run
    obtain ⟨val, w, hv, hrest⟩ := bind_eq_ok hrest
    obtain ⟨hle, hfront⟩ := unpackEntries_length entries.length _ map w u' hrest
    have hmaplen : map.1.length = acc.1.length + entries.length + 1 := by
      rw [hmap, List.length_append, List.length_cons, Nat.add_assoc]
    have hnew : ¬(acc.1.any fun e => keys.same e.1 key) = true := by
      intro hold
      have hlen := insertOrAssign_old hold val
      omega
    have hacc := insertOrAssign_new hnew val
    have hentry : (key, val) = e := by
      have hpre := hfront (by rw [hacc, List.length_append, List.length_singleton]; omega)
      rw [hacc, hmap] at hpre
      have htail : [(key, val)] <+: e :: entries := List.prefix_append_right_inj _ |>.1 hpre
      exact (List.cons_prefix_cons.1 htail).1
    subst hentry
    have hbytes := hrun.bytes
    rw [List.flatMap_cons, List.append_assoc] at hbytes
    have hsteps := ((progress b).unpackEntries hmk hmv entries.length (acc.insertOrAssign key val)).of_ok hrest
    have hwec := ec_of_progress hsteps hrun.ec
    have hvec := ec_of_progress (hmv.of_ok hv) hwec
    have hkeyruns : Returns b clear mk (packKey key) key u v := ⟨hrun.position, (List.prefix_append _ _).trans hbytes, hk, hvec⟩
    have hP := (h _ List.mem_cons_self).1 u v hkeyruns
    have hbytes₂ := drop_step hbytes (hkeyruns.eq (hkey key hP)).2
    have hvpos := ((hmk.of_ok hk).position hrun.position).2
    have hvalruns : Returns b clear mv (packMapped val) val v w := ⟨hvpos, (List.prefix_append _ _).trans hbytes₂, hv, hwec⟩
    have hQ := (h _ List.mem_cons_self).2 v w hvalruns
    have hbytes₃ := drop_step hbytes₂ (hvalruns.eq (hmapped val hQ)).2
    have htail : Returns b clear (unpackEntries mk mv entries.length (acc.insertOrAssign key val))
        (entries.flatMap fun e => packKey e.1 ++ packMapped e.2) map w u' :=
      ⟨((hmv.of_ok hv).position hvpos).2, hbytes₃, hrest, hrun.ec⟩
    have hrec := entries_survive hmk hmv hkey hmapped entries _ map w u'
      (by rw [hacc, hmap, List.append_assoc, List.singleton_append]) (fun x hx => h x (List.mem_cons_of_mem _ hx)) htail
    intro x hx
    rcases List.mem_cons.1 hx with rfl | hx
    · exact ⟨hP, hQ⟩
    · exact hrec x hx

theorem map_survives {packKey : α → List UInt8} {packMapped : β → List UInt8} {P : α → Prop} {Q : β → Prop}
    {unordered : Bool} (hmk : Steps (fun s _ t => Progress b s t) mk) (hmv : Steps (fun s _ t => Progress b s t) mv)
    (hkey : ∀ k, P k → Decodes b mk (packKey k) k) (hmapped : ∀ v, Q v → Decodes b mv (packMapped v) v)
    {map : KeyedMap keys β} (hsize : map.1.length < 2 ^ 32)
    (hmoves : map.1.length ≤ 15 ∨
      clear = true ∧ ∀ p, MovesOrFails b p (do let key ← mk; let val ← mv; return (key, val))) {u u' : Unpacker}
    (h : ∀ e ∈ map.1, (∀ u u', Returns b clear mk (packKey e.1) e.1 u u' → P e.1) ∧
      ∀ u u', Returns b clear mv (packMapped e.2) e.2 u u' → Q e.2)
    (hrun : Returns b clear (unpackMap b keys unordered mk mv) (packMap packKey packMapped map.1) map u u') :
    Short (fun e : α × β => P e.1 ∧ Q e.2) map.1 := by
  have hshort : map.1.length ≤ 15 := by
    rcases hmoves with hshort | ⟨hclear, hmoves⟩
    · exact hshort
    · by_contra hlong
      have hec := unpackMap_long (by omega) hsize hmk hmv hmoves hrun.position hrun.bytes hrun.run
      rw [hrun.ec hclear] at hec
      cases hec
  refine ⟨hshort, ?_⟩
  have hu := hrun.bytes
  have hread := hrun.run
  unfold packMap at hu
  dsimp only at hu
  rw [if_pos hshort] at hu
  obtain ⟨hlo, hhi, hlen⟩ := fixmap_byte map.1.length hshort
  unfold unpackMap at hread
  rw [run_front hu] at hread
  obtain ⟨_, v, hnote, hread⟩ := bind_eq_ok hread
  cases hnote
  rw [if_pos ⟨hlo, hhi⟩, hlen] at hread
  obtain ⟨w, hw⟩ := counted_short (u := { u with log := _ }) (by exact hrun.position) (by exact hu) hread hrun.ec
  exact entries_survive hmk hmv hkey hmapped map.1 .empty map w u' rfl h hw

end

/-- No length is too long for a length field. -/
def Sized : (t : Ty) → t.Val → Prop
  | .string,    str   => (str : List UInt8).length < 2 ^ 32 - 1
  | .binary,    data  => (data : List UInt8).length < 2 ^ 32 - 1
  | .vector t,  array => SizedList (Sized t) array
  | .list t,    array => SizedList (Sized t) array
  | .array _ t, array => SizedList (Sized t) array.val
  | .map _ k v, map   => SizedList (fun e : k.Val × v.Val => Sized k e.1 ∧ Sized v e.2) map.val
  | .pair s t,  value => Sized s value.1 ∧ Sized t value.2
  | _,          _     => True
where
  SizedList {α : Type} (sized : α → Prop) (array : List α) : Prop := array.length < 2 ^ 32 - 1 ∧ ∀ v ∈ array, sized v

/-- No map has entries that a decoder may read from no bytes at all. -/
def EntriesConsume : Ty → Prop
  | .vector t  => EntriesConsume t
  | .list t    => EntriesConsume t
  | .array _ t => EntriesConsume t
  | .map _ k v => (Consumes k || Consumes v) = true ∧ EntriesConsume k ∧ EntriesConsume v
  | .pair s t  => EntriesConsume s ∧ EntriesConsume t
  | _          => True

/-- No map is so long that its size stands behind the marker; or the error is asked to be clear, and its entries cannot be
read from no bytes. -/
def MapsRead (clear : Bool) : (t : Ty) → t.Val → Prop
  | .vector t,  array => Each (MapsRead clear t) array
  | .list t,    array => Each (MapsRead clear t) array
  | .array _ t, array => Each (MapsRead clear t) array.val
  | .map _ k v, map   => (map.val.length ≤ 15 ∨ clear = true ∧ (Consumes k || Consumes v) = true) ∧
      Each (fun e : k.Val × v.Val => MapsRead clear k e.1 ∧ MapsRead clear v e.2) map.val
  | .pair s t,  value => MapsRead clear s value.1 ∧ MapsRead clear t value.2
  | _,          _     => True
where
  Each {α : Type} (read : α → Prop) (array : List α) : Prop := ∀ v ∈ array, read v

theorem mapsRead_of_entriesConsume : ∀ (t : Ty) (v : t.Val), EntriesConsume t → MapsRead true t v
  | .num _,     _,     _ => trivial
  | .nullptr,   _,     _ => trivial
  | .enum _,    _,     _ => trivial
  | .string,    _,     _ => trivial
  | .binary,    _,     _ => trivial
  | .vector t,  _,     h => fun v _ => mapsRead_of_entriesConsume t v h
  | .list t,    _,     h => fun v _ => mapsRead_of_entriesConsume t v h
  | .array _ t, _,     h => fun v _ => mapsRead_of_entriesConsume t v h
  | .map _ k v, _,     h => ⟨.inr ⟨rfl, h.1⟩, fun e _ =>
      ⟨mapsRead_of_entriesConsume k e.1 h.2.1, mapsRead_of_entriesConsume v e.2 h.2.2⟩⟩
  | .unit,      _,     _ => trivial
  | .pair s t,  value, h => ⟨mapsRead_of_entriesConsume s value.1 h.1, mapsRead_of_entriesConsume t value.2 h.2⟩

theorem survives_of_unpack : ∀ (t : Ty) (v : t.Val), MapsRead clear t v → Sized t v → ∀ u u',
    Returns b clear (unpackType b t) (pack t v) v u u' → Survives t v
  | .num (.int _), _, _, _, _, _, _ => trivial
  | .num .bool,    _, _, _, _, _, _ => trivial
  | .num .float,   bits, _, _, u, u', h => by
    rintro rfl
    have hbits : (0#32 : BitVec 32) = 0x80000000#32 := (h.eq decodes_packFloat_negative).1
    exact absurd hbits (by decide)
  | .num .double,  bits, _, _, u, u', h => by
    rintro rfl
    have hbits : (0#64 : BitVec 64) = 0x8000000000000000#64 := (h.eq decodes_packDouble_negative).1
    exact absurd hbits (by decide)
  | .nullptr,      _, _, _, _, _, _ => trivial
  | .enum t,       value, _, _, u, u', h => by
    have hint := (decodes_packInt (b := b) .int32 (IntType.int32.wrap value.val)).number
      (t := .int .int32) (congrArg some (IntType.int32.wrap_self _))
    exact (h.eq (hint.map fun v : IntType.int32.Val => t.wrap v.val)).1
  | .string,       str, _, hsized, u, u', h => by
    by_contra hlong
    have hempty := (unpackString_long (Nat.lt_of_not_le hlong) (Nat.lt_of_lt_of_le hsized (Nat.sub_le _ _))
      h.position h.bytes h.run).1
    exact hlong (hempty ▸ Nat.zero_le 255)
  | .binary,       data, _, hsized, u, u', h => by
    by_contra hlong
    have hempty := (unpackBinary_long (Nat.le_of_not_lt hlong) hsized h.position h.bytes h.run).1
    exact hlong (hempty ▸ Nat.zero_lt_succ 254)
  | .vector t,     array, ht, hsized, u, u', h =>
    array_survives ((progress b).unpackType t) (decodes_pack t) (Nat.lt_of_lt_of_le hsized.1 (Nat.sub_le _ _))
      (fun v hv => survives_of_unpack t v (ht v hv) (hsized.2 v hv)) h
  | .list t,       array, ht, hsized, u, u', h =>
    array_survives ((progress b).unpackType t) (decodes_pack t) (Nat.lt_of_lt_of_le hsized.1 (Nat.sub_le _ _))
      (fun v hv => survives_of_unpack t v (ht v hv) (hsized.2 v hv)) h
  | .array size t, array, ht, hsized, u, u', h =>
    stdarray_survives ((progress b).unpackType t) (decodes_pack t) (Nat.lt_of_lt_of_le hsized.1 (Nat.sub_le _ _))
      (fun v hv => survives_of_unpack t v (ht v hv) (hsized.2 v hv)) h
  | .map unordered k v, map, ht, hsized, u, u', h => by
    have hb := progress b
    have hmoves := ht.1.imp_right fun hand => And.intro hand.1 fun p => unpackType_consumes (b := b) p (.pair k v) hand.2
    exact map_survives (hb.unpackType k) (hb.unpackType v) (decodes_pack k) (decodes_pack v)
      (Nat.lt_of_lt_of_le hsized.1 (Nat.sub_le _ _)) hmoves
      (fun e he => ⟨survives_of_unpack k e.1 (ht.2 e he).1 (hsized.2 e he).1,
        survives_of_unpack v e.2 (ht.2 e he).2 (hsized.2 e he).2⟩) h
  | .unit,         _, _, _, _, _, _ => trivial
  | .pair s t,     (fst, snd), ht, hsized, u, u', h =>
    pair_survives ((progress b).unpackType s) ((progress b).unpackType t) (decodes_pack s)
      (survives_of_unpack s fst ht.1 hsized.1) (survives_of_unpack t snd ht.2 hsized.2) h

end

/-! ## The round trip -/

/-- A message is unpacked to this value, to its last byte and with the error clear. -/
def RoundTrips (b : Buffer) (t : Ty) (v : t.Val) : Prop :=
  ∃ u, unpack b t = .ok v u ∧ u.dataPointer = b.bytes.length ∧ u.ec = false

theorem roundTrips_of_decodes {t : Ty} {v : t.Val} {b : Buffer} (h : Decodes b (unpackType b t) b.bytes v) :
    RoundTrips b t v := by
  obtain ⟨u, hu, hpos, hec⟩ := h {} (Nat.zero_le _) (List.prefix_refl _)
  exact ⟨u, hu, by rw [hpos, Nat.zero_add], hec⟩

theorem roundTrips_of_survives {t : Ty} {v : t.Val} {b : Buffer} (hb : b.bytes = pack t v) (h : Survives t v) :
    RoundTrips b t v := roundTrips_of_decodes (hb ▸ decodes_pack t v h)

theorem survives_of_roundTrips {t : Ty} {v : t.Val} {b : Buffer} (hb : b.bytes = pack t v) (ht : EntriesConsume t)
    (hsized : Sized t v) (h : RoundTrips b t v) : Survives t v := by
  obtain ⟨u, hu, _, hec⟩ := h
  exact survives_of_unpack t v (mapsRead_of_entriesConsume t v ht) hsized {} u
    ⟨Nat.zero_le _, front_of_bytes hb, hu, fun _ => hec⟩

/-- The same of the value alone, whatever becomes of the error. -/
theorem survives_of_value {t : Ty} {v : t.Val} {b : Buffer} {u : Unpacker} (hb : b.bytes = pack t v)
    (hmaps : MapsRead false t v) (hsized : Sized t v) (h : unpack b t = .ok v u) : Survives t v :=
  survives_of_unpack t v hmaps hsized {} u
    ⟨Nat.zero_le _, front_of_bytes hb, h, fun hclear => Bool.noConfusion hclear⟩

/-- **A value that survives comes back; and where no map has entries that may be read from no bytes, no other value
does.** -/
theorem unpack_pack_iff (t : Ty) (v : t.Val) (hsized : Sized t v) (b : Buffer) (hb : b.bytes = pack t v) :
    (Survives t v → RoundTrips b t v) ∧ (EntriesConsume t → RoundTrips b t v → Survives t v) :=
  ⟨roundTrips_of_survives hb, fun ht => survives_of_roundTrips hb ht hsized⟩

/-- A string and a number, as the arguments of a call are packed. -/
def greeting : Buffer := .ofBytes [0xa2, 0x68, 0x69, 0xd0, 0x80] (by decide)

theorem unpack_pack_greeting :
    RoundTrips greeting (.pair .string (.num (.int .int32))) ([0x68, 0x69], IntType.int32.wrap (-128)) :=
  (unpack_pack_iff (.pair .string (.num (.int .int32))) ([0x68, 0x69], IntType.int32.wrap (-128))
    ⟨by change 2 < 2 ^ 32 - 1; decide, trivial⟩ greeting (by decide)).1 ⟨by change 2 ≤ 255; decide, trivial⟩

theorem packString_length_lt {str : List UInt8} : (packString str).length < str.length + 6 := by
  unfold packString
  dsimp only
  split
  · rw [List.length_cons]
    omega
  · split
    · rw [List.length_cons, List.length_cons]
      omega
    · split
      · rw [List.length_cons, List.length_append, Bytes.toBe_length]
        omega
      · split
        · rw [List.length_cons, List.length_append, Bytes.toBe_length]
          omega
        · exact Nat.succ_pos _

theorem not_unpack_pack : ¬∀ (t : Ty) (v : t.Val), Sized t v → ∀ b : Buffer, b.bytes = pack t v → RoundTrips b t v := by
  intro h
  -- a string of 256 bytes
  generalize hstr : List.replicate 256 (0x61 : UInt8) = str
  have hlen : str.length = 256 := by rw [← hstr, List.length_replicate]
  have hsized : Sized .string str := by
    change str.length < 2 ^ 32 - 1
    omega
  have hfits : (pack .string str).length < 2 ^ 47 := by
    have := @packString_length_lt str
    change (packString str).length < 2 ^ 47
    omega
  have hshort : str.length ≤ 255 :=
    survives_of_roundTrips (b := .ofBytes (pack .string str) hfits) rfl trivial hsized (h .string str hsized _ rfl)
  omega

/-! ## Integers across widths -/

/-- **An integer that was packed as one type comes back at every type that has it**, wherever its bytes stand and whatever
lies behind them; and a message that is these bytes is read to its end, with the error clear. -/
theorem unpack_packInt (t t' : IntType) (n : t.Val) (h : t'.min ≤ n.val ∧ n.val ≤ t'.max) (b : Buffer) :
    Decodes b (unpackType b (.num (.int t'))) (pack (.num (.int t)) n) ⟨n.val, h⟩ ∧
      (b.bytes = pack (.num (.int t)) n → RoundTrips b (.num (.int t')) ⟨n.val, h⟩) := by
  have hcast : NumType.cast (.int t') (.int n.val) = some ⟨n.val, h⟩ :=
    congrArg some (t'.wrap_self ⟨n.val, h⟩)
  have hdecodes : Decodes b (unpackType b (.num (.int t'))) (pack (.num (.int t)) n) ⟨n.val, h⟩ :=
    (decodes_packInt t n).number hcast
  exact ⟨hdecodes, fun hb => roundTrips_of_decodes (hb ▸ hdecodes)⟩

/-- An `int32_t` of 200, which is packed as an `int16_t`, comes back as an `uint8_t`. -/
theorem unpack_packInt_200 : RoundTrips (.ofBytes [0xd1, 0x00, 0xc8] (by decide))
    (.num (.int .uint8)) (IntType.uint8.wrap 200) :=
  (unpack_packInt .int32 .uint8 (IntType.int32.wrap 200) (by decide)
    (.ofBytes [0xd1, 0x00, 0xc8] (by decide))).2 (by decide)

end Gb.Msgpack
