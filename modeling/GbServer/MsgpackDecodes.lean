import GbServer.Lib.Encoding
import GbServer.MsgpackSteps
/-!
# MsgpackDecodes — decoders that find the bytes of a value

A decoder that finds given bytes at its position, whatever lies behind them, returns the value that they stand for and
has consumed them and no more (`Decodes`).  The rules take a decoder apart along the bytes; the lemmas behind them are
the scalars and the loops of the containers.
-/
namespace Gb.Msgpack

open Stateful
open Encoding (Sequence Pair)
open Bytes (toBe toLe beNat leNat slice)
open FloatBits (binary32 binary64)

/-- These bytes at the position are decoded to this value. -/
def Decodes (b : Buffer) {α : Type} (m : Reader α) (bs : List UInt8) (a : α) : Prop :=
  ∀ u : Unpacker, u.dataPointer ≤ b.bytes.length → bs <+: b.bytes.drop u.dataPointer →
    ∃ u', m u = .ok a u' ∧ u'.dataPointer = u.dataPointer + bs.length ∧ u'.ec = u.ec

/-- A message is what stands at its front. -/
theorem front_of_bytes {b : Buffer} {xs : List UInt8} (hb : b.bytes = xs) : xs <+: b.bytes.drop 0 :=
  ⟨[], by rw [List.append_nil, List.drop_zero, hb]⟩

namespace Decodes

variable {b : Buffer} {α β : Type} {m n : Reader α} {f : α → Reader β} {a : α} {c : β} {xs ys : List UInt8}

theorem pure (a : α) : Decodes b (Pure.pure a) [] a := fun u _ _ => ⟨u, rfl, rfl, rfl⟩

theorem length_le {u : Unpacker} (hle : u.dataPointer ≤ b.bytes.length) (hu : xs <+: b.bytes.drop u.dataPointer) :
    u.dataPointer + xs.length ≤ b.bytes.length := by
  have := hu.length_le
  rw [List.length_drop] at this
  omega

theorem bind (hm : Decodes b m xs a) (hf : Decodes b (f a) ys c) : Decodes b (m >>= f) (xs ++ ys) c := by
  rintro u hle ⟨rest, hrest⟩
  have hxs : xs <+: b.bytes.drop u.dataPointer := ⟨ys ++ rest, by rw [← List.append_assoc, hrest]⟩
  obtain ⟨u₁, h₁, hp₁, he₁⟩ := hm u hle hxs
  have hdrop : ys <+: b.bytes.drop u₁.dataPointer := by
    refine ⟨rest, ?_⟩
    rw [hp₁, ← List.drop_drop, ← hrest, List.append_assoc, List.drop_left]
  obtain ⟨u₂, h₂, hp₂, he₂⟩ := hf u₁ (hp₁ ▸ length_le hle hxs) hdrop
  refine ⟨u₂, (bind_of_ok h₁).trans h₂, ?_, he₂.trans he₁⟩
  rw [hp₂, hp₁, List.length_append, Nat.add_assoc]

/-- A step that consumes nothing. -/
theorem still (hm : Decodes b m [] a) (hf : Decodes b (f a) ys c) : Decodes b (m >>= f) ys c := hm.bind hf

theorem note (e : Event) {m : Reader β} (hm : Decodes b m xs c) : Decodes b (Msgpack.note e >>= fun _ => m) xs c := by
  intro u hle hu
  obtain ⟨u', h, hp, he⟩ := hm { u with log := e :: u.log } hle hu
  exact ⟨u', h, hp, he⟩

theorem getElem? {x : UInt8} {u : Unpacker} (hu : x :: xs <+: b.bytes.drop u.dataPointer) :
    b.bytes[u.dataPointer]? = some x := by
  obtain ⟨rest, hrest⟩ := hu
  have hhead : (b.bytes.drop u.dataPointer)[0]? = some x := by
    rw [← hrest]
    rfl
  rwa [List.getElem?_drop] at hhead

/-- A look at the first byte. -/
theorem front {x : UInt8} {f : UInt8 → Reader β} (hf : Decodes b (f x) (x :: xs) c) :
    Decodes b (safeData b >>= f) (x :: xs) c := by
  intro u hle hu
  obtain ⟨u', h, hp, he⟩ := hf { u with log := .read u.dataPointer 1 :: u.log } hle hu
  have hdata : safeData b u = .ok x { u with log := .read u.dataPointer 1 :: u.log } := by
    rw [safeData, getElem? hu]
  exact ⟨u', (bind_of_ok hdata).trans h, hp, he⟩

theorem safeIncremen (xs : List UInt8) : Decodes b (Msgpack.safeIncremen b xs.length) xs () := fun u hle hu =>
  ⟨{ u with dataPointer := u.dataPointer + xs.length }, if_pos (length_le hle hu), rfl, rfl⟩

/-- A step over the first byte. -/
theorem skip {x : UInt8} {m : Reader β} (hm : Decodes b m xs c) :
    Decodes b (Msgpack.safeIncremen b 1 >>= fun _ => m) (x :: xs) c := bind (safeIncremen [x]) hm

theorem readBeLoop : ∀ (bs : List UInt8) (out : Nat),
    Decodes b (Msgpack.readBeLoop b bs.length out) bs (bs.foldl (fun acc x => acc * 256 + x.toNat) out)
  | [],      out => pure out
  | x :: bs, out => front (skip (readBeLoop bs (out * 256 + x.toNat)))

theorem readBeUnsigned (bs : List UInt8) : Decodes b (Msgpack.readBeUnsigned b bs.length) bs (beNat bs) :=
  readBeLoop bs 0

/-- What is made of a value when it has been read. -/
theorem map (hm : Decodes b m xs a) (f : α → β) : Decodes b (do return f (← m)) xs (f a) := by
  have h : Decodes b (do return f (← m)) (xs ++ []) (f a) := hm.bind (pure (f a))
  rwa [List.append_nil] at h

theorem readBeSigned (t : IntType) (bs : List UInt8) :
    Decodes b (Msgpack.readBeSigned b t bs.length) bs (t.wrap (beNat bs)).val :=
  (readBeLoop bs 0).map fun n : Nat => (t.wrap n).val

theorem takeBytes (bs : List UInt8) : Decodes b (Msgpack.takeBytes b bs.length) bs bs := by
  intro u hend hu
  have hle := length_le hend hu
  have hfits := b.fits
  have hin : b.inRange u bs.length = true := (inRange_iff (by omega) (by omega)).2 hle
  have hslice : slice b.bytes u.dataPointer bs.length = bs := (List.prefix_iff_eq_take.1 hu).symm
  refine ⟨{ u with dataPointer := u.dataPointer + bs.length, log := .read u.dataPointer bs.length :: u.log }, ?_, rfl, rfl⟩
  rw [Msgpack.takeBytes, if_pos hin, if_pos hle, hslice]

/-- The bytes of a float, and the step over them. -/
theorem copyFloat {f : Nat → α} {size : Nat} (bs : List UInt8) (hsize : bs.length = size) :
    Decodes b (do let d ← Msgpack.copyFloat b size; Msgpack.safeIncremen b size; return f d) bs (f (leNat bs)) := by
  subst hsize
  intro u hend hu
  have hle := length_le hend hu
  have hcopy : (List.range bs.length).map (fun i => b.byteAt (u.dataPointer + i)) = bs := by
    refine List.ext_getElem (by simp) fun i h₁ h₂ => ?_
    have hbyte : b.bytes[u.dataPointer + i]? = some bs[i] := by
      obtain ⟨rest, hrest⟩ := hu
      rw [← List.getElem?_drop, ← hrest, List.getElem?_append_left h₂, List.getElem?_eq_getElem h₂]
    simp [Buffer.byteAt, hbyte]
  refine ⟨{ u with dataPointer := u.dataPointer + bs.length, log := .memcpy u.dataPointer bs.length :: u.log }, ?_, rfl, rfl⟩
  have hfloat : Msgpack.copyFloat b bs.length u
      = .ok (leNat bs) { u with log := .memcpy u.dataPointer bs.length :: u.log } := by
    rw [Msgpack.copyFloat, hcopy]
  have hskip : Msgpack.safeIncremen b bs.length { u with log := .memcpy u.dataPointer bs.length :: u.log }
      = .ok () { u with dataPointer := u.dataPointer + bs.length, log := .memcpy u.dataPointer bs.length :: u.log } :=
    if_pos hle
  rw [bind_of_ok hfloat, bind_of_ok hskip]
  rfl

theorem ite_pos {p : Prop} [Decidable p] (hp : p) (hm : Decodes b m xs a) : Decodes b (if p then m else n) xs a := by
  rwa [if_pos hp]

theorem ite_neg {p : Prop} [Decidable p] (hp : ¬p) (hn : Decodes b n xs a) : Decodes b (if p then m else n) xs a := by
  rwa [if_neg hp]

end Decodes

/-! ## Numbers -/

section

variable {b : Buffer}

theorem decodes_positive {byte : UInt8} (h : byte ≤ 0x7f) : Decodes b (readNumber b) [byte] (some (.int byte.toNat)) :=
  .front (.note _ (.ite_pos h (.skip (.pure _))))

theorem decodes_negative {byte : UInt8} (h : 0xe0 ≤ byte) :
    Decodes b (readNumber b) [byte] (some (.int (IntType.int8.wrap byte.toNat).val)) := by
  refine .front (.note _ (.ite_neg ?_ (.ite_pos h (.skip (.pure _)))))
  grind

theorem decodes_unsigned {format : Format} {k : Nat}
    (hformat : format = .uint8 ∧ k = 1 ∨ format = .uint16 ∧ k = 2 ∨ format = .uint32 ∧ k = 4 ∨ format = .uint64 ∧ k = 8)
    (bs : List UInt8) (hbs : bs.length = k) :
    Decodes b (readNumber b) (format.code :: bs) (some (.int (beNat bs))) := by
  have hbody := Decodes.map (b := b) (.readBeUnsigned bs) fun n : Nat => some (Number.int n)
  rw [hbs] at hbody
  rcases hformat with ⟨rfl, rfl⟩ | ⟨rfl, rfl⟩ | ⟨rfl, rfl⟩ | ⟨rfl, rfl⟩
  all_goals
    refine .front (.note _ ?_)
    repeat first | refine .ite_pos (by decide) ?_ | refine .ite_neg (by decide) ?_
    exact .skip hbody

theorem decodes_signed {format : Format} {t : IntType} {k : Nat}
    (hformat : format = .int8 ∧ t = .int8 ∧ k = 1 ∨ format = .int16 ∧ t = .int16 ∧ k = 2 ∨
      format = .int32 ∧ t = .int32 ∧ k = 4 ∨ format = .int64 ∧ t = .int64 ∧ k = 8)
    (bs : List UInt8) (hbs : bs.length = k) :
    Decodes b (readNumber b) (format.code :: bs) (some (.int (t.wrap (beNat bs)).val)) := by
  have hbody := Decodes.map (b := b) (.readBeSigned t bs) fun n => some (Number.int n)
  rw [hbs] at hbody
  rcases hformat with ⟨rfl, rfl, rfl⟩ | ⟨rfl, rfl, rfl⟩ | ⟨rfl, rfl, rfl⟩ | ⟨rfl, rfl, rfl⟩
  all_goals
    refine .front (.note _ ?_)
    repeat first | refine .ite_pos (by decide) ?_ | refine .ite_neg (by decide) ?_
    exact .skip hbody

theorem decodes_float32 (bs : List UInt8) (hbs : bs.length = 4) :
    Decodes b (readNumber b) (Format.float32.code :: bs) (some (.float32 (leNat bs))) := by
  refine .front (.note _ ?_)
  repeat first | refine .ite_pos (by decide) ?_ | refine .ite_neg (by decide) ?_
  exact .skip (.copyFloat bs hbs)

theorem decodes_float64 (bs : List UInt8) (hbs : bs.length = 8) :
    Decodes b (readNumber b) (Format.float64.code :: bs) (some (.float64 (leNat bs))) := by
  refine .front (.note _ ?_)
  repeat first | refine .ite_pos (by decide) ?_ | refine .ite_neg (by decide) ?_
  exact .skip (.copyFloat bs hbs)

/-! What the packer writes for an integer of a type is decoded to that integer. -/

theorem toNat_toByte (n : Int) : ((toByte n).toNat : Int) = n % 256 := by
  have lo := Int.emod_nonneg n (show (256 : Int) ≠ 0 by decide)
  have hi := Int.emod_lt_of_pos n (show (0 : Int) < 256 by decide)
  rw [toByte, UInt8.toNat_ofNat_of_lt' (by rw [UInt8.size]; omega), Int.toNat_of_nonneg lo]

theorem wrap_emod (t : IntType) (n : Int) : t.wrap (n % t.modulus) = t.wrap n := by
  apply Subtype.ext
  simp only [IntType.wrap, Int.emod_emod]

theorem beNat_toBe_ofInt (k : Nat) (n : Int) :
    ((beNat (toBe k (Bytes.ofInt k n)) : Nat) : Int) = n % ((256 ^ k : Nat) : Int) := by
  have hpos : 0 < 256 ^ k := Nat.pow_pos (by decide)
  have lo := Int.emod_nonneg n (show ((256 ^ k : Nat) : Int) ≠ 0 by omega)
  rw [Bytes.beNat_toBe, Bytes.ofInt, Int.natCast_emod, Int.toNat_of_nonneg lo, Int.emod_emod]

theorem wrap_ofInt {t : IntType} {k : Nat} (ht : t.modulus = ((256 ^ k : Nat) : Int)) {n : Int} (lo : t.min ≤ n)
    (hi : n ≤ t.max) : (t.wrap (beNat (toBe k (Bytes.ofInt k n)) : Nat)).val = n := by
  rw [beNat_toBe_ofInt, ← ht, wrap_emod, t.wrap_val n lo hi]

theorem wrap_int8 {m : Nat} {n : Int} (h : (m : Int) = n % 256) (lo : -128 ≤ n) (hi : n ≤ 127) :
    (IntType.int8.wrap m).val = n := by
  rw [h]
  exact (congrArg Subtype.val (wrap_emod .int8 n)).trans (IntType.int8.wrap_val n lo hi)

theorem decodes_packInt8 {n : Int} (lo : -128 ≤ n) (hi : n ≤ 127) :
    Decodes b (readNumber b) (packInt8 n) (some (.int n)) := by
  unfold packInt8
  split
  · rename_i h
    have hbyte := toNat_toByte (0xe0 + 32 + n)
    have hge : (224 : Nat) ≤ (toByte (0xe0 + 32 + n)).toNat := by omega
    have := decodes_negative (b := b) (UInt8.le_iff_toNat_le.2 hge)
    rwa [wrap_int8 (n := n) (by omega) lo hi] at this
  · split
    · rename_i h
      have hbyte := toNat_toByte n
      have hle : (toByte n).toNat ≤ 127 := by omega
      have := decodes_positive (b := b) (UInt8.le_iff_toNat_le.2 hle)
      rwa [show ((toByte n).toNat : Int) = n by omega] at this
    · have hone : ((beNat [toByte n] : Nat) : Int) = n % 256 := by simpa [beNat] using toNat_toByte n
      have := decodes_signed (b := b) (.inl ⟨rfl, rfl, rfl⟩) [toByte n] rfl
      rwa [wrap_int8 hone lo hi] at this

theorem decodes_packInt16 {n : Int} (lo : -32768 ≤ n) (hi : n ≤ 32767) :
    Decodes b (readNumber b) (packInt16 n) (some (.int n)) := by
  unfold packInt16
  split
  · rename_i h
    exact decodes_packInt8 h.2 h.1
  · have := decodes_signed (b := b) (.inr (.inl ⟨rfl, rfl, rfl⟩)) (toBe 2 (Bytes.ofInt 2 n)) (Bytes.toBe_length 2 _)
    rwa [wrap_ofInt (t := .int16) (by decide) lo hi] at this

theorem decodes_packInt32 {n : Int} (lo : -2147483648 ≤ n) (hi : n ≤ 2147483647) :
    Decodes b (readNumber b) (packInt32 n) (some (.int n)) := by
  unfold packInt32
  split
  · rename_i h
    exact decodes_packInt16 h.2 h.1
  · have := decodes_signed (b := b) (.inr (.inr (.inl ⟨rfl, rfl, rfl⟩))) (toBe 4 (Bytes.ofInt 4 n)) (Bytes.toBe_length 4 _)
    rwa [wrap_ofInt (t := .int32) (by decide) lo hi] at this

theorem decodes_packInt64 {n : Int} (lo : IntType.int64.min ≤ n) (hi : n ≤ IntType.int64.max) :
    Decodes b (readNumber b) (packInt64 n) (some (.int n)) := by
  unfold packInt64
  split
  · rename_i h
    exact decodes_packInt32 h.2 h.1
  · have := decodes_signed (b := b) (.inr (.inr (.inr ⟨rfl, rfl, rfl⟩))) (toBe 8 (Bytes.ofInt 8 n)) (Bytes.toBe_length 8 _)
    rwa [wrap_ofInt (t := .int64) (by decide) lo hi] at this

theorem beNat_toBe_toNat {k : Nat} {n : Int} (lo : 0 ≤ n) (hi : n < ((256 ^ k : Nat) : Int)) :
    ((beNat (toBe k n.toNat) : Nat) : Int) = n := by
  rw [Bytes.beNat_toBe, Nat.mod_eq_of_lt (by omega), Int.toNat_of_nonneg lo]

theorem decodes_packUint8 {n : Int} (lo : 0 ≤ n) (hi : n ≤ 255) :
    Decodes b (readNumber b) (packUint8 n) (some (.int n)) := by
  have hbyte := toNat_toByte n
  unfold packUint8
  split
  · have hle : (toByte n).toNat ≤ 127 := by omega
    have := decodes_positive (b := b) (UInt8.le_iff_toNat_le.2 hle)
    rwa [show ((toByte n).toNat : Int) = n by omega] at this
  · have := decodes_unsigned (b := b) (.inl ⟨rfl, rfl⟩) [toByte n] rfl
    have hone : ((beNat [toByte n] : Nat) : Int) = n := by
      have hmod : n % 256 = n := by omega
      simpa [beNat, hmod] using hbyte
    rwa [hone] at this

theorem decodes_packUint16 {n : Int} (lo : 0 ≤ n) (hi : n ≤ 65535) :
    Decodes b (readNumber b) (packUint16 n) (some (.int n)) := by
  unfold packUint16
  split
  · have := decodes_unsigned (b := b) (.inr (.inl ⟨rfl, rfl⟩)) (toBe 2 n.toNat) (Bytes.toBe_length 2 _)
    rwa [beNat_toBe_toNat lo (by omega)] at this
  · rename_i h
    exact decodes_packUint8 lo (Int.not_lt.1 h)

theorem decodes_packUint32 {n : Int} (lo : 0 ≤ n) (hi : n ≤ 4294967295) :
    Decodes b (readNumber b) (packUint32 n) (some (.int n)) := by
  unfold packUint32
  split
  · have := decodes_unsigned (b := b) (.inr (.inr (.inl ⟨rfl, rfl⟩))) (toBe 4 n.toNat) (Bytes.toBe_length 4 _)
    rwa [beNat_toBe_toNat lo (by omega)] at this
  · rename_i h
    exact decodes_packUint16 lo (Int.not_lt.1 h)

theorem decodes_packUint64 {n : Int} (lo : 0 ≤ n) (hi : n ≤ 18446744073709551615) :
    Decodes b (readNumber b) (packUint64 n) (some (.int n)) := by
  unfold packUint64
  split
  · have := decodes_unsigned (b := b) (.inr (.inr (.inr ⟨rfl, rfl⟩))) (toBe 8 n.toNat) (Bytes.toBe_length 8 _)
    rwa [beNat_toBe_toNat lo (by omega)] at this
  · rename_i h
    exact decodes_packUint32 lo (Int.not_lt.1 h)

/-- **An integer of a type is decoded as it was packed.** -/
theorem decodes_packInt : ∀ (t : IntType) (n : t.Val), Decodes b (readNumber b) (packInt t n.val) (some (.int n.val))
  | .int8,   n => decodes_packInt8 n.2.1 n.2.2
  | .int16,  n => decodes_packInt16 n.2.1 n.2.2
  | .int32,  n => decodes_packInt32 n.2.1 n.2.2
  | .int64,  n => decodes_packInt64 n.2.1 n.2.2
  | .uint8,  n => decodes_packUint8 n.2.1 n.2.2
  | .uint16, n => decodes_packUint16 n.2.1 n.2.2
  | .uint32, n => decodes_packUint32 n.2.1 n.2.2
  | .uint64, n => decodes_packUint64 n.2.1 n.2.2

theorem Decodes.number {t : NumType} {bs : List UInt8} {x : Number} {val : t.Val}
    (h : Decodes b (readNumber b) bs (some x)) (hcast : t.cast x = some val) : Decodes b (unpackNumber b t) bs val := by
  unfold unpackNumber
  rw [← List.append_nil bs]
  apply h.bind
  dsimp only
  rw [hcast]
  exact .note _ (.pure val)

theorem decodes_packBool (value : Bool) : Decodes b (unpackBool b) (packBool value) value := by
  cases value with
  | false => exact .front (.ite_pos rfl (.note _ (.skip (.pure false))))
  | true  => exact .front (.ite_neg (by decide) (.front (.ite_pos rfl (.note _ (.skip (.pure true))))))

theorem decodes_packNil : Decodes b (unpackNil b) packNil () := by
  intro u hle hu
  exact Decodes.safeIncremen packNil { u with log := .marker .nil ((b.bytes[u.dataPointer]?).getD 0) :: u.log } hle hu

/-! ## Strings -/

theorem fixstr_byte : ∀ len ≤ 31, 0xa0 ≤ UInt8.ofNat (0xa0 ||| len) ∧ UInt8.ofNat (0xa0 ||| len) ≤ 0xbf ∧
    (UInt8.ofNat (0xa0 ||| len) &&& 0x1f).toNat = len := by decide

/-- A length of one byte. -/
theorem Decodes.sized {α : Type} {f : Nat → Reader α} {len : Nat} (hlen : len ≤ 255) {bs : List UInt8} {a : α}
    (hf : Decodes b (f len) bs a) : Decodes b (do f (← Msgpack.readBeUnsigned b 1)) (UInt8.ofNat len :: bs) a := by
  have hone : Decodes b (Msgpack.readBeUnsigned b 1) [UInt8.ofNat len] len := by
    have h := Decodes.readBeUnsigned (b := b) [UInt8.ofNat len]
    have hval : beNat [UInt8.ofNat len] = len := by
      simp only [beNat, List.foldl_cons, List.foldl_nil, Nat.zero_mul, Nat.zero_add]
      exact UInt8.toNat_ofNat_of_lt' (by rw [UInt8.size]; omega)
    rwa [hval] at h
  exact hone.bind hf

theorem decodes_packString {str : List UInt8} (h : str.length ≤ 255) :
    Decodes b (unpackString b) (packString str) str := by
  unfold packString
  dsimp only
  by_cases hfix : str.length ≤ 31
  · rw [if_pos hfix]
    obtain ⟨hlo, hhi, hlen⟩ := fixstr_byte str.length hfix
    refine .front (.note _ (.ite_pos ⟨hlo, hhi⟩ (.skip ?_)))
    rw [hlen]
    exact .takeBytes str
  · rw [if_neg hfix, if_pos h]
    refine .front (.note _ ?_)
    repeat first | refine .ite_pos (by decide) ?_ | refine .ite_neg (by decide) ?_
    exact .skip (.sized h (.takeBytes str))

theorem decodes_packBinary {data : List UInt8} (h : data.length < 255) :
    Decodes b (unpackBinary b) (packBinary data) data := by
  unfold packBinary
  dsimp only
  rw [if_pos h]
  refine .front (.note _ ?_)
  repeat first | refine .ite_pos (by decide) ?_ | refine .ite_neg (by decide) ?_
  exact .skip (.sized (Nat.le_of_lt h) (.takeBytes data))

/-! ## Containers -/

theorem decodes_announce (reserves : Bool) {count : Nat} (h : count ≤ 15) : Decodes b (announce b reserves count) [] () := by
  have hmax := b.maxSize_le
  intro u _ _
  unfold announce
  dsimp only
  split
  · rw [if_neg (by omega)]
    exact ⟨_, rfl, rfl, rfl⟩
  · exact ⟨_, rfl, rfl, rfl⟩

/-- Elements one after another. -/
theorem decodes_elements {α : Type} {m : Reader α} {vs : List α} {bs : List UInt8}
    (h : Sequence (fun v xs => Decodes b m xs v) vs bs) :
    ∀ acc, Decodes b (unpackElements m vs.length acc) bs (acc ++ vs) := by
  induction h with
  | nil                            =>
    intro acc
    rw [List.append_nil]
    exact .pure acc
  | @cons v vs xs ys hhead _ ih =>
    intro acc
    have hrest := ih (acc ++ [v])
    rw [List.append_assoc, List.singleton_append] at hrest
    exact hhead.bind hrest

theorem fixarray_byte : ∀ size ≤ 15, 0x90 ≤ UInt8.ofNat (0x90 ||| size) ∧ UInt8.ofNat (0x90 ||| size) ≤ 0x9f ∧
    (UInt8.ofNat (0x90 ||| size) &&& 0x0f).toNat = size := by decide

theorem decodes_packArray {α : Type} {m : Reader α} {packType : α → List UInt8} {vs : List α} (indexed : Bool) (init : α)
    (hsize : vs.length ≤ 15) (h : ∀ v ∈ vs, Decodes b m (packType v) v) :
    Decodes b (unpackArray b indexed init m) (packArray packType vs) vs := by
  unfold packArray
  dsimp only
  rw [if_pos hsize]
  obtain ⟨hlo, hhi, hlen⟩ := fixarray_byte vs.length hsize
  refine .front (.note _ (.ite_pos ⟨hlo, hhi⟩ (.skip ?_)))
  rw [hlen]
  exact (decodes_announce indexed hsize).still (decodes_elements (.flatMap h) [])

theorem decodes_copyOut {α : Type} {size : Nat} (init : α) (array : {array : List α // array.length = size}) :
    Decodes b (copyOut size init array.val) [] array := by
  have hlen : array.val.length = size := array.2
  intro u _ _
  unfold copyOut
  dsimp only
  rw [dif_pos (Nat.le_of_eq hlen)]
  refine ⟨{ u with log := .elements array.val.length size :: u.log }, ?_, rfl, rfl⟩
  congr 1
  apply Subtype.ext
  simp [hlen]

theorem decodes_packStdarray {α : Type} {m : Reader α} {packType : α → List UInt8} {size : Nat} (init : α)
    (array : {array : List α // array.length = size}) (hsize : size ≤ 15)
    (h : ∀ v ∈ array.val, Decodes b m (packType v) v) :
    Decodes b (unpackStdarray b size init m) (packArray packType array.val) array := by
  have hlen : array.val.length = size := array.2
  have hall := (decodes_packArray (b := b) true init (hlen.symm ▸ hsize) h).bind (decodes_copyOut init array)
  rw [List.append_nil] at hall
  exact hall

/-- Entries one after another. -/
theorem decodes_entries {α β : Type} {keys : Keys α} {mk : Reader α} {mv : Reader β} {entries : List (α × β)}
    {bs : List UInt8} (h : Sequence (Pair (fun k xs => Decodes b mk xs k) fun v ys => Decodes b mv ys v) entries bs) :
    ∀ map : KeyedMap keys β, Decodes b (unpackEntries mk mv entries.length map) bs (map.insertAll entries) := by
  induction h with
  | nil                             => exact fun map => .pure map
  | @cons e entries ws zs hhead _ ih =>
    intro map
    obtain ⟨xs, ys, hkey, hval, rfl⟩ := hhead
    rw [List.append_assoc]
    exact hkey.bind (hval.bind (ih (map.insertOrAssign e.1 e.2)))

theorem fixmap_byte : ∀ size ≤ 15, 0x80 ≤ UInt8.ofNat (0x80 ||| size) ∧ UInt8.ofNat (0x80 ||| size) ≤ 0x8f ∧
    (UInt8.ofNat (0x80 ||| size) &&& 0x0f).toNat = size := by decide

theorem decodes_packMap {α β : Type} {keys : Keys α} {mk : Reader α} {mv : Reader β} {packKey : α → List UInt8}
    {packMapped : β → List UInt8} (unordered : Bool) (map : KeyedMap keys β) (hsize : map.1.length ≤ 15)
    (h : ∀ e ∈ map.1, Decodes b mk (packKey e.1) e.1 ∧ Decodes b mv (packMapped e.2) e.2) :
    Decodes b (unpackMap b keys unordered mk mv) (packMap packKey packMapped map.1) map := by
  unfold packMap
  dsimp only
  rw [if_pos hsize]
  obtain ⟨hlo, hhi, hlen⟩ := fixmap_byte map.1.length hsize
  refine .front (.note _ (.ite_pos ⟨hlo, hhi⟩ (.skip ?_)))
  rw [hlen]
  have hsequence : Sequence (Pair (fun k xs => Decodes b mk xs k) fun v ys => Decodes b mv ys v) map.1
      (map.1.flatMap fun e => packKey e.1 ++ packMapped e.2) :=
    .flatMap fun e he => ⟨packKey e.1, packMapped e.2, (h e he).1, (h e he).2, rfl⟩
  have hentries := decodes_entries hsequence (.empty : KeyedMap keys β)
  rw [KeyedMap.insertAll_eq map.1 .empty map rfl] at hentries
  exact (decodes_announce unordered hsize).still hentries

end

end Gb.Msgpack
