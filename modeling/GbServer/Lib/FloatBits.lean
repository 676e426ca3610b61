import GbServer.Lib.Bytes
/-!
# FloatBits — binary interchange formats as bit patterns

A format has fields for a fraction and an exponent below its sign.  The magnitude of a finite pattern is a whole number
of the smallest positive one, so it is a natural number (`magnitude`), and a magnitude that need not be one of the
format is rounded to nearest, ties to even (`encode`).  What the format holds exactly is encoded as it was
(`encode_magnitude`): integers and narrower formats come through unchanged.
-/
namespace FloatBits

structure Format where
  fraction : Nat
  exponent : Nat

def binary32 : Format := ⟨23, 8⟩

def binary64 : Format := ⟨52, 11⟩

namespace Format

variable (f : Format)

/-- The number of binary places of the smallest positive pattern. -/
def places : Nat := 2 ^ (f.exponent - 1) - 2 + f.fraction

/-- The pattern of infinity, without its sign. -/
def infinity : Nat := (2 ^ f.exponent - 1) * 2 ^ f.fraction

def signBit : Nat := 2 ^ (f.fraction + f.exponent)

def negative (bits : Nat) : Bool := decide (f.signBit ≤ bits % (2 * f.signBit))

/-- A pattern without its sign. -/
def absolute (bits : Nat) : Nat := bits % f.signBit

def withSign (neg : Bool) (abs : Nat) : Nat := if neg then f.signBit + abs else abs

/-- What a pattern without its sign stands for, in units of the smallest positive pattern. -/
def magnitude (abs : Nat) : Nat :=
  if abs < 2 ^ f.fraction then abs
  else (2 ^ f.fraction + abs % 2 ^ f.fraction) * 2 ^ (abs / 2 ^ f.fraction - 1)

def bitLength (n : Nat) : Nat := if n = 0 then 0 else n.log2 + 1

/-- `n / 2 ^ s` to the nearest whole number, ties to even. -/
def roundShift (n s : Nat) : Nat :=
  let q := n / 2 ^ s
  let r := 2 * (n % 2 ^ s)
  if r < 2 ^ s then q else if 2 ^ s < r then q + 1 else q + q % 2

/-- The pattern nearest to `n` units divided by `2 ^ d`, infinity for what is too large. -/
def encode (d n : Nat) : Nat :=
  let s := max (bitLength n - (f.fraction + 1)) d
  min ((s - d) * 2 ^ f.fraction + roundShift n s) f.infinity

theorem bitLength_le {n k : Nat} (h : n < 2 ^ k) : bitLength n ≤ k := by
  unfold bitLength
  split
  · exact Nat.zero_le k
  · rename_i hn
    exact (Nat.log2_lt hn).2 h

theorem bitLength_eq {n k : Nat} (lo : 2 ^ k ≤ n) (hi : n < 2 ^ (k + 1)) : bitLength n = k + 1 := by
  have hn : n ≠ 0 := Nat.ne_of_gt (Nat.lt_of_lt_of_le (Nat.two_pow_pos k) lo)
  rw [bitLength, if_neg hn, (Nat.log2_eq_iff hn).2 ⟨lo, hi⟩]

theorem roundShift_exact (m s : Nat) : roundShift (m * 2 ^ s) s = m := by
  have hs := Nat.two_pow_pos s
  rw [roundShift, Nat.mul_mod_left, Nat.mul_div_cancel _ hs, Nat.mul_zero, if_pos hs]

/-- **A magnitude of the format is encoded as it was.** -/
theorem encode_magnitude {abs : Nat} (h : abs < f.infinity) (d : Nat) : f.encode d (f.magnitude abs * 2 ^ d) = abs := by
  have hF := Nat.two_pow_pos f.fraction
  unfold encode magnitude
  split
  · rename_i hlt
    have hlen : bitLength (abs * 2 ^ d) ≤ f.fraction + d :=
      bitLength_le (by rw [Nat.pow_add]; exact Nat.mul_lt_mul_of_pos_right hlt (Nat.two_pow_pos d))
    have hs : max (bitLength (abs * 2 ^ d) - (f.fraction + 1)) d = d := by omega
    rw [hs]
    dsimp only
    rw [Nat.sub_self, Nat.zero_mul, Nat.zero_add, roundShift_exact, Nat.min_eq_left (Nat.le_of_lt h)]
  · rename_i hge
    have hex : 1 ≤ abs / 2 ^ f.fraction := (Nat.one_le_div_iff hF).2 (Nat.le_of_not_lt hge)
    have hmod := Nat.mod_lt abs hF
    rw [Nat.mul_assoc, ← Nat.pow_add]
    generalize hk : abs / 2 ^ f.fraction - 1 + d = k
    have hlen : bitLength ((2 ^ f.fraction + abs % 2 ^ f.fraction) * 2 ^ k) = f.fraction + k + 1 := by
      apply bitLength_eq
      · rw [Nat.pow_add]
        exact Nat.mul_le_mul_right _ (Nat.le_add_right _ _)
      · rw [show f.fraction + k + 1 = (f.fraction + 1) + k by omega, Nat.pow_add]
        exact Nat.mul_lt_mul_of_pos_right (by rw [Nat.pow_succ]; omega) (Nat.two_pow_pos k)
    have hs : max (f.fraction + k + 1 - (f.fraction + 1)) d = k := by omega
    rw [hlen, hs]
    dsimp only
    have hbits : (k - d) * 2 ^ f.fraction + (2 ^ f.fraction + abs % 2 ^ f.fraction) = abs := by
      calc (k - d) * 2 ^ f.fraction + (2 ^ f.fraction + abs % 2 ^ f.fraction)
          = (k - d + 1) * 2 ^ f.fraction + abs % 2 ^ f.fraction := by rw [Nat.add_mul, Nat.one_mul, Nat.add_assoc]
        _ = 2 ^ f.fraction * (abs / 2 ^ f.fraction) + abs % 2 ^ f.fraction := by
            rw [Nat.mul_comm, show k - d + 1 = abs / 2 ^ f.fraction by omega]
        _ = abs := Nat.div_add_mod ..
    rw [roundShift_exact, hbits, Nat.min_eq_left (Nat.le_of_lt h)]

/-- Where a pattern stands among the others: both zeros at one place, and a NaN nowhere. -/
def rank (bits : Nat) : Option Int :=
  let abs := f.absolute bits
  if f.infinity < abs then none else some (if f.negative bits then -abs else abs)

/-! ## Integers -/

/-- The integer a pattern is equal to. -/
def toInt (bits : Nat) : Option Int :=
  let abs := f.absolute bits
  if abs < f.infinity ∧ f.magnitude abs % 2 ^ f.places = 0 then
    let n : Nat := f.magnitude abs / 2 ^ f.places
    some (if f.negative bits then -n else n)
  else none

/-- The integer part of a finite pattern, towards zero. -/
def truncate (bits : Nat) : Option Int :=
  let abs := f.absolute bits
  if abs < f.infinity then
    let n : Nat := f.magnitude abs / 2 ^ f.places
    some (if f.negative bits then -n else n)
  else none

def ofInt (n : Int) : Nat := f.withSign (decide (n < 0)) (f.encode 0 (n.natAbs * 2 ^ f.places))

theorem magnitude_pos {abs : Nat} (h : abs ≠ 0) : f.magnitude abs ≠ 0 := by
  unfold magnitude
  split
  · exact h
  · exact Nat.mul_ne_zero (Nat.ne_of_gt (Nat.add_pos_left (Nat.two_pow_pos _) _)) (Nat.ne_of_gt (Nat.two_pow_pos _))

theorem signBit_pos : 0 < f.signBit := Nat.two_pow_pos _

theorem withSign_absolute {bits : Nat} (h : bits < 2 * f.signBit) : f.withSign (f.negative bits) (f.absolute bits) = bits := by
  have hpos := f.signBit_pos
  unfold withSign negative absolute
  rw [Nat.mod_eq_of_lt h]
  by_cases hneg : f.signBit ≤ bits
  · have hmod : bits % f.signBit = bits - f.signBit := by
      rw [Nat.mod_eq_sub_mod hneg, Nat.mod_eq_of_lt (by omega)]
    rw [decide_eq_true hneg, if_pos rfl, hmod]
    omega
  · rw [decide_eq_false hneg, if_neg Bool.false_ne_true, Nat.mod_eq_of_lt (Nat.lt_of_not_le hneg)]

/-- **An integral pattern, but for the negative zero, is the pattern of its integer.** -/
theorem ofInt_of_toInt {bits : Nat} {n : Int} (h : f.toInt bits = some n) (hbits : bits < 2 * f.signBit)
    (hzero : bits ≠ f.signBit) : f.ofInt n = bits := by
  unfold toInt at h
  dsimp only at h
  split at h
  · rename_i hint
    have hn := Option.some.inj h
    have hmul : f.magnitude (f.absolute bits) / 2 ^ f.places * 2 ^ f.places = f.magnitude (f.absolute bits) :=
      Nat.div_mul_cancel (Nat.dvd_of_mod_eq_zero hint.2)
    have habs : n.natAbs = f.magnitude (f.absolute bits) / 2 ^ f.places := by
      rw [← hn]
      split
      · rw [Int.natAbs_neg, Int.natAbs_natCast]
      · rw [Int.natAbs_natCast]
    have hencode : f.encode 0 (n.natAbs * 2 ^ f.places) = f.absolute bits := by
      have := f.encode_magnitude hint.1 0
      rwa [Nat.pow_zero, Nat.mul_one, ← hmul, ← habs] at this
    have hsign : decide (n < 0) = f.negative bits := by
      by_cases hneg : f.negative bits = true
      · rw [if_pos hneg] at hn
        have hne : f.absolute bits ≠ 0 := by
          intro habs0
          have := f.withSign_absolute hbits
          rw [hneg, habs0] at this
          exact hzero this.symm
        have hpos : n.natAbs ≠ 0 := by
          intro h0
          rw [h0] at habs
          exact f.magnitude_pos hne (by rw [← hmul, ← habs, Nat.zero_mul])
        rw [hneg, decide_eq_true_iff]
        omega
      · rw [if_neg hneg] at hn
        rw [Bool.not_eq_true] at hneg
        rw [hneg, decide_eq_false_iff_not]
        omega
    rw [ofInt, hencode, hsign, f.withSign_absolute hbits]
  · cases h

theorem toInt_signBit (h : 0 < f.infinity) : f.toInt f.signBit = some 0 := by
  have habs : f.absolute f.signBit = 0 := Nat.mod_self _
  have hmag : f.magnitude 0 = 0 := if_pos (Nat.two_pow_pos _)
  unfold toInt
  dsimp only
  rw [habs, hmag, Nat.zero_mod, if_pos ⟨h, rfl⟩, Nat.zero_div]
  simp

theorem ofInt_zero : f.ofInt 0 = 0 := by
  have hround : roundShift 0 0 = 0 := rfl
  simp [ofInt, withSign, encode, bitLength, hround]

end Format

/-- The pattern of another format: a NaN keeps the front of its payload and becomes a quiet one. -/
def convert (f g : Format) (bits : Nat) : Nat :=
  let abs := f.absolute bits
  g.withSign (f.negative bits)
    (if abs < f.infinity then g.encode (f.places - g.places) (f.magnitude abs * 2 ^ (g.places - f.places))
    else if abs = f.infinity then g.infinity
    else
      g.infinity + (2 ^ (g.fraction - 1) ||| ((abs % 2 ^ f.fraction) * 2 ^ g.fraction / 2 ^ f.fraction)))

end FloatBits
