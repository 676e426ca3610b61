import GbServer.Lib.FloatBits
import Mathlib.Tactic.Ring
/-!
# FloatNearest — the pattern nearest to a ratio, and what is printed and read again

`roundDiv` is a ratio to the nearest whole number, ties to even, and `Format.nearest` the pattern nearest to a ratio of the
smallest positive one; no other pattern is nearer (`nearest_le`).  A number that is printed as a multiple of a fraction of
one and read again is printed the same (`roundDiv_nearest`), whether or not it is read as the number that it was.
-/
namespace FloatBits

/-- `n / m` to the nearest whole number, ties to even. -/
def roundDiv (n m : Nat) : Nat :=
  let q := n / m
  let r := 2 * (n % m)
  if r < m then q else if m < r then q + 1 else q + q % 2

/-- How far `n / m` is from `k`, in units of `1 / m`. -/
def gap (n m k : Nat) : Nat := ((n : Int) - m * k).natAbs

theorem roundDiv_spec {n m : Nat} (hm : 0 < m) :
    2 * gap n m (roundDiv n m) ≤ m ∧ (2 * gap n m (roundDiv n m) = m → roundDiv n m % 2 = 0) := by
  have hdiv : m * (n / m) + n % m = n := Nat.div_add_mod n m
  have hmod : n % m < m := Nat.mod_lt n hm
  have hsucc : m * (n / m + 1) = m * (n / m) + m := Nat.mul_succ m (n / m)
  unfold gap
  have hcast (k : Nat) : (m : Int) * k = ((m * k : Nat) : Int) := (Nat.cast_mul m k).symm
  rw [hcast]
  unfold roundDiv
  dsimp only
  generalize n % m = r at *
  generalize hq : n / m = q at *
  split
  · omega
  · split
    · rw [hsucc]
      omega
    · rcases Nat.mod_two_eq_zero_or_one q with heven | hodd
      · rw [heven, Nat.add_zero]
        omega
      · rw [hodd, hsucc]
        omega

/-- Two whole numbers at no more than a half are the same, or both are at a half. -/
theorem gap_lt {n m k l : Nat} (hkl : k < l) : m ≤ gap n m k + gap n m l := by
  have hmul : m * (k + 1) ≤ m * l := Nat.mul_le_mul_left m hkl
  rw [Nat.mul_succ] at hmul
  have hcast (k : Nat) : (m : Int) * k = ((m * k : Nat) : Int) := (Nat.cast_mul m k).symm
  unfold gap
  rw [hcast, hcast]
  omega

theorem gap_add_lt {n m k l : Nat} (hm : 0 < m) (hkl : k + 1 < l) : m < gap n m k + gap n m l := by
  have hmul : m * (k + 2) ≤ m * l := Nat.mul_le_mul_left m hkl
  rw [Nat.mul_add] at hmul
  have hcast (k : Nat) : (m : Int) * k = ((m * k : Nat) : Int) := (Nat.cast_mul m k).symm
  unfold gap
  rw [hcast, hcast]
  omega

/-- **What rounds to nearest is determined.** -/
theorem roundDiv_unique {n m k : Nat} (hm : 0 < m) (hle : 2 * gap n m k ≤ m) (heven : 2 * gap n m k = m → k % 2 = 0) :
    roundDiv n m = k := by
  obtain ⟨hle', heven'⟩ := roundDiv_spec (n := n) hm
  rcases Nat.lt_trichotomy (roundDiv n m) k with hlt | heq | hlt
  · have hsum := gap_lt (n := n) (m := m) hlt
    by_cases hnext : roundDiv n m + 1 < k
    · have := gap_add_lt (n := n) hm hnext
      omega
    · have := heven (by omega)
      have := heven' (by omega)
      omega
  · exact heq
  · have hsum := gap_lt (n := n) (m := m) hlt
    by_cases hnext : k + 1 < roundDiv n m
    · have := gap_add_lt (n := n) hm hnext
      omega
    · have := heven (by omega)
      have := heven' (by omega)
      omega

/-- No whole number is nearer. -/
theorem gap_roundDiv_le {n m : Nat} (hm : 0 < m) (k : Nat) : gap n m (roundDiv n m) ≤ gap n m k := by
  obtain ⟨hle, -⟩ := roundDiv_spec (n := n) hm
  rcases Nat.lt_trichotomy (roundDiv n m) k with hlt | heq | hlt
  · have := gap_lt (n := n) (m := m) hlt
    omega
  · rw [heq]
  · have := gap_lt (n := n) (m := m) hlt
    omega

theorem roundDiv_le {n m k : Nat} (hm : 0 < m) (h : n ≤ m * k) : roundDiv n m ≤ k := by
  by_contra hlt
  obtain ⟨hle, -⟩ := roundDiv_spec (n := n) hm
  have hmul : m * (k + 1) ≤ m * roundDiv n m := Nat.mul_le_mul_left m (Nat.lt_of_not_le hlt)
  rw [Nat.mul_succ] at hmul
  unfold gap at hle
  rw [(Nat.cast_mul m (roundDiv n m)).symm] at hle
  omega

theorem le_roundDiv {n m k : Nat} (hm : 0 < m) (h : m * k ≤ n) : k ≤ roundDiv n m := by
  by_contra hlt
  obtain ⟨hle, -⟩ := roundDiv_spec (n := n) hm
  have hmul : m * (roundDiv n m + 1) ≤ m * k := Nat.mul_le_mul_left m (Nat.lt_of_not_le hlt)
  rw [Nat.mul_succ] at hmul
  unfold gap at hle
  rw [(Nat.cast_mul m (roundDiv n m)).symm] at hle
  omega

theorem roundDiv_mul_right (n m : Nat) {k : Nat} (hk : 0 < k) : roundDiv (n * k) (m * k) = roundDiv n m := by
  have hmod : n * k % (m * k) = n % m * k := Nat.mul_mod_mul_right k n m
  have hdiv : n * k / (m * k) = n / m := Nat.mul_div_mul_right n m hk
  have hlt (a b : Nat) : a * k < b * k ↔ a < b := Nat.mul_lt_mul_right hk
  unfold roundDiv
  dsimp only
  rw [hmod, hdiv, ← Nat.mul_assoc]
  simp only [hlt]

namespace Format

theorem roundShift_eq (n s : Nat) : roundShift n s = roundDiv n (2 ^ s) := rfl

variable (f : Format)

/-- The pattern nearest to `n / m` units, infinity for what is too large. -/
def nearest (n m : Nat) : Nat :=
  let s := bitLength (n / m) - (f.fraction + 1)
  min (s * 2 ^ f.fraction + roundDiv n (m * 2 ^ s)) f.infinity

/-- The places that are cut off of a ratio, and what is left of it. -/
theorem cut_spec {n m : Nat} (hm : 0 < m) {s : Nat} (hs : s = bitLength (n / m) - (f.fraction + 1)) :
    roundDiv n (m * 2 ^ s) ≤ 2 ^ (f.fraction + 1) ∧ (s = 0 ∨ m * 2 ^ s * 2 ^ f.fraction ≤ n) := by
  have hpos : 0 < m * 2 ^ s := Nat.mul_pos hm (Nat.two_pow_pos s)
  have hlen : n / m < 2 ^ bitLength (n / m) := by
    unfold bitLength
    split
    · rename_i h
      rw [h]
      exact Nat.one_pos
    · exact Nat.lt_log2_self
  constructor
  · apply roundDiv_le hpos
    have hpow : 2 ^ bitLength (n / m) ≤ 2 ^ (s + (f.fraction + 1)) := Nat.pow_le_pow_right Nat.two_pos (by omega)
    have hlt : n < m * 2 ^ (s + (f.fraction + 1)) := by
      have hmul := (Nat.div_lt_iff_lt_mul hm).1 (Nat.lt_of_lt_of_le hlen hpow)
      rwa [Nat.mul_comm] at hmul
    rw [Nat.pow_add, ← Nat.mul_assoc] at hlt
    exact Nat.le_of_lt hlt
  · by_cases h0 : s = 0
    · exact .inl h0
    · refine .inr ?_
      have hne : n / m ≠ 0 := by
        intro h
        rw [h] at hs
        exact h0 (by simpa [bitLength] using hs)
      have hlog : bitLength (n / m) = (n / m).log2 + 1 := if_neg hne
      have hle : 2 ^ (s + f.fraction) ≤ n / m := (Nat.le_log2 hne).1 (by omega)
      have hmul := (Nat.le_div_iff_mul_le hm).1 hle
      rw [Nat.mul_assoc, ← Nat.pow_add, Nat.mul_comm]
      exact hmul

/-- The magnitude of the nearest pattern, if there is one. -/
theorem magnitude_nearest {n m : Nat} (hm : 0 < m) (hfin : f.nearest n m < f.infinity) {s : Nat}
    (hs : s = bitLength (n / m) - (f.fraction + 1)) : f.magnitude (f.nearest n m) = roundDiv n (m * 2 ^ s) * 2 ^ s := by
  have hF := Nat.two_pow_pos f.fraction
  obtain ⟨hle, hge⟩ := f.cut_spec hm hs
  have hpattern : f.nearest n m = s * 2 ^ f.fraction + roundDiv n (m * 2 ^ s) := by
    unfold nearest at hfin ⊢
    rw [← hs] at hfin ⊢
    dsimp only at hfin ⊢
    omega
  have hfloor : s = 0 ∨ 2 ^ f.fraction ≤ roundDiv n (m * 2 ^ s) :=
    hge.imp_right (le_roundDiv (Nat.mul_pos hm (Nat.two_pow_pos s)))
  rw [hpattern]
  generalize roundDiv n (m * 2 ^ s) = k at *
  rw [Nat.pow_succ] at hle
  by_cases hsmall : s * 2 ^ f.fraction + k < 2 ^ f.fraction
  · have h0 : s = 0 := by
      by_contra hpos
      have := Nat.le_mul_of_pos_left (2 ^ f.fraction) (Nat.pos_of_ne_zero hpos)
      omega
    rw [magnitude, if_pos hsmall, h0]
    omega
  · have hk : 2 ^ f.fraction ≤ k := by
      rcases hfloor with h0 | hk
      · rw [h0, Nat.zero_mul] at hsmall
        omega
      · exact hk
    rw [magnitude, if_neg hsmall]
    by_cases htop : k < 2 ^ f.fraction * 2
    · obtain ⟨r, rfl⟩ := Nat.exists_eq_add_of_le hk
      have hsplit : s * 2 ^ f.fraction + (2 ^ f.fraction + r) = r + 2 ^ f.fraction * (s + 1) := by ring
      rw [hsplit, Nat.add_mul_mod_self_left, Nat.add_mul_div_left _ _ hF, Nat.mod_eq_of_lt (by omega),
        Nat.div_eq_of_lt (by omega), Nat.zero_add, Nat.add_sub_cancel]
    · have hk2 : k = 2 ^ f.fraction * 2 := by omega
      have hsplit : s * 2 ^ f.fraction + k = 2 ^ f.fraction * (s + 2) := by rw [hk2]; ring
      rw [hsplit, Nat.mul_mod_right, Nat.mul_div_cancel_left _ hF, hk2, show s + 2 - 1 = s + 1 from rfl, Nat.pow_succ]
      ring

/-- A large magnitude ends in zeros. -/
theorem dvd_magnitude {a s : Nat} (h : 2 ^ (f.fraction + s) ≤ f.magnitude a) : 2 ^ s ∣ f.magnitude a := by
  unfold magnitude at h ⊢
  split at h
  · rename_i hlt
    have := Nat.pow_le_pow_right Nat.two_pos (Nat.le_add_right f.fraction s)
    omega
  · rename_i hge
    rw [if_neg hge]
    apply Dvd.dvd.mul_left
    apply Nat.pow_dvd_pow
    have hmod := Nat.mod_lt a (Nat.two_pow_pos f.fraction)
    have hlt : 2 ^ (f.fraction + s) < 2 ^ (f.fraction + 1 + (a / 2 ^ f.fraction - 1)) := by
      refine Nat.lt_of_le_of_lt h ?_
      rw [Nat.pow_add _ (f.fraction + 1)]
      exact Nat.mul_lt_mul_of_pos_right (by rw [Nat.pow_succ]; omega) (Nat.two_pow_pos _)
    have := (Nat.pow_lt_pow_iff_right Nat.one_lt_two).1 hlt
    omega

/-- **No pattern is nearer than the nearest.** -/
theorem nearest_le {n m : Nat} (hm : 0 < m) (hfin : f.nearest n m < f.infinity) (a : Nat) :
    gap n m (f.magnitude (f.nearest n m)) ≤ gap n m (f.magnitude a) := by
  obtain ⟨s, hs⟩ : ∃ s, s = bitLength (n / m) - (f.fraction + 1) := ⟨_, rfl⟩
  have hpos : 0 < m * 2 ^ s := Nat.mul_pos hm (Nat.two_pow_pos s)
  have hgap (k : Nat) : gap n m (k * 2 ^ s) = gap n (m * 2 ^ s) k := by
    unfold gap
    congr 2
    push_cast
    ring
  obtain ⟨-, hge⟩ := f.cut_spec hm hs
  rw [f.magnitude_nearest hm hfin hs, hgap]
  by_cases hlarge : 2 ^ (f.fraction + s) ≤ f.magnitude a
  · obtain ⟨k, hk⟩ := f.dvd_magnitude hlarge
    rw [hk, Nat.mul_comm (2 ^ s), hgap]
    exact gap_roundDiv_le hpos k
  · rcases hge with h0 | hge
    · have hone : f.magnitude a = f.magnitude a * 2 ^ s := by rw [h0, Nat.pow_zero, Nat.mul_one]
      rw [hone, hgap]
      exact gap_roundDiv_le hpos _
    · -- a smaller one is further off than the power of two between
      refine Nat.le_trans (gap_roundDiv_le hpos (2 ^ f.fraction)) ?_
      rw [← hgap]
      have hlt : m * f.magnitude a ≤ m * (2 ^ f.fraction * 2 ^ s) := by
        apply Nat.mul_le_mul_left
        rw [← Nat.pow_add]
        omega
      have hle : m * (2 ^ f.fraction * 2 ^ s) ≤ n := by
        rw [Nat.mul_comm (2 ^ f.fraction), ← Nat.mul_assoc]
        exact hge
      have hcast (k : Nat) : (m : Int) * k = ((m * k : Nat) : Int) := (Nat.cast_mul m k).symm
      unfold gap
      rw [hcast, hcast]
      omega

/-- What a format holds exactly is its own nearest pattern. -/
theorem nearest_magnitude {a : Nat} (ha : a < f.infinity) {m : Nat} (hm : 0 < m) :
    f.nearest (f.magnitude a * m) m = a := by
  have hencode := f.encode_magnitude ha 0
  rw [Nat.pow_zero, Nat.mul_one] at hencode
  refine Eq.trans ?_ hencode
  unfold nearest encode
  dsimp only
  rw [Nat.mul_div_cancel _ hm, Nat.max_eq_left (Nat.zero_le _), Nat.sub_zero, Nat.mul_comm m,
    roundDiv_mul_right _ _ hm, roundShift_eq]

/-- What is not too large has a nearest pattern. -/
theorem nearest_lt {n m k : Nat} (hm : 0 < m) (h : n < m * 2 ^ k) (hk : k + 2 < 2 ^ f.exponent + f.fraction)
    (hexponent : 3 < 2 ^ f.exponent) : f.nearest n m < f.infinity := by
  obtain ⟨s, hs⟩ : ∃ s, s = bitLength (n / m) - (f.fraction + 1) := ⟨_, rfl⟩
  obtain ⟨hle, -⟩ := f.cut_spec hm hs
  have hlen : bitLength (n / m) ≤ k := by
    rw [Nat.mul_comm] at h
    exact bitLength_le ((Nat.div_lt_iff_lt_mul hm).2 h)
  refine Nat.lt_of_le_of_lt (Nat.min_le_left _ _) ?_
  rw [← hs]
  calc s * 2 ^ f.fraction + roundDiv n (m * 2 ^ s)
      ≤ s * 2 ^ f.fraction + 2 ^ (f.fraction + 1) := Nat.add_le_add_left hle _
    _ = (s + 2) * 2 ^ f.fraction := by ring
    _ < (2 ^ f.exponent - 1) * 2 ^ f.fraction :=
      Nat.mul_lt_mul_of_pos_right (by omega) (Nat.two_pow_pos f.fraction)

/-! ## Printed and read again -/

/-- `c` is how many of the printed units there are in one, and `2 ^ d` how many of the smallest pattern. -/
theorem roundDiv_nearest {a c d : Nat} (hc : 0 < c)
    (hfin : f.nearest (roundDiv (f.magnitude a * c) (2 ^ d) * 2 ^ d) c < f.infinity) :
    roundDiv (f.magnitude (f.nearest (roundDiv (f.magnitude a * c) (2 ^ d) * 2 ^ d) c) * c) (2 ^ d) =
      roundDiv (f.magnitude a * c) (2 ^ d) := by
  have hd := Nat.two_pow_pos d
  obtain ⟨hle, heven⟩ := roundDiv_spec (n := f.magnitude a * c) hd
  generalize roundDiv (f.magnitude a * c) (2 ^ d) = k at *
  have hnear := f.nearest_le hc hfin a
  -- the distance is the same, seen from the other side
  have hgap (x : Nat) : gap (x * c) (2 ^ d) k = gap (k * 2 ^ d) c x := by
    unfold gap
    rw [← Int.natAbs_neg]
    congr 1
    push_cast
    ring
  rw [hgap] at hle heven
  apply roundDiv_unique hd
  · rw [hgap]
    omega
  · rw [hgap]
    intro heq
    exact heven (by omega)

/-- A number that is printed is not read as infinite. -/
theorem nearest_roundDiv_lt {a c d : Nat} (hc : 0 < c) (ha : a < f.infinity)
    (hd : d + 3 < 2 ^ f.exponent) : f.nearest (roundDiv (f.magnitude a * c) (2 ^ d) * 2 ^ d) c < f.infinity := by
  have hpos := Nat.two_pow_pos d
  by_cases hlarge : 2 ^ (f.fraction + d) ≤ f.magnitude a
  · -- what is printed is the number itself
    obtain ⟨k, hk⟩ := f.dvd_magnitude hlarge
    have hexact : roundDiv (f.magnitude a * c) (2 ^ d) = k * c := by
      apply roundDiv_unique hpos
      · unfold gap
        rw [hk]
        push_cast
        have hzero : (2 : Int) ^ d * k * c - 2 ^ d * (k * c) = 0 := by ring
        rw [hzero]
        omega
      · unfold gap
        rw [hk]
        push_cast
        have hzero : (2 : Int) ^ d * k * c - 2 ^ d * (k * c) = 0 := by ring
        rw [hzero]
        omega
    have hsame : k * c * 2 ^ d = f.magnitude a * c := by
      rw [hk]
      ring
    rw [hexact, hsame, f.nearest_magnitude ha hc]
    exact ha
  · have hround : roundDiv (f.magnitude a * c) (2 ^ d) ≤ c * 2 ^ f.fraction := by
      apply roundDiv_le hpos
      calc f.magnitude a * c ≤ 2 ^ (f.fraction + d) * c := Nat.mul_le_mul_right c (by omega)
        _ = 2 ^ d * (c * 2 ^ f.fraction) := by ring
    refine f.nearest_lt hc (k := f.fraction + d + 1) ?_ (by omega) (by omega)
    calc roundDiv (f.magnitude a * c) (2 ^ d) * 2 ^ d ≤ c * 2 ^ f.fraction * 2 ^ d := Nat.mul_le_mul_right _ hround
      _ = c * 2 ^ (f.fraction + d) := by ring
      _ < c * 2 ^ (f.fraction + d + 1) :=
        Nat.mul_lt_mul_of_pos_left (Nat.pow_lt_pow_right Nat.one_lt_two (Nat.lt_succ_self _)) hc

end Format
end FloatBits
