import GbServer.Lib.FloatBits
/-!
# FloatWiden — a format in a wider one

What a format holds a wider one holds too (`Widens`), the subnormal patterns as normal ones.  A conversion to it and back
gives the pattern again, but for a NaN, which comes back quiet (`convert_convert_iff`), and both patterns are equal to the
same integers (`toInt_convert`).
-/
namespace FloatBits

namespace Format

/-- A pattern of a NaN without the bit that makes it quiet. -/
def signaling (f : Format) (bits : Nat) : Bool :=
  decide (f.infinity < f.absolute bits ∧ f.absolute bits % 2 ^ f.fraction < 2 ^ (f.fraction - 1))

/-- The fields are as wide, and the exponents reach as far down and up. -/
structure Widens (f g : Format) : Prop where
  positive : 0 < f.fraction
  finite   : 0 < f.exponent
  fraction : f.fraction ≤ g.fraction
  places   : f.places + g.fraction ≤ g.places
  top      : g.places + 2 ^ f.exponent + f.fraction ≤ f.places + g.fraction + 2 ^ g.exponent

theorem widens_binary : Widens binary32 binary64 := by
  constructor <;> decide

variable {f g : Format} {bits abs : Nat}

/-- A whole number of few places is a magnitude, where its exponent is in the range. -/
theorem exists_magnitude (g : Format) {n k d : Nat} (lo : 2 ^ k ≤ n) (hi : n < 2 ^ (k + 1)) (hk : k ≤ g.fraction)
    (hd : g.fraction ≤ d + k) (htop : d + k + 2 < g.fraction + 2 ^ g.exponent) :
    ∃ abs < g.infinity, g.magnitude abs = n * 2 ^ d := by
  have hF := Nat.two_pow_pos g.fraction
  have hscaled : 2 ^ g.fraction ≤ n * 2 ^ (g.fraction - k) ∧ n * 2 ^ (g.fraction - k) < 2 * 2 ^ g.fraction := by
    have hpow : 2 ^ g.fraction = 2 ^ k * 2 ^ (g.fraction - k) := by
      rw [← Nat.pow_add]
      congr 1
      omega
    have hpos := Nat.two_pow_pos (g.fraction - k)
    rw [Nat.pow_succ] at hi
    constructor
    · rw [hpow]
      exact Nat.mul_le_mul_right _ lo
    · calc n * 2 ^ (g.fraction - k) < 2 ^ k * 2 * 2 ^ (g.fraction - k) := Nat.mul_lt_mul_of_pos_right hi hpos
        _ = 2 * 2 ^ g.fraction := by rw [hpow, Nat.mul_comm (2 ^ k) 2, Nat.mul_assoc]
  generalize hr : n * 2 ^ (g.fraction - k) - 2 ^ g.fraction = r
  have hrlt : r < 2 ^ g.fraction := by omega
  refine ⟨(d + k - g.fraction + 1) * 2 ^ g.fraction + r, ?_, ?_⟩
  · have hexp : d + k - g.fraction + 1 + 1 ≤ 2 ^ g.exponent - 1 := by omega
    have hmul := Nat.mul_le_mul_right (2 ^ g.fraction) hexp
    rw [Nat.add_mul, Nat.one_mul] at hmul
    unfold infinity
    omega
  · have hge : ¬(d + k - g.fraction + 1) * 2 ^ g.fraction + r < 2 ^ g.fraction := by
      rw [Nat.add_mul]
      omega
    have hmod : ((d + k - g.fraction + 1) * 2 ^ g.fraction + r) % 2 ^ g.fraction = r := by
      rw [Nat.mul_add_mod_self_right, Nat.mod_eq_of_lt hrlt]
    have hdiv : ((d + k - g.fraction + 1) * 2 ^ g.fraction + r) / 2 ^ g.fraction = d + k - g.fraction + 1 := by
      rw [Nat.mul_comm, Nat.mul_add_div hF, Nat.div_eq_of_lt hrlt, Nat.add_zero]
    rw [magnitude, if_neg hge, hmod, hdiv, Nat.add_sub_cancel]
    have hsum : 2 ^ g.fraction + r = n * 2 ^ (g.fraction - k) := by omega
    rw [hsum, Nat.mul_assoc, ← Nat.pow_add]
    congr 2
    omega

theorem Widens.exponents (h : Widens f g) : 2 ≤ 2 ^ f.exponent ∧ 2 ^ f.exponent + f.fraction ≤ 2 ^ g.exponent := by
  have hplaces := h.places
  have htop := h.top
  constructor
  · calc 2 = 2 ^ 1 := rfl
      _ ≤ 2 ^ f.exponent := Nat.pow_le_pow_right (by omega) h.finite
  · omega

theorem infinity_pos (h : 2 ≤ 2 ^ g.exponent) : 0 < g.infinity :=
  Nat.mul_pos (by omega) (Nat.two_pow_pos g.fraction)

/-- **A magnitude of the narrow format is one of the wide one.** -/
theorem Widens.magnitude (h : Widens f g) (habs : abs < f.infinity) :
    ∃ abs' < g.infinity, g.magnitude abs' = f.magnitude abs * 2 ^ (g.places - f.places) := by
  have hplaces := h.places
  have hfraction := h.fraction
  have htop := h.top
  obtain ⟨htwo, hexponents⟩ := h.exponents
  have hF := Nat.two_pow_pos f.fraction
  by_cases hlt : abs < 2 ^ f.fraction
  · have hmag : f.magnitude abs = abs := if_pos hlt
    rw [hmag]
    by_cases hzero : abs = 0
    · refine ⟨0, g.infinity_pos (by omega), ?_⟩
      rw [hzero, Nat.zero_mul]
      exact if_pos (Nat.two_pow_pos _)
    · -- a subnormal pattern is normal in the wide format
      have hlog : abs.log2 < f.fraction := (Nat.log2_lt hzero).2 hlt
      apply exists_magnitude g (Nat.log2_self_le hzero) Nat.lt_log2_self
      · omega
      · omega
      · omega
  · have hmag : f.magnitude abs = (2 ^ f.fraction + abs % 2 ^ f.fraction) * 2 ^ (abs / 2 ^ f.fraction - 1) := if_neg hlt
    have hmod := Nat.mod_lt abs hF
    have hone : 1 ≤ abs / 2 ^ f.fraction := (Nat.one_le_div_iff hF).2 (Nat.le_of_not_lt hlt)
    have hdiv : abs / 2 ^ f.fraction < 2 ^ f.exponent - 1 := (Nat.div_lt_iff_lt_mul hF).2 habs
    rw [hmag, Nat.mul_assoc, ← Nat.pow_add]
    apply exists_magnitude g (k := f.fraction)
    · omega
    · rw [Nat.pow_succ]
      omega
    · exact hfraction
    · omega
    · omega

/-! ## Conversions -/

theorem infinity_lt_signBit (h : 2 ≤ 2 ^ g.exponent) : g.infinity < g.signBit := by
  have hF := Nat.two_pow_pos g.fraction
  unfold infinity signBit
  rw [Nat.add_comm, Nat.pow_add]
  exact Nat.mul_lt_mul_of_pos_right (by omega) hF

theorem absolute_withSign (neg : Bool) (h : abs < g.signBit) : g.absolute (g.withSign neg abs) = abs := by
  unfold absolute withSign
  cases neg with
  | false => exact Nat.mod_eq_of_lt h
  | true  => simp [Nat.mod_eq_of_lt h]

theorem withSign_inj {neg : Bool} {abs' : Nat} (h : f.withSign neg abs = f.withSign neg abs') : abs = abs' := by
  unfold withSign at h
  cases neg with
  | false => exact h
  | true  => exact Nat.add_left_cancel h

theorem negative_withSign (neg : Bool) (h : abs < g.signBit) : g.negative (g.withSign neg abs) = neg := by
  unfold negative withSign
  cases neg with
  | false => simp [Nat.mod_eq_of_lt (show abs < 2 * g.signBit by omega), h]
  | true  => simp [Nat.mod_eq_of_lt (show g.signBit + abs < 2 * g.signBit by omega)]

/-- What a conversion to a wider format gives. -/
theorem Widens.convert (h : Widens f g) (habs : f.absolute bits < f.infinity) :
    ∃ abs' < g.infinity, g.magnitude abs' = f.magnitude (f.absolute bits) * 2 ^ (g.places - f.places) ∧
      convert f g bits = g.withSign (f.negative bits) abs' := by
  obtain ⟨abs', hlt, hmag⟩ := h.magnitude habs
  refine ⟨abs', hlt, hmag, ?_⟩
  have hzero : f.places - g.places = 0 := by
    have := h.places
    omega
  have hencode := g.encode_magnitude hlt 0
  rw [Nat.pow_zero, Nat.mul_one, hmag] at hencode
  rw [FloatBits.convert, if_pos habs, hzero, hencode]

theorem infinity_add (h : 2 ≤ 2 ^ g.exponent) : g.infinity + 2 ^ g.fraction = g.signBit := by
  have hmul : (2 ^ g.exponent - 1) * 2 ^ g.fraction + 1 * 2 ^ g.fraction = 2 ^ g.exponent * 2 ^ g.fraction := by
    rw [← Nat.add_mul]
    congr 1
    omega
  unfold infinity signBit
  rw [Nat.add_comm g.fraction, Nat.pow_add]
  omega

/-- The payload of a NaN, made quiet. -/
def quiet (f : Format) (bits : Nat) : Nat := 2 ^ (f.fraction - 1) ||| f.absolute bits % 2 ^ f.fraction

theorem Widens.quiet_spec (h : Widens f g) (bits : Nat) : 0 < f.quiet bits ∧ f.quiet bits < 2 ^ f.fraction := by
  have hpos := h.positive
  unfold quiet
  constructor
  · exact Nat.lt_of_lt_of_le (Nat.two_pow_pos _) Nat.left_le_or
  · apply Nat.or_lt_two_pow
    · exact Nat.pow_lt_pow_right (by omega) (by omega)
    · exact Nat.mod_lt _ (Nat.two_pow_pos _)

/-- What a conversion to a wider format gives for a NaN. -/
theorem Widens.convert_nan (h : Widens f g) (hnan : f.infinity < f.absolute bits) :
    FloatBits.convert f g bits =
      g.withSign (f.negative bits) (g.infinity + f.quiet bits * 2 ^ (g.fraction - f.fraction)) := by
  have hpos := h.positive
  have hfraction := h.fraction
  have hsplit : 2 ^ g.fraction = 2 ^ (g.fraction - f.fraction) * 2 ^ f.fraction := by
    rw [← Nat.pow_add]
    congr 1
    omega
  have hquiet : 2 ^ (g.fraction - 1) = 2 ^ (f.fraction - 1) * 2 ^ (g.fraction - f.fraction) := by
    rw [← Nat.pow_add]
    congr 1
    omega
  have hor : f.quiet bits * 2 ^ (g.fraction - f.fraction) =
      2 ^ (f.fraction - 1) * 2 ^ (g.fraction - f.fraction) |||
        f.absolute bits % 2 ^ f.fraction * 2 ^ (g.fraction - f.fraction) := by
    simp only [← Nat.shiftLeft_eq]
    rw [quiet, Nat.shiftLeft_or_distrib]
  rw [FloatBits.convert, if_neg (by omega), if_neg (by omega), hor, ← hquiet, hsplit, ← Nat.mul_assoc,
    Nat.mul_div_cancel _ (Nat.two_pow_pos _)]

theorem Widens.payload_lt (h : Widens f g) (bits : Nat) :
    0 < f.quiet bits * 2 ^ (g.fraction - f.fraction) ∧
      f.quiet bits * 2 ^ (g.fraction - f.fraction) < 2 ^ g.fraction := by
  obtain ⟨hpos, hlt⟩ := h.quiet_spec bits
  have hfraction := h.fraction
  have hshift := Nat.two_pow_pos (g.fraction - f.fraction)
  constructor
  · exact Nat.mul_pos hpos hshift
  · calc f.quiet bits * 2 ^ (g.fraction - f.fraction) < 2 ^ f.fraction * 2 ^ (g.fraction - f.fraction) :=
          Nat.mul_lt_mul_of_pos_right hlt hshift
      _ = 2 ^ g.fraction := by
          rw [← Nat.pow_add]
          congr 1
          omega

theorem Widens.convert_infinity (hinf : f.absolute bits = f.infinity) :
    FloatBits.convert f g bits = g.withSign (f.negative bits) g.infinity := by
  rw [FloatBits.convert, if_neg (by omega), if_pos hinf]

theorem withSign_lt (neg : Bool) (h : abs < g.signBit) : g.withSign neg abs < 2 * g.signBit := by
  unfold withSign
  cases neg with
  | false => simp only [Bool.false_eq_true, if_false]; omega
  | true  => simp only [if_true]; omega

theorem Widens.convert_lt (h : Widens f g) (bits : Nat) : FloatBits.convert f g bits < 2 * g.signBit := by
  obtain ⟨htwo, hexponents⟩ := h.exponents
  have hbound := g.infinity_lt_signBit (by omega)
  by_cases habs : f.absolute bits < f.infinity
  · obtain ⟨abs', hlt, _, hconvert⟩ := h.convert habs
    rw [hconvert]
    exact withSign_lt _ (by omega)
  · rcases Nat.lt_or_eq_of_le (Nat.le_of_not_lt habs) with hnan | hinf
    · have hadd := g.infinity_add (by omega)
      have hpayload := h.payload_lt bits
      rw [h.convert_nan hnan]
      exact withSign_lt _ (by omega)
    · rw [Widens.convert_infinity hinf.symm]
      exact withSign_lt _ hbound

/-- **A pattern and its conversion are equal to the same integers.** -/
theorem Widens.toInt_convert (h : Widens f g) (bits : Nat) : g.toInt (FloatBits.convert f g bits) = f.toInt bits := by
  obtain ⟨htwo, hexponents⟩ := h.exponents
  have hplaces := h.places
  have hbound := g.infinity_lt_signBit (by omega)
  by_cases habs : f.absolute bits < f.infinity
  · obtain ⟨abs', hlt, hmag, hconvert⟩ := h.convert habs
    have hpow : 2 ^ g.places = 2 ^ f.places * 2 ^ (g.places - f.places) := by
      rw [← Nat.pow_add]
      congr 1
      omega
    have hpos := Nat.two_pow_pos (g.places - f.places)
    rw [hconvert, toInt, toInt, absolute_withSign _ (by omega), negative_withSign _ (by omega), hmag, hpow,
      Nat.mul_mod_mul_right, Nat.mul_div_mul_right _ _ hpos]
    simp only [hlt, habs, true_and, Nat.mul_eq_zero, Nat.ne_of_gt hpos, or_false]
  · -- neither of the patterns is a number
    have hconverted : g.infinity ≤ g.absolute (FloatBits.convert f g bits) := by
      rcases Nat.lt_or_eq_of_le (Nat.le_of_not_lt habs) with hnan | hinf
      · have hadd := g.infinity_add (by omega)
        have hpayload := h.payload_lt bits
        rw [h.convert_nan hnan, absolute_withSign _ (by omega)]
        omega
      · exact Nat.le_of_eq (by rw [Widens.convert_infinity hinf.symm, absolute_withSign _ hbound])
    rw [toInt, toInt, if_neg (by omega), if_neg (by omega)]

/-- A payload is quiet exactly if making it quiet does not change it. -/
theorem quiet_eq_iff (h : 0 < f.fraction) (bits : Nat) :
    f.quiet bits = f.absolute bits % 2 ^ f.fraction ↔ 2 ^ (f.fraction - 1) ≤ f.absolute bits % 2 ^ f.fraction := by
  have hlt := Nat.mod_lt (f.absolute bits) (Nat.two_pow_pos f.fraction)
  have hpow : 2 ^ f.fraction = 2 * 2 ^ (f.fraction - 1) := by
    rw [← Nat.pow_succ', Nat.succ_eq_add_one, Nat.sub_add_cancel h]
  have hpos := Nat.two_pow_pos (f.fraction - 1)
  unfold quiet
  generalize f.absolute bits % 2 ^ f.fraction = payload at hlt ⊢
  constructor
  · intro heq
    by_contra hlow
    have hor := Nat.two_pow_add_eq_or_of_lt (Nat.lt_of_not_le hlow) 1
    simp only [Nat.mul_one] at hor
    omega
  · intro hhigh
    obtain ⟨r, rfl⟩ := Nat.exists_eq_add_of_le hhigh
    have hor := Nat.two_pow_add_eq_or_of_lt (show r < 2 ^ (f.fraction - 1) by omega) 1
    simp only [Nat.mul_one] at hor
    rw [hor, ← Nat.or_assoc, Nat.or_self]

/-- A NaN comes back quiet. -/
theorem Widens.convert_convert_nan (h : Widens f g) (hnan : f.infinity < f.absolute bits) :
    FloatBits.convert g f (FloatBits.convert f g bits) = f.withSign (f.negative bits) (f.infinity + f.quiet bits) := by
  obtain ⟨htwo, hexponents⟩ := h.exponents
  have hadd := g.infinity_add (by omega)
  have hpayload := h.payload_lt bits
  have hfraction := h.fraction
  have hmod : (g.infinity + f.quiet bits * 2 ^ (g.fraction - f.fraction)) % 2 ^ g.fraction =
      f.quiet bits * 2 ^ (g.fraction - f.fraction) := by
    rw [infinity, Nat.mul_comm, Nat.mul_add_mod, Nat.mod_eq_of_lt hpayload.2]
  have hdiv : f.quiet bits * 2 ^ (g.fraction - f.fraction) * 2 ^ f.fraction / 2 ^ g.fraction = f.quiet bits := by
    have hsplit : 2 ^ (g.fraction - f.fraction) * 2 ^ f.fraction = 2 ^ g.fraction := by
      rw [← Nat.pow_add]
      congr 1
      omega
    rw [Nat.mul_assoc, hsplit, Nat.mul_div_cancel _ (Nat.two_pow_pos _)]
  have hquiet : 2 ^ (f.fraction - 1) ||| f.quiet bits = f.quiet bits := by
    rw [quiet, ← Nat.or_assoc, Nat.or_self]
  rw [h.convert_nan hnan, FloatBits.convert, absolute_withSign _ (by omega), negative_withSign _ (by omega),
    if_neg (by omega), if_neg (by omega), hmod, hdiv, hquiet]

/-- **A conversion to a wider format and back gives the pattern again, but for the NaNs that are not quiet.** -/
theorem Widens.convert_convert_iff (h : Widens f g) (hbits : bits < 2 * f.signBit) :
    FloatBits.convert g f (FloatBits.convert f g bits) = bits ↔ f.signaling bits = false := by
  obtain ⟨htwo, hexponents⟩ := h.exponents
  have hplaces := h.places
  have hbound := g.infinity_lt_signBit (by omega)
  have hwithSign := f.withSign_absolute hbits
  by_cases habs : f.absolute bits < f.infinity
  · obtain ⟨abs', hlt, hmag, hconvert⟩ := h.convert habs
    have hzero : f.places - g.places = 0 := by omega
    have hencode := f.encode_magnitude habs (g.places - f.places)
    have hback : FloatBits.convert g f (FloatBits.convert f g bits) = bits := by
      rw [hconvert, FloatBits.convert, absolute_withSign _ (by omega), negative_withSign _ (by omega), if_pos hlt, hmag,
        hzero, Nat.pow_zero, Nat.mul_one, hencode, hwithSign]
    refine ⟨fun _ => ?_, fun _ => hback⟩
    simp only [signaling, decide_eq_false_iff_not]
    omega
  · rcases Nat.lt_or_eq_of_le (Nat.le_of_not_lt habs) with hnan | hinf
    · have hadd := f.infinity_add htwo
      have hlt : f.absolute bits < f.signBit := Nat.mod_lt _ f.signBit_pos
      have hpayload : f.absolute bits = f.infinity + f.absolute bits % 2 ^ f.fraction := by
        have hsplit : f.absolute bits = f.infinity + (f.absolute bits - f.infinity) := by omega
        have hmod : f.absolute bits % 2 ^ f.fraction = f.absolute bits - f.infinity := by
          rw [hsplit, infinity, Nat.mul_comm, Nat.mul_add_mod, Nat.add_sub_cancel_left, Nat.mod_eq_of_lt]
          rw [Nat.mul_comm]
          change f.absolute bits - f.infinity < _
          omega
        omega
      have hquiet := f.quiet_eq_iff h.positive bits
      rw [h.convert_convert_nan hnan, signaling, decide_eq_false_iff_not]
      constructor
      · intro heq
        have hsame := withSign_inj (heq.trans hwithSign.symm)
        have hhigh := hquiet.1 (by omega)
        omega
      · intro hsignaling
        have hhigh : 2 ^ (f.fraction - 1) ≤ f.absolute bits % 2 ^ f.fraction := by omega
        rw [hquiet.2 hhigh, ← hpayload, hwithSign]
    · have hback : FloatBits.convert g f (FloatBits.convert f g bits) = bits := by
        rw [Widens.convert_infinity hinf.symm, FloatBits.convert, absolute_withSign _ hbound, negative_withSign _ hbound,
          if_neg (by omega), if_pos rfl, hinf, hwithSign]
      refine ⟨fun _ => ?_, fun _ => hback⟩
      simp only [signaling, decide_eq_false_iff_not]
      omega

theorem Widens.convert_convert_lt (h : Widens f g) (hbits : bits < 2 * f.signBit) :
    FloatBits.convert g f (FloatBits.convert f g bits) < 2 * f.signBit := by
  cases hsignaling : f.signaling bits with
  | false => rwa [(h.convert_convert_iff hbits).2 hsignaling]
  | true  =>
    have hadd := f.infinity_add h.exponents.1
    have hquiet := (h.quiet_spec bits).2
    rw [h.convert_convert_nan (of_decide_eq_true hsignaling).1]
    exact withSign_lt _ (by omega)

end Format

end FloatBits
