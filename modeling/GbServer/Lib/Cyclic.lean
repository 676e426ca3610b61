import Mathlib.Data.Nat.ModEq
/-!
# Cyclic — numbers from a counter that starts anew

A counter gives out its value and goes on to the next, and comes back to zero after `N` numbers.  `Counts` says which
numbers it has given out, the last one first.  Of the last `N` numbers no two are the same (`Counts.unique`), and the
number that comes next is the oldest of them (`Counts.oldest`).
-/
namespace Cyclic

/-- The numbers that a counter has given out, the last one first. -/
def Counts (N : Nat) (issued : List Nat) (counter : Nat) : Prop :=
  ∀ j n, issued[j]? = some n → n + j + 1 ≡ counter [MOD N]

namespace Counts

variable {N counter n i j : Nat} {issued : List Nat}

theorem nil (N counter : Nat) : Counts N [] counter := by
  intro j n h
  cases h

theorem issue (h : Counts N issued counter) : Counts N (counter :: issued) ((counter + 1) % N) := by
  intro j n hj
  apply Nat.ModEq.trans _ (Nat.mod_modEq (counter + 1) N).symm
  cases j with
  | zero   =>
    obtain rfl := Option.some.inj hj
    rfl
  | succ j => exact (h j n hj).add_right 1

theorem unique (h : Counts N issued counter) (hi : issued[i]? = some n) (hj : issued[j]? = some n) (hiN : i < N)
    (hjN : j < N) : i = j := by
  have hij : n + i + 1 ≡ n + j + 1 [MOD N] := (h i n hi).trans (h j n hj).symm
  have hmod : i ≡ j [MOD N] := (hij.add_right_cancel' 1).add_left_cancel' n
  exact hmod.eq_of_lt_of_lt hiN hjN

theorem oldest (h : Counts N issued counter) (hj : issued[j]? = some counter) (hjN : j < N) : j + 1 = N := by
  have hmod : counter + (j + 1) ≡ counter + 0 [MOD N] := h j counter hj
  have hdvd : N ∣ j + 1 := (Nat.modEq_zero_iff_dvd).1 (hmod.add_left_cancel' counter)
  have hle := Nat.le_of_dvd (Nat.succ_pos j) hdvd
  omega

end Counts

end Cyclic
