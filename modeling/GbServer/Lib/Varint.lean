import Mathlib.Algebra.Order.Ring.Int
import Mathlib.Tactic.Common
/-!
# Varint — numbers as bytes of seven bits

Least significant group first; every byte but the last has its high bit set.  Writer and reader are limited to a number
of bytes, and the reader gives back what the writer wrote when it is allowed as many (`read_write`).
-/
namespace Varint

/-- `n` in at most `k` bytes. -/
def write : Nat → Nat → List UInt8
  | 0,     _ => []
  | k + 1, n => if n < 128 then [UInt8.ofNat n] else UInt8.ofNat (n % 128 + 128) :: write k (n / 128)

/-- The number in front of `bs` and the bytes behind it, unless it takes more than `k` bytes or `bs` ends in it. -/
def read : Nat → List UInt8 → Option (Nat × List UInt8)
  | 0,     _       => none
  | _ + 1, []      => none
  | k + 1, b :: bs =>
    if b.toNat < 128 then some (b.toNat, bs)
    else (read k bs).map fun r => (b.toNat - 128 + 128 * r.1, r.2)

theorem write_length : ∀ k n : Nat, (write k n).length ≤ k
  | 0,     _ => Nat.le_refl 0
  | k + 1, n => by
    rw [write]
    split
    · exact Nat.succ_le_succ (Nat.zero_le k)
    · exact Nat.succ_le_succ (write_length k (n / 128))

/-- What is read takes at least a byte. -/
theorem length_read : ∀ {k n : Nat} {bs rest : List UInt8}, read k bs = some (n, rest) → rest.length < bs.length
  | 0,     _, _,       _,    h => by cases h
  | _ + 1, _, [],      _,    h => by cases h
  | k + 1, n, b :: bs, rest, h => by
    rw [read] at h
    split at h
    · obtain ⟨-, rfl⟩ := Prod.mk.inj (Option.some.inj h)
      exact Nat.lt_succ_self _
    · obtain ⟨⟨m, rest'⟩, hread, heq⟩ := Option.map_eq_some_iff.1 h
      obtain ⟨-, rfl⟩ := Prod.mk.inj heq
      exact Nat.lt_succ_of_lt (length_read hread)

/-- **What was written is read back**, and the bytes behind it are left. -/
theorem read_write : ∀ (j k n : Nat) (rest : List UInt8), k < j → n < 128 ^ (k + 1) →
    read j (write (k + 1) n ++ rest) = some (n, rest)
  | 0,     k, n, rest, hj, hn => absurd hj (Nat.not_lt_zero k)
  | j + 1, k, n, rest, hj, hn => by
    rw [write]
    split
    · rename_i hlt
      have hb : (UInt8.ofNat n).toNat = n := by
        rw [UInt8.toNat_ofNat', Nat.mod_eq_of_lt (by omega)]
      rw [List.cons_append, List.nil_append, read, hb, if_pos hlt]
    · rename_i hge
      have hb : (UInt8.ofNat (n % 128 + 128)).toNat = n % 128 + 128 := by
        rw [UInt8.toNat_ofNat', Nat.mod_eq_of_lt (by omega)]
      rw [List.cons_append, read, hb, if_neg (by omega)]
      cases k with
      | zero   => exact absurd hn hge
      | succ k =>
        have hq : n / 128 < 128 ^ (k + 1) := Nat.div_lt_of_lt_mul (by rwa [← Nat.pow_succ'])
        rw [read_write j k (n / 128) rest (Nat.lt_of_succ_lt_succ hj) hq, Option.map_some]
        congr 2
        omega

end Varint
