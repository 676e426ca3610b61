import Mathlib.Algebra.Order.Ring.Int
import Mathlib.Data.List.Basic
import Mathlib.Tactic.Common
/-!
# Bytes — fixed-width integers as bytes, and windows of a byte array

The bytes of a number, least significant first (`toLe`) and most significant first (`toBe`), with their round
trips; the window of a list (`slice`) and the copy over one (`overwrite`), with the two facts every memory argument
uses: a copy is read back (`slice_overwrite`), and a window that ends before it is untouched (`slice_overwrite_of_le`).
-/
namespace Bytes

/-! ## Numbers as bytes -/

/-- The number whose bytes are `bs`, least significant first. -/
def leNat : List UInt8 → Nat
  | [] => 0
  | b :: bs => b.toNat + 256 * leNat bs

/-- The `k` low bytes of `n`, least significant first. -/
def toLe : Nat → Nat → List UInt8
  | 0, _ => []
  | k + 1, n => UInt8.ofNat (n % 256) :: toLe k (n / 256)

/-- The number whose bytes are `bs`, most significant first, as a decoder accumulates it. -/
def beNat (bs : List UInt8) : Nat := bs.foldl (fun acc b => acc * 256 + b.toNat) 0

/-- The `k` low bytes of `n`, most significant first. -/
def toBe (k n : Nat) : List UInt8 := (toLe k n).reverse

@[simp] theorem toLe_length : ∀ k n, (toLe k n).length = k
  | 0, _ => rfl
  | k + 1, n => by simp [toLe, toLe_length k]

@[simp] theorem toBe_length (k n : Nat) : (toBe k n).length = k := by simp [toBe]

theorem leNat_toLe : ∀ k n, leNat (toLe k n) = n % 256 ^ k
  | 0, n => by simp [toLe, leNat, Nat.mod_one]
  | k + 1, n => by
    have hb : (UInt8.ofNat (n % 256)).toNat = n % 256 := by simp
    rw [toLe, leNat, leNat_toLe k, hb, Nat.pow_succ', Nat.mod_mul]

theorem leNat_lt : ∀ bs : List UInt8, leNat bs < 256 ^ bs.length
  | [] => by simp [leNat]
  | b :: bs => by
    have hb := b.toNat_lt
    have hbs := leNat_lt bs
    rw [leNat, List.length_cons, Nat.pow_succ']
    omega

theorem beNat_append_singleton (bs : List UInt8) (b : UInt8) : beNat (bs ++ [b]) = beNat bs * 256 + b.toNat := by
  simp [beNat]

theorem beNat_reverse : ∀ bs : List UInt8, beNat bs.reverse = leNat bs
  | [] => rfl
  | b :: bs => by
    rw [List.reverse_cons, beNat_append_singleton, beNat_reverse bs, leNat, Nat.mul_comm, Nat.add_comm]

theorem beNat_toBe (k n : Nat) : beNat (toBe k n) = n % 256 ^ k := by
  rw [toBe, beNat_reverse, leNat_toLe]

theorem leNat_append : ∀ xs ys : List UInt8, leNat (xs ++ ys) = leNat xs + 256 ^ xs.length * leNat ys
  | [], ys => by simp [leNat]
  | x :: xs, ys => by
    rw [List.cons_append, leNat, leNat_append xs ys, leNat, List.length_cons, Nat.pow_succ', Nat.mul_add,
      Nat.mul_assoc, Nat.add_assoc]

theorem beNat_append (xs ys : List UInt8) : beNat (xs ++ ys) = beNat xs * 256 ^ ys.length + beNat ys := by
  have hx := beNat_reverse xs.reverse
  have hy := beNat_reverse ys.reverse
  have h := beNat_reverse (ys.reverse ++ xs.reverse)
  rw [List.reverse_append, List.reverse_reverse, List.reverse_reverse, leNat_append, List.length_reverse] at h
  rw [List.reverse_reverse] at hx hy
  rw [h, hx, hy, Nat.mul_comm, Nat.add_comm]

/-- The bytes of a signed number of `k` bytes: its two's complement representation. -/
def ofInt (k : Nat) (x : Int) : Nat := (x % (256 ^ k : Nat)).toNat

/-- The signed number of `k` bytes with the bit pattern `n`. -/
def toInt (k n : Nat) : Int := Int.bmod n (256 ^ k)

theorem toInt_ofInt (k : Nat) (x : Int) : toInt k (ofInt k x % 256 ^ k) = Int.bmod x (256 ^ k) := by
  have hm : ((256 ^ k : Nat) : Int) ≠ 0 := by have := Nat.pow_pos (a := 256) (n := k) (by decide); omega
  have h0 : 0 ≤ x % ((256 ^ k : Nat) : Int) := Int.emod_nonneg _ hm
  rw [toInt, ofInt, Int.natCast_emod, Int.toNat_of_nonneg h0, Int.emod_emod, Int.emod_bmod]

theorem toInt_ofInt_of_range (k : Nat) (x : Int) (lo : -((256 ^ k : Nat) : Int) ≤ 2 * x)
    (hi : 2 * x < ((256 ^ k : Nat) : Int)) : toInt k (ofInt k x % 256 ^ k) = x := by
  rw [toInt_ofInt]
  exact Int.bmod_eq_of_le_mul_two (by omega) (by omega)

/-! ## Windows of a list -/

variable {α : Type}

/-- The window of `l` of `n` elements from `off`. -/
def slice (l : List α) (off n : Nat) : List α := (l.drop off).take n

/-- `l` with the elements from `off` replaced by those of `bs`, as far as `l` reaches. -/
def overwrite : List α → Nat → List α → List α
  | [], _, _ => []
  | x :: xs, 0, [] => x :: xs
  | _ :: xs, 0, b :: bs => b :: overwrite xs 0 bs
  | x :: xs, off + 1, bs => x :: overwrite xs off bs

@[simp] theorem overwrite_length : ∀ (l : List α) (off : Nat) (bs : List α), (overwrite l off bs).length = l.length
  | [], _, _ => by simp [overwrite]
  | x :: xs, 0, [] => by simp [overwrite]
  | _ :: xs, 0, b :: bs => by simp [overwrite, overwrite_length xs 0 bs]
  | x :: xs, off + 1, bs => by simp [overwrite, overwrite_length xs off bs]

theorem overwrite_eq : ∀ (l : List α) (off : Nat) (bs : List α), off + bs.length ≤ l.length →
    overwrite l off bs = l.take off ++ bs ++ l.drop (off + bs.length)
  | [], off, bs, h => by
    have : bs = [] := List.eq_nil_of_length_eq_zero (by simp only [List.length_nil] at h; omega)
    simp [overwrite, this]
  | x :: xs, 0, [], _ => by simp [overwrite]
  | x :: xs, 0, b :: bs, h => by
    rw [overwrite, overwrite_eq xs 0 bs (by simpa using h)]
    simp
  | x :: xs, off + 1, bs, h => by
    rw [overwrite, overwrite_eq xs off bs (by simp at h; omega), show off + 1 + bs.length = off + bs.length + 1 by omega]
    simp

@[simp] theorem overwrite_nil : ∀ (l : List α) (off : Nat), overwrite l off [] = l
  | [], _ => rfl
  | _ :: _, 0 => rfl
  | x :: xs, off + 1 => by rw [overwrite, overwrite_nil xs off]

theorem take_overwrite : ∀ (l : List α) (off : Nat) (bs : List α) (n : Nat),
    (overwrite l off bs).take n = overwrite (l.take n) off bs
  | [], _, _, n => by simp [overwrite]
  | x :: xs, off, bs, 0 => by rw [List.take_zero, List.take_zero, overwrite]
  | x :: xs, 0, [], n + 1 => by rw [overwrite_nil, overwrite_nil]
  | _ :: xs, 0, b :: bs, n + 1 => by simp [overwrite, take_overwrite xs 0 bs n]
  | x :: xs, off + 1, bs, n + 1 => by simp [overwrite, take_overwrite xs off bs n]

/-- What is before a copy. -/
theorem take_overwrite_of_le : ∀ (l : List α) (off : Nat) (bs : List α) (n : Nat), n ≤ off →
    (overwrite l off bs).take n = l.take n
  | [], _, _, _, _ => by rw [overwrite]
  | _ :: _, _, _, 0, _ => by rw [List.take_zero, List.take_zero]
  | x :: xs, off + 1, bs, n + 1, h => by
    rw [overwrite, List.take_succ_cons, List.take_succ_cons, take_overwrite_of_le xs off bs n (Nat.le_of_succ_le_succ h)]

/-- A copy that begins in the first of two lists goes on in the second. -/
theorem overwrite_append : ∀ (xs ys : List α) (off : Nat) (bs : List α), off ≤ xs.length →
    overwrite (xs ++ ys) off bs = overwrite xs off bs ++ overwrite ys 0 (bs.drop (xs.length - off))
  | [], ys, off, bs, h => by
    rw [Nat.le_zero.1 h]
    rfl
  | x :: xs, ys, 0, [], _ => by simp
  | x :: xs, ys, 0, b :: bs, _ => by
    rw [List.cons_append, overwrite, overwrite, overwrite_append xs ys 0 bs (Nat.zero_le _)]
    simp
  | x :: xs, ys, off + 1, bs, h => by
    rw [List.cons_append, overwrite, overwrite, overwrite_append xs ys off bs (Nat.le_of_succ_le_succ h)]
    simp

theorem overwrite_append_of_le : ∀ (xs ys : List α) (off : Nat) (bs : List α), xs.length ≤ off →
    overwrite (xs ++ ys) off bs = xs ++ overwrite ys (off - xs.length) bs
  | [], _, _, _, _ => rfl
  | x :: xs, ys, 0, bs, h => absurd h (Nat.not_succ_le_zero _)
  | x :: xs, ys, off + 1, bs, h => by
    rw [List.cons_append, overwrite, overwrite_append_of_le xs ys off bs (Nat.le_of_succ_le_succ h)]
    simp

theorem overwrite_take : ∀ (l : List α) (off n : Nat) (bs : List α), l.length ≤ off + n →
    overwrite l off (bs.take n) = overwrite l off bs
  | [], _, _, _, _ => by simp [overwrite]
  | x :: xs, 0, 0, bs, h => absurd h (Nat.not_succ_le_zero _)
  | x :: xs, 0, n + 1, [], _ => by simp
  | _ :: xs, 0, n + 1, b :: bs, h => by
    rw [List.take_succ_cons, overwrite, overwrite, overwrite_take xs 0 n bs (by simpa using h)]
  | x :: xs, off + 1, n, bs, h => by
    rw [overwrite, overwrite, overwrite_take xs off n bs (by rw [List.length_cons] at h; omega)]

@[simp] theorem slice_zero (l : List α) (off : Nat) : slice l off 0 = [] := by simp [slice]

theorem slice_length (l : List α) (off n : Nat) (h : off + n ≤ l.length) : (slice l off n).length = n := by
  simp only [slice, List.length_take, List.length_drop]; omega

theorem slice_append (l : List α) (off m n : Nat) : slice l off m ++ slice l (off + m) n = slice l off (m + n) := by
  simp only [slice]
  rw [← List.drop_drop, List.take_add]

/-- **A copy is read back.** -/
theorem slice_overwrite (l : List α) (off : Nat) (bs : List α) (h : off + bs.length ≤ l.length) :
    slice (overwrite l off bs) off bs.length = bs := by
  have ht : (l.take off).length = off := by simp; omega
  rw [overwrite_eq l off bs h, slice, List.append_assoc, List.drop_left' ht, List.take_left' rfl]

/-- **A window that ends before the copy is untouched.** -/
theorem slice_overwrite_of_le (l : List α) (off n at_ : Nat) (bs : List α) (h : at_ + bs.length ≤ l.length)
    (hle : off + n ≤ at_) : slice (overwrite l at_ bs) off n = slice l off n := by
  have ht : (l.take at_).length = at_ := by simp; omega
  rw [overwrite_eq l at_ bs h, slice, slice, List.append_assoc, List.drop_append_of_le_length (by omega),
    List.take_append_of_le_length (by simp; omega), List.drop_take, List.take_take]
  congr 1
  omega

theorem slice_of_eq_append (l pre mid post : List α) (h : l = pre ++ mid ++ post) :
    slice l pre.length mid.length = mid := by
  subst h; simp [slice]

end Bytes
