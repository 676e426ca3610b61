import Mathlib.Algebra.Group.Nat.Defs
import Mathlib.Data.List.Basic
/-!
# IntegerText — integers as decimal text

The text of an integer, as `std::to_string` and streams write it, and how it is read.
-/
namespace IntegerText

def ofInt (n : Int) : List Char := (if n < 0 then ['-'] else []) ++ Nat.toDigits 10 n.natAbs

def readNat (t : List Char) : Option Nat :=
  if t ≠ [] ∧ t.all Char.isDigit = true then some (Nat.ofDigitChars 10 t 0) else none

def readInt (t : List Char) : Option Int :=
  if t.head? = some '-' then (readNat t.tail).map fun n : Nat => -(n : Int) else (readNat t).map Int.ofNat

theorem isDigit_of_mem {n : Nat} {c : Char} (h : c ∈ Nat.toDigits 10 n) : c.isDigit = true :=
  Nat.isDigit_of_mem_toDigits (by decide) (by decide) h

theorem readNat_toDigits (n : Nat) : readNat (Nat.toDigits 10 n) = some n := by
  have hall : (Nat.toDigits 10 n).all Char.isDigit = true := List.all_eq_true.2 fun _ => isDigit_of_mem
  rw [readNat, if_pos ⟨Nat.toDigits_ne_nil, hall⟩, Nat.ofDigitChars_toDigits (by decide) (by decide)]

/-- **The text of an integer is read as the integer.** -/
theorem readInt_ofInt (n : Int) : readInt (ofInt n) = some n := by
  unfold ofInt
  split
  · rename_i hneg
    rw [readInt, List.singleton_append, List.head?_cons, if_pos rfl, List.tail_cons, readNat_toDigits, Option.map_some,
      Int.ofNat_natAbs_of_nonpos (Int.le_of_lt hneg), Int.neg_neg]
  · rename_i hpos
    have hhead : (Nat.toDigits 10 n.natAbs).head? ≠ some '-' := fun h =>
      absurd (isDigit_of_mem (List.mem_of_head? h)) (by decide)
    rw [List.nil_append, readInt, if_neg hhead, readNat_toDigits, Option.map_some]
    exact congrArg some (Int.natAbs_of_nonneg (Int.not_lt.1 hpos))

theorem length_ofInt {n : Int} {k : Nat} (hk : 0 < k) (h : n.natAbs < 10 ^ k) : (ofInt n).length ≤ k + 1 := by
  have hdigits := (Nat.length_toDigits_le_iff (b := 10) (by decide) hk).2 h
  unfold ofInt
  split
  · rw [List.length_append, List.length_singleton]
    omega
  · rw [List.nil_append]
    omega

theorem ofInt_ne_nil (n : Int) : ofInt n ≠ [] := fun h => Nat.toDigits_ne_nil (List.append_eq_nil_iff.1 h).2

theorem mem_ofInt {n : Int} {c : Char} (h : c ∈ ofInt n) : c = '-' ∨ c.isDigit = true := by
  rcases List.mem_append.1 h with hsign | hdigit
  · split at hsign
    · exact .inl (List.mem_singleton.1 hsign)
    · cases hsign
  · exact .inr (isDigit_of_mem hdigit)

end IntegerText
