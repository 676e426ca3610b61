import Mathlib.Data.List.Basic
import Mathlib.Tactic.Common
/-!
# UpperBound — binary search for the first element past a value

The halving search over a range that is partitioned by a predicate: the elements where it does not hold come first.  It
gives the number of these elements (`upperBound_append`).
-/
namespace UpperBound

variable {α : Type}

/-- The search among `len` elements from `first`.  The steps allowed are as many as the elements at the start. -/
def search (past : α → Bool) (l : List α) : Nat → Nat → Nat → Nat
  | 0,     first, _   => first
  | n + 1, first, len =>
    if len = 0 then first
    else
      let half := len / 2
      match l[first + half]? with
      | none   => first
      | some a =>
        if past a then search past l n first half else search past l n (first + half + 1) (len - half - 1)

/-- The position of the first element where `past` holds. -/
def upperBound (past : α → Bool) (l : List α) : Nat := search past l l.length 0 l.length

/-- **The search keeps the border in its range.** -/
theorem search_append (past : α → Bool) (l m : List α) (hl : ∀ a ∈ l, past a = false) (hm : ∀ a ∈ m, past a = true) :
    ∀ n first len, len ≤ n → first ≤ l.length → l.length ≤ first + len → first + len ≤ (l ++ m).length →
      search past (l ++ m) n first len = l.length
  | 0, first, len, hn, h1, h2, _ => by rw [search]; omega
  | n + 1, first, len, hn, h1, h2, h3 => by
    rw [search]
    split
    · omega
    · have hlt : first + len / 2 < (l ++ m).length := by omega
      simp only [List.getElem?_eq_getElem hlt]
      split
      · rename_i hp
        refine search_append past l m hl hm n first (len / 2) (by omega) h1 ?_ (by omega)
        -- the middle element is behind the border
        by_contra hc
        have hin : first + len / 2 < l.length := by omega
        rw [List.getElem_append_left hin] at hp
        rw [hl _ (List.getElem_mem hin)] at hp
        cases hp
      · rename_i hp
        refine search_append past l m hl hm n (first + len / 2 + 1) (len - len / 2 - 1) (by omega) ?_ (by omega) (by omega)
        by_contra hc
        have hout : l.length ≤ first + len / 2 := by omega
        rw [List.getElem_append_right hout] at hp
        exact hp (hm _ (List.getElem_mem _))

/-- **The search finds the border.** -/
theorem upperBound_append (past : α → Bool) (l m : List α) (hl : ∀ a ∈ l, past a = false)
    (hm : ∀ a ∈ m, past a = true) : upperBound past (l ++ m) = l.length :=
  search_append past l m hl hm _ 0 _ (Nat.le_refl _) (Nat.zero_le _) (by rw [List.length_append]; omega) (by omega)

end UpperBound
