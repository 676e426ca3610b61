import Mathlib.Data.List.Basic
/-!
# ProducerQueue — a queue that keeps the order of each producer

A queue with many producers may hand out any of its elements that has none of the same producer before it (`Next`).  Seen by
one producer it is a queue: what comes out is the first of its own (`filter_eraseIdx`).
-/
namespace ProducerQueue

universe u v

variable {α : Type u} {β : Type v}

/-- The `k`th element may be taken: nothing of its producer, if it has one, is before it. -/
def Next (producer : α → Option β) (l : List α) (k : Nat) : Prop :=
  ∀ b ∈ l[k]?, ∀ a ∈ l.take k, producer b ≠ none → producer a ≠ producer b

instance [DecidableEq β] (producer : α → Option β) (l : List α) (k : Nat) : Decidable (Next producer l k) :=
  inferInstanceAs (Decidable (∀ b ∈ l[k]?, ∀ a ∈ l.take k, producer b ≠ none → producer a ≠ producer b))

theorem eq_append {l : List α} {k : Nat} {b : α} (hk : l[k]? = some b) : l = l.take k ++ b :: l.drop (k + 1) := by
  obtain ⟨hlt, rfl⟩ := List.getElem?_eq_some_iff.1 hk
  rw [← List.drop_eq_getElem_cons hlt, List.take_append_drop]

/-- What is kept of the queue without the element that is taken. -/
theorem filter_eraseIdx_of_not {l : List α} {k : Nat} {b : α} (hk : l[k]? = some b) {p : α → Bool} (hb : p b = false) :
    l.filter p = (l.eraseIdx k).filter p := by
  rw [List.eraseIdx_eq_take_drop_succ, List.filter_append]
  conv_lhs => rw [eq_append hk, List.filter_append, List.filter_cons_of_neg (by rw [hb]; exact Bool.false_ne_true)]

/-- Of the elements of one producer, the first is taken. -/
theorem filter_eraseIdx {producer : α → Option β} {l : List α} {k : Nat} (hnext : Next producer l k) {b : α}
    (hk : l[k]? = some b) {p : α → Bool} (hb : p b = true) (who : β) (hp : ∀ a, p a = true → producer a = some who) :
    l.filter p = b :: (l.eraseIdx k).filter p := by
  have hnone : (l.take k).filter p = [] := by
    rw [List.filter_eq_nil_iff]
    intro a ha hpa
    refine hnext b hk a ha ?_ ((hp a hpa).trans (hp b hb).symm)
    rw [hp b hb]
    exact Option.some_ne_none who
  rw [List.eraseIdx_eq_take_drop_succ, List.filter_append, hnone, List.nil_append]
  conv_lhs => rw [eq_append hk, List.filter_append, hnone, List.nil_append, List.filter_cons_of_pos hb]

end ProducerQueue
