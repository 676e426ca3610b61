import Mathlib.Algebra.BigOperators.Group.Finset.Piecewise
import Mathlib.Algebra.Order.BigOperators.Group.List
import Mathlib.Algebra.Order.Ring.Int
import Mathlib.Algebra.Order.Ring.Nat
import Mathlib.Data.Fintype.Basic
/-!
# Tally — counting over lists that are changed in one place

`tally f l` is the sum of the weights that `f` gives to the elements of `l`.  What a change of one element, or its removal,
does to the sum is said without subtraction, so that `omega` adds the changes up.
-/
namespace Tally

universe u

variable {α : Type u}

def tally (f : α → Nat) (l : List α) : Nat := (l.map f).sum

@[simp] theorem tally_nil (f : α → Nat) : tally f [] = 0 := rfl

@[simp] theorem tally_cons (f : α → Nat) (a : α) (l : List α) : tally f (a :: l) = f a + tally f l := by
  simp [tally]

@[simp] theorem tally_append (f : α → Nat) (l m : List α) : tally f (l ++ m) = tally f l + tally f m := by
  simp [tally]

theorem tally_replicate (f : α → Nat) (n : Nat) (a : α) : tally f (List.replicate n a) = n * f a := by
  simp [tally]

theorem tally_filterMap {β : Type*} (f : α → Option β) (w : β → Nat) (l : List α) :
    tally w (l.filterMap f) = tally (fun a => ((f a).map w).getD 0) l := by
  induction l with
  | nil         => rfl
  | cons a l ih => cases hfa : f a <;> simp [hfa, ih]

theorem tally_eraseIdx (f : α → Nat) {a : α} : ∀ {l : List α} {k : Nat}, l[k]? = some a →
    tally f (l.eraseIdx k) + f a = tally f l
  | [],     _,     h => by simp at h
  | b :: l, 0,     h => by
    simp only [List.getElem?_cons_zero, Option.some.injEq] at h
    subst h
    simp [Nat.add_comm]
  | b :: l, k + 1, h => by
    have hrec := tally_eraseIdx f (l := l) (k := k) (by simpa using h)
    simp
    omega

theorem tally_filter (w : α → Nat) (p : α → Bool) (l : List α) :
    tally w (l.filter p) = tally (fun a => if p a then w a else 0) l := by
  induction l with
  | nil         => rfl
  | cons a l ih => cases hpa : p a <;> simp [hpa, ih]

/-- Weights that are not greater, and one of them smaller. -/
theorem tally_lt {w w' : α → Nat} {l : List α} {a : α} (hle : ∀ b ∈ l, w b ≤ w' b) (ha : a ∈ l) (hlt : w a < w' a) :
    tally w l < tally w' l := List.sum_lt_sum _ _ hle ⟨a, ha, hlt⟩

theorem tally_count [DecidableEq α] (t : α) (l : List α) : tally (fun b => [b].count t) l = l.count t := by
  induction l with
  | nil         => rfl
  | cons b l ih => rw [tally_cons, ih, ← List.count_append, List.singleton_append]

theorem count_eraseIdx [DecidableEq α] (t : α) {a : α} {l : List α} {k : Nat} (h : l[k]? = some a) :
    (l.eraseIdx k).count t + [a].count t = l.count t := by
  rw [← tally_count t (l.eraseIdx k), ← tally_count t l]
  exact tally_eraseIdx _ h

theorem tally_modify (f : α → Nat) (g : α → α) {a : α} : ∀ {l : List α} {k : Nat}, l[k]? = some a →
    tally f (l.modify k g) + f a = tally f l + f (g a)
  | [],     _,     h => by simp at h
  | b :: l, 0,     h => by
    simp only [List.getElem?_cons_zero, Option.some.injEq] at h
    subst h
    simp
    omega
  | b :: l, k + 1, h => by
    have hrec := tally_modify f g (l := l) (k := k) (by simpa using h)
    simp
    omega

theorem tally_set (f : α → Nat) {a : α} (b : α) {l : List α} {k : Nat} (h : l[k]? = some a) :
    tally f (l.set k b) + f a = tally f l + f b := by
  rw [List.set_eq_modify]
  exact tally_modify f (fun _ => b) h

/-- A change that leaves the weights as they were. -/
theorem tally_modify_of_eq {f : α → Nat} {g : α → α} (h : ∀ a, f (g a) = f a) : ∀ (l : List α) (k : Nat),
    tally f (l.modify k g) = tally f l
  | [],     _     => by simp
  | b :: l, 0     => by simp [h]
  | b :: l, k + 1 => by simp [tally_modify_of_eq h l k]

theorem le_tally (f : α → Nat) {a : α} : ∀ {l : List α}, a ∈ l → f a ≤ tally f l
  | b :: l, h => by
    rcases List.mem_cons.1 h with rfl | h
    · simp
    · have hrec := le_tally f h
      simp
      omega

theorem tally_eq_zero {f : α → Nat} : ∀ {l : List α}, (∀ a ∈ l, f a = 0) → tally f l = 0
  | [],     _ => rfl
  | b :: l, h => by
    have hrec := tally_eq_zero (f := f) (l := l) fun a ha => h a (List.mem_cons_of_mem b ha)
    simp [h b, hrec]

/-- Where only one element has a weight. -/
theorem tally_eq_of_unique {f : α → Nat} : ∀ {l : List α} {i : Nat}, (∀ j a, l[j]? = some a → j ≠ i → f a = 0) →
    tally f l = ((l[i]?).map f).getD 0
  | [],     i,     _ => by simp
  | b :: l, 0,     h => by
    have hzero : tally f l = 0 := by
      apply tally_eq_zero
      intro a ha
      obtain ⟨j, hj⟩ := List.mem_iff_getElem?.1 ha
      exact h (j + 1) a (by simpa using hj) (Nat.succ_ne_zero j)
    simp [hzero]
  | b :: l, i + 1, h => by
    have hb := h 0 b (by simp) (by omega)
    have hrec := tally_eq_of_unique (f := f) (l := l) (i := i) fun j a ha hj => h (j + 1) a (by simpa using ha) (by omega)
    simp [hb, hrec]

/-- Counting the places of a list. -/
theorem card_filter_getElem? (p : α → Bool) (l : List α) :
    ((Finset.range l.length).filter fun n => l[n]?.any p).card = l.countP p := by
  induction l using List.reverseRecOn with
  | nil             => rfl
  | append_singleton l a ih =>
    have hlast : (l ++ [a])[l.length]?.any p = p a := by rw [List.getElem?_concat_length, Option.any_some]
    have hinit : ((Finset.range l.length).filter fun n => (l ++ [a])[n]?.any p) =
        (Finset.range l.length).filter fun n => l[n]?.any p := by
      apply Finset.filter_congr
      intro n hn
      rw [List.getElem?_append_left (Finset.mem_range.1 hn)]
    rw [List.length_append, List.length_singleton, Finset.range_add_one, Finset.filter_insert, hlast, hinit,
      List.countP_append, List.countP_singleton, ← ih]
    split
    · rw [Finset.card_insert_of_notMem fun hmem => Finset.notMem_range_self (Finset.mem_of_mem_filter _ hmem)]
    · rfl

/-- A sum over all elements of a type, of which one is changed. -/
theorem sum_update {ι β : Type*} [Fintype ι] [DecidableEq ι] (g : β → Nat) (f : ι → β) (i : ι) (b : β) :
    ∑ j, g (Function.update f i b j) + g (f i) = ∑ j, g (f j) + g b := by
  have hupdate : ∀ j, g (Function.update f i b j) = Function.update (g ∘ f) i (g b) j := by
    intro j
    rw [← Function.comp_update]
    rfl
  simp only [hupdate]
  rw [Finset.sum_update_of_mem (Finset.mem_univ i), ← Finset.add_sum_erase _ (fun j => g (f j)) (Finset.mem_univ i),
    Finset.sdiff_singleton_eq_erase]
  simp only [Function.comp_apply]
  omega

/-- An element of a list that was changed in one place. -/
theorem of_getElem?_modify {g : α → α} {l : List α} {i j : Nat} {b : α} (h : (l.modify i g)[j]? = some b) :
    ∃ a, l[j]? = some a ∧ (i = j ∧ b = g a ∨ i ≠ j ∧ b = a) := by
  rw [List.getElem?_modify] at h
  cases ha : l[j]? with
  | none   => simp [ha] at h
  | some a =>
    refine ⟨a, rfl, ?_⟩
    by_cases hij : i = j
    · simp [ha, hij] at h
      exact .inl ⟨hij, h.symm⟩
    · simp [ha, hij] at h
      exact .inr ⟨hij, h.symm⟩

/-- What all elements keep of a change of one. -/
theorem forall_modify {P : α → Prop} {g : α → α} {l : List α} (h : ∀ a ∈ l, P a) (i : Nat)
    (hg : ∀ a, l[i]? = some a → P (g a)) : ∀ a ∈ l.modify i g, P a := by
  intro a ha
  obtain ⟨j, hj⟩ := List.mem_iff_getElem?.1 ha
  obtain ⟨old, hold, ⟨rfl, rfl⟩ | ⟨_, rfl⟩⟩ := of_getElem?_modify hj
  · exact hg old hold
  · exact h _ (List.mem_of_getElem? hold)

end Tally
