import Mathlib.Data.List.Basic
/-!
# Encoding — values and the words that stand for them

An encoding is a relation of values and words.  The words of a list of values stand one after another (`Sequence`).  A
reader may take other words for a value too, with a flag that tells when it does (`Flagged`).  Then an encoding of what
it returns may be shorter than what it reads, and the two readings of the stream part; where what lies between them is
words of one prefix-free encoding (`Lead`), that is how it stays, and they do not meet again (`Follows`).
-/
namespace Encoding

universe u v

variable {α : Type u} {β : Type v}

/-- The words of some values, one after another. -/
inductive Sequence (E : α → List β → Prop) : List α → List β → Prop
  | nil : Sequence E [] []
  | cons {a : α} {as : List α} {xs ys : List β} (head : E a xs) (tail : Sequence E as ys) : Sequence E (a :: as) (xs ++ ys)

namespace Sequence

variable {E F : α → List β → Prop}

theorem mono (h : ∀ a xs, E a xs → F a xs) {as : List α} {xs : List β} (hs : Sequence E as xs) : Sequence F as xs := by
  induction hs with
  | nil                => exact .nil
  | cons head tail ih => exact .cons (h _ _ head) ih

theorem singleton {a : α} {xs : List β} (h : E a xs) : Sequence E [a] xs := by
  have hs := Sequence.cons h (.nil (E := E))
  rwa [List.append_nil] at hs

theorem append {as bs : List α} {xs ys : List β} (h : Sequence E as xs) (h' : Sequence E bs ys) :
    Sequence E (as ++ bs) (xs ++ ys) := by
  induction h with
  | nil                => exact h'
  | cons head tail ih =>
    rw [List.cons_append, List.append_assoc]
    exact .cons head ih

theorem replicate {a : α} {x : β} (h : E a [x]) : ∀ n, Sequence E (List.replicate n a) (List.replicate n x)
  | 0     => .nil
  | n + 1 => .cons h (replicate h n)

theorem eq_nil {xs : List β} (h : Sequence E [] xs) : xs = [] := by
  cases h
  rfl

theorem flatMap {f : α → List β} : ∀ {as : List α}, (∀ a ∈ as, E a (f a)) → Sequence E as (as.flatMap f)
  | [],      _ => .nil
  | a :: as, h => by
    rw [List.flatMap_cons]
    exact .cons (h a List.mem_cons_self) (flatMap fun b hb => h b (List.mem_cons_of_mem a hb))

end Sequence

/-- The words of a pair, one behind the other. -/
def Pair {γ : Type u} (E : α → List β → Prop) (F : γ → List β → Prop) (p : α × γ) (ws : List β) : Prop :=
  ∃ xs ys, E p.1 xs ∧ F p.2 ys ∧ ws = xs ++ ys

/-- What a reader takes for some values, one after another; the flag holds of all if it holds of each. -/
inductive Flagged (A : α → List β → Bool → Prop) : List α → List β → Bool → Prop
  | nil : Flagged A [] [] true
  | cons {a : α} {as : List α} {xs ys : List β} {st st' : Bool} (head : A a xs st) (tail : Flagged A as ys st') :
      Flagged A (a :: as) (xs ++ ys) (st && st')

theorem Flagged.sequence {A : α → List β → Bool → Prop} {E : α → List β → Prop} (h : ∀ a xs, A a xs true → E a xs)
    {as : List α} {xs : List β} {st : Bool} (hall : Flagged A as xs st) : st = true → Sequence E as xs := by
  induction hall with
  | nil                        => exact fun _ => .nil
  | @cons a as xs ys st st' head tail ih =>
    intro hst
    obtain ⟨rfl, hst'⟩ := Bool.and_eq_true_iff.1 hst
    exact .cons (h a xs head) (ih hst')

/-- No word is the beginning of another. -/
def PrefixFree (E : α → List β → Prop) : Prop :=
  ∀ {a b : α} {xs ys r s : List β}, E a xs → E b ys → xs ++ r = ys ++ s → xs = ys

/-- What a reading is ahead of another: one word or more. -/
def Lead (E : α → List β → Prop) (lead : List β) : Prop := ∃ a as, Sequence E (a :: as) lead

namespace Lead

variable {E : α → List β → Prop}

/-- Both readings come to a word: the one that is behind reads it from the lead. -/
theorem shift (hE : PrefixFree E) {a b : α} {es cs lead r s : List β} (hlead : Lead E lead) (he : E a es) (hc : E b cs)
    (hstream : es ++ r = lead ++ (cs ++ s)) : ∃ lead', Lead E lead' ∧ es ++ lead' = lead ++ cs := by
  obtain ⟨x, xs, hseq⟩ := hlead
  cases hseq with
  | @cons _ _ ws rest head tail =>
    rw [List.append_assoc] at hstream
    obtain rfl := hE he head hstream
    have hnew := tail.append (.singleton hc)
    refine ⟨rest ++ cs, ?_, by rw [List.append_assoc]⟩
    cases hcons : xs ++ [b] with
    | nil       => simp at hcons
    | cons y ys => exact ⟨y, ys, hcons ▸ hnew⟩

theorem ne_nil (hE : ∀ a, ¬E a []) {lead : List β} (h : Lead E lead) : lead ≠ [] := by
  rintro rfl
  obtain ⟨x, xs, hseq⟩ := h
  generalize hnil : ([] : List β) = zs at hseq
  cases hseq with
  | @cons _ _ ws rest head tail =>
    obtain ⟨rfl, _⟩ := List.append_eq_nil_iff.1 hnil.symm
    exact hE x head

end Lead

/-- A reader and an encoding of what it returns, on one stream: they read the same and the flag is set, or the reader is
ahead by words of `N`; and once it is, it stays ahead by such words. -/
structure Follows (N : α → List β → Prop) (E : List β → Prop) (A : List β → Bool → Prop) : Prop where
  sync  : ∀ {cs es r s : List β} {st : Bool}, A cs st → E es → es ++ r = cs ++ s →
    st = true ∧ es = cs ∨ ∃ lead, Lead N lead ∧ cs = es ++ lead
  shift : ∀ {cs es lead r s : List β} {st : Bool}, A cs st → E es → Lead N lead → es ++ r = lead ++ (cs ++ s) →
    ∃ lead', Lead N lead' ∧ es ++ lead' = lead ++ cs

namespace Follows

variable {N : α → List β → Prop} {E F : List β → Prop} {A B : List β → Bool → Prop}

theorem mono (h : Follows N E A) (hE : ∀ xs, F xs → E xs) (hA : ∀ xs st, B xs st → A xs st) : Follows N F B where
  sync  := fun ha he hstream => h.sync (hA _ _ ha) (hE _ he) hstream
  shift := fun ha he hlead hstream => h.shift (hA _ _ ha) (hE _ he) hlead hstream

/-- Both read one of the words; where it is the same the flag is set. -/
theorem word (hN : PrefixFree N) (hE : ∀ xs, E xs → ∃ a, N a xs) (hA : ∀ xs st, A xs st → ∃ a, N a xs)
    (hst : ∀ xs st, A xs st → E xs → st = true) : Follows N E A where
  sync  := fun {_ _ _ _ st} ha he hstream => by
    obtain ⟨a, hxs⟩ := hE _ he
    obtain ⟨b, hys⟩ := hA _ _ ha
    obtain rfl := hN hxs hys hstream
    exact .inl ⟨hst _ st ha he, rfl⟩
  shift := fun ha he hlead hstream => by
    obtain ⟨a, hxs⟩ := hE _ he
    obtain ⟨b, hys⟩ := hA _ _ ha
    exact hlead.shift hN hxs hys hstream

/-- No encoding begins as one of the words. -/
theorem apart (hE : ∀ {es lead r s : List β}, E es → Lead N lead → es ++ r ≠ lead ++ s)
    (hsync : ∀ {cs es r s : List β} {st : Bool}, A cs st → E es → es ++ r = cs ++ s →
      st = true ∧ es = cs ∨ ∃ lead, Lead N lead ∧ cs = es ++ lead) : Follows N E A where
  sync  := hsync
  shift := fun _ he hlead hstream => absurd hstream (hE he hlead)

/-- Nothing is read. -/
theorem nothing : Follows N (fun xs => xs = []) fun xs st => xs = [] ∧ st = true where
  sync  := fun ha he _ => .inl ⟨ha.2, he.trans ha.1.symm⟩
  shift := fun {_ _ lead _ _ _} ha he hlead _ => ⟨lead, hlead, by rw [he, ha.1, List.append_nil, List.nil_append]⟩

/-- One part after another. -/
theorem append (h : Follows N E A) (h' : Follows N F B) :
    Follows N (fun bs => ∃ xs ys, E xs ∧ F ys ∧ bs = xs ++ ys)
      fun bs st => ∃ xs ys st₁ st₂, A xs st₁ ∧ B ys st₂ ∧ bs = xs ++ ys ∧ st = (st₁ && st₂) where
  sync  := by
    rintro _ _ r s _ ⟨us, vs, st₁, st₂, ha, hb, rfl, rfl⟩ ⟨xs, ys, he, hf, rfl⟩ hstream
    rw [List.append_assoc, List.append_assoc] at hstream
    rcases h.sync ha he hstream with ⟨rfl, rfl⟩ | ⟨lead, hlead, rfl⟩
    · rcases h'.sync hb hf (List.append_cancel_left hstream) with ⟨rfl, rfl⟩ | ⟨lead, hlead, rfl⟩
      · exact .inl ⟨rfl, rfl⟩
      · exact .inr ⟨lead, hlead, (List.append_assoc ..).symm⟩
    · rw [List.append_assoc] at hstream
      obtain ⟨lead', hlead', heq⟩ := h'.shift hb hf hlead (List.append_cancel_left hstream)
      exact .inr ⟨lead', hlead', by rw [List.append_assoc, List.append_assoc, heq]⟩
  shift := by
    rintro _ _ lead r s _ ⟨us, vs, st₁, st₂, ha, hb, rfl, rfl⟩ ⟨xs, ys, he, hf, rfl⟩ hlead hstream
    rw [List.append_assoc, List.append_assoc] at hstream
    obtain ⟨lead₁, hlead₁, heq₁⟩ := h.shift ha he hlead hstream
    rw [← List.append_assoc lead, ← heq₁, List.append_assoc] at hstream
    obtain ⟨lead₂, hlead₂, heq₂⟩ := h'.shift hb hf hlead₁ (List.append_cancel_left hstream)
    exact ⟨lead₂, hlead₂, by rw [List.append_assoc, heq₂, ← List.append_assoc, heq₁, List.append_assoc]⟩

/-- Values one after another. -/
theorem sequence {γ : Type v} {E : γ → List β → Prop} {A : γ → List β → Bool → Prop} :
    ∀ (as : List γ), (∀ a ∈ as, Follows N (E a) (A a)) → Follows N (Sequence E as) (Flagged A as)
  | [],      _ => by
    apply nothing.mono
    · exact fun xs hseq => hseq.eq_nil
    · rintro xs st hall
      cases hall
      exact ⟨rfl, rfl⟩
  | a :: as, h => by
    apply ((h a List.mem_cons_self).append (sequence as fun b hb => h b (List.mem_cons_of_mem a hb))).mono
    · rintro xs hseq
      cases hseq with
      | cons head tail => exact ⟨_, _, head, tail, rfl⟩
    · rintro xs st hall
      cases hall with
      | cons head tail => exact ⟨_, _, _, _, head, tail, rfl, rfl⟩

end Follows

end Encoding
