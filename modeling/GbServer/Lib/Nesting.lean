import Mathlib.Data.Nat.Find
import Mathlib.Order.WellFounded
/-!
# Nesting — how deep things lie in one another

Things with parts, which are things again (`part b a`: `b` is a part of `a`).  A recursion over all parts of a thing ends in as
many calls as the thing is nested; where there are finitely many parts of each, it ends exactly if no part of a part goes on
for ever.
-/
namespace Nesting

universe u v

variable {α : Type u} {β : Type v} {part : α → α → Prop}

/-- In `n` calls inside one another all parts are seen. -/
def Within (part : α → α → Prop) : Nat → α → Prop
  | 0,     _ => False
  | n + 1, a => ∀ b, part b a → Within part n b

theorem Within.mono : ∀ {m n : Nat} {a : α}, m ≤ n → Within part m a → Within part n a
  | 0,     _,     _, _,  h => h.elim
  | _ + 1, 0,     _, hn, _ => absurd hn (Nat.not_succ_le_zero _)
  | _ + 1, _ + 1, _, hn, h => fun b hb => (h b hb).mono (Nat.le_of_succ_le_succ hn)

theorem Within.of_part : ∀ {n : Nat} {a b : α}, Within part n a → part b a → Within part n b
  | 0,     _, _, h, _  => h.elim
  | n + 1, _, b, h, hb => (h b hb).mono (Nat.le_succ n)

/-- There are as many parts as a list has members. -/
def Finite (part : α → α → Prop) : Prop := ∀ a, ∃ parts : List α, ∀ b, part b a → b ∈ parts

/-- A depth for each of finitely many is one for all of them. -/
theorem exists_within_forall {P : α → Prop} {parts : List α} (hparts : ∀ b, P b → b ∈ parts)
    (h : ∀ b, P b → ∃ n, Within part n b) : ∃ n, ∀ b, P b → Within part n b := by
  induction parts generalizing P with
  | nil            => exact ⟨0, fun b hb => absurd (hparts b hb) List.not_mem_nil⟩
  | cons c parts ih =>
    -- the one that is not in the rest of the list, and those that are
    obtain ⟨n, hn⟩ := ih (fun b (hb : P b ∧ b ∈ parts) => hb.2) fun b hb => h b hb.1
    by_cases hc : P c
    · obtain ⟨m, hm⟩ := h c hc
      refine ⟨max m n, fun b hb => ?_⟩
      rcases List.mem_cons.1 (hparts b hb) with rfl | hrest
      · exact hm.mono (Nat.le_max_left m n)
      · exact (hn b ⟨hb, hrest⟩).mono (Nat.le_max_right m n)
    · refine ⟨n, fun b hb => hn b ⟨hb, ?_⟩⟩
      exact (List.mem_cons.1 (hparts b hb)).resolve_left fun heq => hc (heq ▸ hb)

theorem exists_within_iff (hfinite : Finite part) {a : α} :
    (∃ n, Within part n a) ↔ ∀ b, part b a → ∃ n, Within part n b := by
  constructor
  · rintro ⟨_ | n, h⟩ b hb
    · exact h.elim
    · exact ⟨n, h b hb⟩
  · intro h
    obtain ⟨parts, hparts⟩ := hfinite a
    obtain ⟨n, hn⟩ := exists_within_forall hparts h
    exact ⟨n + 1, hn⟩

/-- There is a depth exactly where no part of a part goes on for ever. -/
theorem exists_within_iff_acc (hfinite : Finite part) {a : α} : (∃ n, Within part n a) ↔ Acc part a := by
  constructor
  · rintro ⟨n, h⟩
    induction n generalizing a with
    | zero      => exact h.elim
    | succ n ih => exact Acc.intro a fun b hb => ih (h b hb)
  · intro h
    induction h with
    | intro a _ ih => exact (exists_within_iff hfinite).2 ih

/-- The parts of an image are the images of the parts. -/
theorem within_map {part' : β → β → Prop} {f : α → β} (hf : ∀ a c, part' c (f a) ↔ ∃ b, part b a ∧ f b = c) :
    ∀ {n : Nat} {a : α}, Within part' n (f a) ↔ Within part n a
  | 0,     _ => Iff.rfl
  | n + 1, a => by
    constructor
    · exact fun h b hb => (within_map hf).1 (h (f b) ((hf a (f b)).2 ⟨b, hb, rfl⟩))
    · intro h c hc
      obtain ⟨b, hb, rfl⟩ := (hf a c).1 hc
      exact (within_map hf).2 (h b hb)

/-! ## Two kinds of parts -/

/-- `b` lies in `a`, `k` levels down. -/
def Inside (part : α → α → Prop) : Nat → α → α → Prop
  | 0,     b, a => b = a
  | k + 1, b, a => ∃ c, part c a ∧ Inside part k b c

variable {part' rest : α → α → Prop}

/-- Parts of one kind, and others in those: each of the others takes up its share of the depth that is left. -/
theorem within_or_iff (hpart : ∀ b a, part' b a ↔ part b a ∨ rest b a) : ∀ {n : Nat} {a : α},
    Within part' n a ↔ Within part n a ∧ ∀ k b, Inside part k b a → ∀ c, rest c b → Within part' (n - (k + 1)) c
  | 0,     _ => iff_of_false id fun h => h.1
  | n + 1, a => by
    constructor
    · intro h
      have hinside (b : α) (hb : part b a) := (within_or_iff hpart).1 (h b ((hpart b a).2 (.inl hb)))
      refine ⟨fun b hb => (hinside b hb).1, fun k b hb c hc => ?_⟩
      cases k with
      | zero   =>
        obtain rfl : b = a := hb
        exact h c ((hpart c b).2 (.inr hc))
      | succ k =>
        obtain ⟨d, hd, hb⟩ := hb
        rw [Nat.add_sub_add_right]
        exact (hinside d hd).2 k b hb c hc
    · rintro ⟨hpresent, hrest⟩ b hb
      rcases (hpart b a).1 hb with hb | hb
      · refine (within_or_iff hpart).2 ⟨hpresent b hb, fun k c hc d hd => ?_⟩
        have h := hrest (k + 1) c ⟨b, hb, hc⟩ d hd
        rwa [Nat.add_sub_add_right] at h
      · exact hrest 0 a rfl b hb

/-- Where the parts of the first kind are nested in some depth, all are if the others are. -/
theorem exists_within_or_iff (hfinite : Finite part') (hpart : ∀ b a, part' b a ↔ part b a ∨ rest b a) {a : α}
    (ha : ∃ n, Within part n a) :
    (∃ n, Within part' n a) ↔ ∀ k b, Inside part k b a → ∀ c, rest c b → ∃ n, Within part' n c := by
  constructor
  · rintro ⟨n, h⟩ k b hb c hc
    exact ⟨_, ((within_or_iff hpart).1 h).2 k b hb c hc⟩
  · obtain ⟨n, h⟩ := ha
    intro hrest
    induction n generalizing a with
    | zero      => exact h.elim
    | succ n ih =>
      refine (exists_within_iff hfinite).2 fun b hb => ?_
      rcases (hpart b a).1 hb with hb | hb
      · exact ih (h b hb) fun k c hc => hrest (k + 1) c ⟨b, hb, hc⟩
      · exact hrest 0 a rfl b hb

end Nesting
