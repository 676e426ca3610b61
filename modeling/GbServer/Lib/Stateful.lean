import Mathlib.Tactic.Common
/-!
# Stateful — programs with a state and exceptions

What a program does to its state, whether it returns or throws, as a preorder on states (`Steps`): it is enough that
each primitive respects it.  An invariant is the preorder "if it held before, it holds after".  What holds of a run that
starts in certain states is a triple (`Hoare`) with a postcondition for its exceptions.
-/
namespace Stateful

universe u

variable {ε σ α β : Type u}

/-- The state behind a run. -/
def after : EStateM.Result ε σ α → σ
  | .ok _ s    => s
  | .error _ s => s

@[simp] theorem after_ok (a : α) (s : σ) : after (.ok a s : EStateM.Result ε σ α) = s := rfl

@[simp] theorem after_error (e : ε) (s : σ) : after (.error e s : EStateM.Result ε σ α) = s := rfl

theorem bind_of_ok {m : EStateM ε σ α} {f : α → EStateM ε σ β} {s t : σ} {a : α} (h : m s = .ok a t) :
    (m >>= f) s = f a t := by
  change EStateM.bind m f s = f a t
  rw [EStateM.bind, h]

theorem bind_of_error {m : EStateM ε σ α} {f : α → EStateM ε σ β} {s t : σ} {e : ε} (h : m s = .error e t) :
    (m >>= f) s = .error e t := by
  change EStateM.bind m f s = .error e t
  rw [EStateM.bind, h]

/-- A run that returns returned from both of its parts. -/
theorem bind_eq_ok {m : EStateM ε σ α} {f : α → EStateM ε σ β} {s t : σ} {b : β} (h : (m >>= f) s = .ok b t) :
    ∃ a r, m s = .ok a r ∧ f a r = .ok b t := by
  cases hm : m s with
  | ok a r    => exact ⟨a, r, rfl, (bind_of_ok hm).symm.trans h⟩
  | error e r =>
    rw [bind_of_error hm] at h
    cases h

/-- How a run ends: with a result, or with an exception. -/
def outcome : EStateM.Result ε σ α → Option ε
  | .ok _ _    => none
  | .error e _ => some e

/-- Every run of `m` goes along the relation, from its first state to its outcome and its last. -/
def Steps (R : σ → Option ε → σ → Prop) (m : EStateM ε σ α) : Prop := ∀ s, R s (outcome (m s)) (after (m s))

/-- What a relation needs for programs to go along it when their parts do. -/
structure Chain (R : σ → Option ε → σ → Prop) : Prop where
  refl  : ∀ s, R s none s
  trans : ∀ {r s o t}, R r none s → R s o t → R r o t

variable {R : σ → Option ε → σ → Prop}

theorem Steps.pure (hR : Chain R) (a : α) : Steps R (Pure.pure a : EStateM ε σ α) := fun s => hR.refl s

theorem Steps.bind (hR : Chain R) {m : EStateM ε σ α} {f : α → EStateM ε σ β} (hm : Steps R m)
    (hf : ∀ a, Steps R (f a)) : Steps R (m >>= f) := by
  intro s
  have h := hm s
  cases hms : m s with
  | ok a t    =>
    rw [hms] at h
    rw [bind_of_ok hms]
    exact hR.trans h (hf a t)
  | error e t =>
    rw [hms] at h
    rw [bind_of_error hms]
    exact h

theorem Steps.ite {c : Prop} [Decidable c] {m n : EStateM ε σ α} (hm : Steps R m) (hn : Steps R n) :
    Steps R (if c then m else n) := by
  split
  · exact hm
  · exact hn

theorem Steps.of_ok {m : EStateM ε σ α} (h : Steps R m) {s t : σ} {a : α} (hm : m s = .ok a t) : R s none t := by
  have := h s
  rwa [hm] at this

/-! ## Triples -/

/-- From a state of `P`, a run returns with a value and a state of `Q`, or throws an exception of `E`. -/
def Hoare (P : σ → Prop) (m : EStateM ε σ α) (Q : α → σ → Prop) (E : ε → Prop) : Prop :=
  ∀ s, P s → match m s with
    | .ok a t    => Q a t
    | .error e _ => E e

namespace Hoare

variable {P P' : σ → Prop} {Q Q' : α → σ → Prop} {E E' : ε → Prop} {m n : EStateM ε σ α}

theorem ok (h : Hoare P m Q E) {s t : σ} {a : α} (hs : P s) (hm : m s = .ok a t) : Q a t := by
  have := h s hs
  rwa [hm] at this

theorem error (h : Hoare P m Q E) {s t : σ} {e : ε} (hs : P s) (hm : m s = .error e t) : E e := by
  have := h s hs
  rwa [hm] at this

theorem weaken (h : Hoare P m Q E) (hP : ∀ s, P' s → P s) (hQ : ∀ a t, Q a t → Q' a t) (hE : ∀ e, E e → E' e) :
    Hoare P' m Q' E' := by
  intro s hs
  have := h s (hP s hs)
  cases hm : m s with
  | ok a t    =>
    rw [hm] at this
    exact hQ a t this
  | error e t =>
    rw [hm] at this
    exact hE e this

theorem pure {a : α} (h : ∀ s, P s → Q a s) : Hoare P (Pure.pure a : EStateM ε σ α) Q E := h

theorem throw {e : ε} (h : E e) : Hoare P (throw e : EStateM ε σ α) Q E := fun _ _ => h

theorem bind {f : α → EStateM ε σ β} {S : β → σ → Prop} (hm : Hoare P m Q E) (hf : ∀ a, Hoare (Q a) (f a) S E) :
    Hoare P (m >>= f) S E := by
  intro s hs
  cases hms : m s with
  | ok a t    =>
    rw [bind_of_ok hms]
    exact hf a t (hm.ok hs hms)
  | error e t =>
    rw [bind_of_error hms]
    exact hm.error hs hms

theorem ite {c : Prop} [Decidable c] (hm : c → Hoare P m Q E) (hn : ¬c → Hoare P n Q E) :
    Hoare P (if c then m else n) Q E := by
  split
  · rename_i h
    exact hm h
  · rename_i h
    exact hn h

/-- What a relation that the program goes along does to a property of states. -/
theorem of_steps (h : Steps R m) (hQ : ∀ s a t, P s → R s none t → Q a t) (hE : ∀ s e t, P s → R s (some e) t → E e) :
    Hoare P m Q E := by
  intro s hs
  have := h s
  cases hm : m s with
  | ok a t    =>
    rw [hm] at this
    exact hQ s a t hs this
  | error e t =>
    rw [hm] at this
    exact hE s e t hs this

end Hoare

end Stateful
