import Mathlib.Tactic.Common
/-!
# CallLog — programs and the calls that they make

A program makes calls of what it uses, and then it has returned or it has ended in an exception.  `Spec` says exactly when all
of its calls are allowed, and exactly when it returns: what is behind a call counts only where the call has returned.
-/
namespace CallLog

universe u

/-- The calls, the first one first, and what they come to. -/
structure Program (C ε α : Type u) where
  calls  : List C
  result : Except ε α

variable {C ε α β ι : Type u}

instance : Monad (Program C ε) where
  pure a := ⟨[], .ok a⟩
  bind m f :=
    match m.result with
    | .ok a    => ⟨m.calls ++ (f a).calls, (f a).result⟩
    | .error e => ⟨m.calls, .error e⟩

/-- A program that makes no call and does not return. -/
def throw (e : ε) : Program C ε α := ⟨[], .error e⟩

/-- A call, and what it comes to. -/
def call (c : C) (result : Except ε α) : Program C ε α := ⟨[c], result⟩

theorem bind_of_ok {m : Program C ε α} {f : α → Program C ε β} {a : α} (h : m.result = .ok a) :
    m >>= f = ⟨m.calls ++ (f a).calls, (f a).result⟩ := by
  change (match m.result with | .ok a => _ | .error e => _) = _
  rw [h]

theorem bind_of_error {m : Program C ε α} {f : α → Program C ε β} {e : ε} (h : m.result = .error e) :
    m >>= f = ⟨m.calls, .error e⟩ := by
  change (match m.result with | .ok a => _ | .error e => _) = _
  rw [h]

/-- It returns. -/
def Returns (m : Program C ε α) : Prop := ∃ a, m.result = .ok a

theorem returns_bind {m : Program C ε α} {f : α → Program C ε β} :
    Returns (m >>= f) ↔ ∃ a, m.result = .ok a ∧ Returns (f a) := by
  cases h : m.result with
  | ok a    =>
    rw [bind_of_ok h]
    exact ⟨fun hf => ⟨a, rfl, hf⟩, fun ⟨_, heq, hf⟩ => Except.ok.inj heq ▸ hf⟩
  | error e =>
    rw [bind_of_error h]
    exact ⟨fun ⟨_, hb⟩ => (nomatch hb), fun ⟨_, heq, _⟩ => (nomatch heq)⟩

variable {allowed : C → Prop} {safe safe' returns returns' : Prop}

/-- All calls of it are allowed. -/
def Safe (allowed : C → Prop) (m : Program C ε α) : Prop := ∀ c ∈ m.calls, allowed c

theorem safe_bind {m : Program C ε α} {f : α → Program C ε β} :
    Safe allowed (m >>= f) ↔ Safe allowed m ∧ ∀ a, m.result = .ok a → Safe allowed (f a) := by
  cases h : m.result with
  | ok a    =>
    rw [Safe, bind_of_ok h, List.forall_mem_append]
    exact and_congr_right fun _ => ⟨fun hf _ heq => Except.ok.inj heq ▸ hf, fun hf => hf a rfl⟩
  | error e =>
    rw [Safe, bind_of_error h]
    exact (and_iff_left fun _ heq => nomatch heq).symm

theorem safe_call {c : C} {result : Except ε α} : Safe allowed (call c result) ↔ allowed c := List.forall_mem_singleton

theorem safe_pure (a : α) : Safe allowed (Pure.pure a : Program C ε α) := fun _ h => absurd h List.not_mem_nil

/-- What is before calls that are all allowed. -/
theorem safe_before {m : Program C ε α} {f : α → Program C ε β} (hf : ∀ a, Safe allowed (f a)) :
    Safe allowed (m >>= f) ↔ Safe allowed m :=
  safe_bind.trans (and_iff_left fun a _ => hf a)

/-- When all calls are allowed, and when it returns. -/
structure Spec (allowed : C → Prop) (m : Program C ε α) (safe returns : Prop) : Prop where
  safe    : Safe allowed m ↔ safe
  returns : Returns m ↔ returns

namespace Spec

variable {m : Program C ε α} {f : α → Program C ε β}

theorem of_iff (h : Spec allowed m safe returns) (hsafe : safe' ↔ safe) (hreturns : returns' ↔ returns) :
    Spec allowed m safe' returns' := ⟨h.safe.trans hsafe.symm, h.returns.trans hreturns.symm⟩

theorem pure (a : α) : Spec allowed (Pure.pure a : Program C ε α) True True :=
  ⟨iff_of_true (fun _ h => absurd h List.not_mem_nil) trivial, iff_of_true ⟨a, rfl⟩ trivial⟩

theorem throw (e : ε) : Spec allowed (CallLog.throw e : Program C ε α) True False :=
  ⟨iff_of_true (fun _ h => absurd h List.not_mem_nil) trivial, iff_of_false (fun ⟨_, h⟩ => nomatch h) not_false⟩

theorem call (c : C) (result : Except ε α) : Spec allowed (call c result) (allowed c) (∃ a, result = .ok a) :=
  ⟨List.forall_mem_singleton, Iff.rfl⟩

/-- What comes behind depends on what was returned. -/
theorem bind {safe' returns' : α → Prop} (hm : Spec allowed m safe returns)
    (hf : ∀ a, m.result = .ok a → Spec allowed (f a) (safe' a) (returns' a)) :
    Spec allowed (m >>= f) (safe ∧ ∀ a, m.result = .ok a → safe' a) (∃ a, m.result = .ok a ∧ returns' a) where
  safe    := safe_bind.trans (and_congr hm.safe (forall₂_congr fun a ha => (hf a ha).safe))
  returns := returns_bind.trans (exists_congr fun a => and_congr_right fun ha => (hf a ha).returns)

/-- What comes behind is the same, whatever was returned. -/
theorem bind_const (hm : Spec allowed m safe returns) (hf : ∀ a, Spec allowed (f a) safe' returns') :
    Spec allowed (m >>= f) (safe ∧ (returns → safe')) (returns ∧ returns') := by
  refine (hm.bind fun a _ => hf a).of_iff (and_congr_right fun _ => ?_) ?_
  · rw [← hm.returns]
    exact ⟨fun h a ha => h ⟨a, ha⟩, fun h ⟨a, ha⟩ => h a ha⟩
  · rw [← hm.returns]
    exact ⟨fun ⟨⟨a, ha⟩, h⟩ => ⟨a, ha, h⟩, fun ⟨a, ha, h⟩ => ⟨⟨a, ha⟩, h⟩⟩

/-- What is behind a call that is allowed and returns. -/
theorem after (hm : Spec allowed m True True) (hf : ∀ a, Spec allowed (f a) safe returns) :
    Spec allowed (m >>= f) safe returns :=
  (hm.bind_const hf).of_iff (by rw [true_and, true_imp_iff]) (iff_of_eq (true_and _)).symm

/-- What is before a call that is allowed and returns. -/
theorem before (hm : Spec allowed m safe returns) (hf : ∀ a, Spec allowed (f a) True True) :
    Spec allowed (m >>= f) safe returns :=
  (hm.bind_const hf).of_iff (and_iff_left fun _ => trivial).symm (iff_of_eq (and_true _)).symm

theorem map {g : α → β} (hm : Spec allowed m safe returns) : Spec allowed (g <$> m) safe returns := by
  have hbind : Spec allowed (m >>= fun a => Pure.pure (g a)) safe returns := hm.before fun a => Spec.pure (g a)
  exact hbind

end Spec

/-- Each one is `safe` where all before it have returned. -/
def Along (safe returns : ι → Prop) : List ι → Prop
  | []     => True
  | x :: l => safe x ∧ (returns x → Along safe returns l)

/-- Where all are safe in any case, they are along the way. -/
theorem Along.of_forall {safe returns : ι → Prop} {l : List ι} (h : ∀ x ∈ l, safe x) : Along safe returns l := by
  induction l with
  | nil         => trivial
  | cons x l ih =>
    obtain ⟨hx, hl⟩ := List.forall_mem_cons.1 h
    exact ⟨hx, fun _ => ih hl⟩

/-- A loop each of whose rounds has the same specification, whatever the rounds before it have made. -/
theorem Spec.foldlM {f : β → ι → Program C ε β} {safe returns : ι → Prop} :
    ∀ {l : List ι}, (∀ x ∈ l, ∀ b, Spec allowed (f b x) (safe x) (returns x)) →
      ∀ b, Spec allowed (l.foldlM f b) (Along safe returns l) (∀ x ∈ l, returns x)
  | [],     _, b => (Spec.pure b).of_iff Iff.rfl (iff_of_true (fun _ h => absurd h List.not_mem_nil) trivial)
  | x :: l, h, b => by
    have hx := h x List.mem_cons_self b
    have hl := Spec.foldlM fun y hy => h y (List.mem_cons_of_mem x hy)
    exact (hx.bind_const hl).of_iff Iff.rfl List.forall_mem_cons

theorem Spec.forM {f : ι → Program C ε PUnit} {safe returns : ι → Prop} :
    ∀ {l : List ι}, (∀ x ∈ l, Spec allowed (f x) (safe x) (returns x)) →
      Spec allowed (l.forM f) (Along safe returns l) (∀ x ∈ l, returns x)
  | [],     _ => (Spec.pure PUnit.unit).of_iff Iff.rfl (iff_of_true (fun _ h => absurd h List.not_mem_nil) trivial)
  | x :: l, h => by
    have hx := h x List.mem_cons_self
    have hl := Spec.forM fun y hy => h y (List.mem_cons_of_mem x hy)
    exact (hx.bind_const fun _ => hl).of_iff Iff.rfl List.forall_mem_cons

/-- A loop of calls that are all allowed. -/
theorem Spec.forM_true {f : ι → Program C ε PUnit} {returns : ι → Prop} {l : List ι}
    (h : ∀ x ∈ l, Spec allowed (f x) True (returns x)) : Spec allowed (l.forM f) True (∀ x ∈ l, returns x) :=
  (Spec.forM h).of_iff (iff_of_true trivial (Along.of_forall fun _ _ => trivial)) Iff.rfl

/-- Where one is safe exactly if it returns, none is left out. -/
theorem along_self {safe : ι → Prop} {l : List ι} : Along safe safe l ↔ ∀ x ∈ l, safe x := by
  induction l with
  | nil         => exact iff_of_true trivial fun _ h => absurd h List.not_mem_nil
  | cons x l ih =>
    rw [Along, List.forall_mem_cons, ih]
    exact ⟨fun h => ⟨h.1, h.2 h.1⟩, fun h => ⟨h.1, fun _ => h.2⟩⟩

/-! ## Exceptions -/

/-- Only such exceptions end it. -/
def Throws (P : ε → Prop) (m : Program C ε α) : Prop := ∀ e, m.result = .error e → P e

namespace Throws

variable {P : ε → Prop} {m : Program C ε α} {f : α → Program C ε β}

theorem of_ok {a : α} (h : m.result = .ok a) : Throws P m := fun _ he => nomatch h.symm.trans he

theorem call {c : C} {result : Except ε α} (h : ∀ e, result = .error e → P e) : Throws P (call c result) := h

theorem bind (hm : Throws P m) (hf : ∀ a, m.result = .ok a → Throws P (f a)) : Throws P (m >>= f) := by
  intro e he
  cases h : m.result with
  | ok a     =>
    rw [bind_of_ok h] at he
    exact hf a h e he
  | error e' =>
    rw [bind_of_error h] at he
    exact Except.error.inj he ▸ hm e' h

theorem map {g : α → β} (hm : Throws P m) : Throws P (g <$> m) := by
  have hbind : Throws P (m >>= fun a => Pure.pure (g a)) := hm.bind fun a _ => of_ok (a := g a) rfl
  exact hbind

theorem foldlM {f : β → ι → Program C ε β} :
    ∀ {l : List ι}, (∀ x ∈ l, ∀ b, Throws P (f b x)) → ∀ b, Throws P (l.foldlM f b)
  | [],     _, _ => of_ok rfl
  | x :: _, h, b => (h x List.mem_cons_self b).bind fun b _ => foldlM (fun y hy => h y (List.mem_cons_of_mem x hy)) b

end Throws

end CallLog
