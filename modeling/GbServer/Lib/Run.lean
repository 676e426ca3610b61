/-!
# Run — a machine and its inputs, one after another

`Along` says that a condition holds of every state of a run and the input taken there, `Always` that one holds of every
state that a run reaches.  What every step under the condition preserves holds at the end of the run (`foldl_inv`); what a
step preserves exactly under a condition holds always exactly if every step meets it (`always_iff_along`).  What its steps
weigh is added up by `total` (`foldl_balance`).  `recorded` runs a machine beside a record of what it does.
-/
namespace Run

universe u v w

variable {σ : Type u} {ι : Type v}

/-- At each input of the run, `P` holds of the state before it and of the input. -/
def Along (step : σ → ι → σ) (P : σ → ι → Prop) : σ → List ι → Prop
  | _, []      => True
  | s, i :: is => P s i ∧ Along step P (step s i) is

instance (step : σ → ι → σ) (P : σ → ι → Prop) [∀ s i, Decidable (P s i)] : ∀ s is, Decidable (Along step P s is)
  | _, []      => isTrue trivial
  | s, i :: is =>
    have := instDecidableAlong step P (step s i) is
    inferInstanceAs (Decidable (P s i ∧ Along step P (step s i) is))

theorem along_append {step : σ → ι → σ} {P : σ → ι → Prop} : ∀ {is : List ι} {js : List ι} {s : σ},
    Along step P s (is ++ js) ↔ Along step P s is ∧ Along step P (is.foldl step s) js
  | [],      _, _ => (and_iff_right trivial).symm
  | i :: is, _, _ => by
    rw [List.cons_append, Along, along_append, List.foldl_cons, Along, and_assoc]

/-- A condition on the inputs alone. -/
theorem along_of_forall {step : σ → ι → σ} {P : σ → ι → Prop} :
    ∀ {is : List ι} {s : σ}, (∀ i ∈ is, ∀ s, P s i) → Along step P s is
  | [],     _, _ => trivial
  | i :: _, s, h => ⟨h i List.mem_cons_self s, along_of_forall fun j hj => h j (List.mem_cons_of_mem i hj)⟩

theorem foldl_inv {step : σ → ι → σ} {P : σ → ι → Prop} {inv : σ → Prop}
    (hstep : ∀ s i, inv s → P s i → inv (step s i)) :
    ∀ (is : List ι) {s : σ}, inv s → Along step P s is → inv (is.foldl step s)
  | [],      _, hs, _  => hs
  | i :: is, _, hs, hP => foldl_inv hstep is (hstep _ i hs hP.1) hP.2

/-- What every step preserves. -/
theorem foldl_of_step {step : σ → ι → σ} (inv : σ → Prop) (hstep : ∀ s i, inv s → inv (step s i)) (is : List ι) {s : σ}
    (hs : inv s) : inv (is.foldl step s) :=
  foldl_inv (P := fun _ _ => True) (fun s i hs _ => hstep s i hs) is hs (along_of_forall fun _ _ _ => trivial)

/-- What the invariant and the condition say of a step together. -/
theorem along_of_inv {step : σ → ι → σ} {P Q : σ → ι → Prop} {inv : σ → Prop}
    (hstep : ∀ s i, inv s → P s i → inv (step s i)) (hQ : ∀ s i, inv s → P s i → Q s i) :
    ∀ (is : List ι) {s : σ}, inv s → Along step P s is → Along step Q s is
  | [],      _, _,  _  => trivial
  | i :: is, s, hs, hP => ⟨hQ s i hs hP.1, along_of_inv hstep hQ is (hstep s i hs hP.1) hP.2⟩

/-- What holds after a step exactly if it held before and the step met the condition holds at the end of a run exactly
if it held at its start and every step met the condition; in runs whose steps meet another condition, where this takes it. -/
theorem foldl_iff_along {step : σ → ι → σ} {P Q : σ → ι → Prop} {inv safe : σ → Prop}
    (hinv : ∀ s i, inv s → Q s i → inv (step s i)) (hsafe : ∀ s i, inv s → Q s i → (safe (step s i) ↔ safe s ∧ P s i)) :
    ∀ (is : List ι) {s : σ}, inv s → Along step Q s is → (safe (is.foldl step s) ↔ safe s ∧ Along step P s is)
  | [],      _, _,  _  => (and_iff_left trivial).symm
  | i :: is, s, hs, hQ => by
    rw [List.foldl_cons, foldl_iff_along hinv hsafe is (hinv s i hs hQ.1) hQ.2, hsafe s i hs hQ.1, and_assoc]
    rfl

theorem foldl_iff {step : σ → ι → σ} {P : σ → ι → Prop} {inv safe : σ → Prop}
    (hinv : ∀ s i, inv s → inv (step s i)) (hsafe : ∀ s i, inv s → (safe (step s i) ↔ safe s ∧ P s i))
    (is : List ι) {s : σ} (hs : inv s) : safe (is.foldl step s) ↔ safe s ∧ Along step P s is :=
  foldl_iff_along (Q := fun _ _ => True) (fun s i hs _ => hinv s i hs) (fun s i hs _ => hsafe s i hs) is hs
    (along_of_forall fun _ _ _ => trivial)

/-- `P` holds of every state that the run reaches, the first one included. -/
def Always (step : σ → ι → σ) (P : σ → Prop) : σ → List ι → Prop
  | s, []      => P s
  | s, i :: is => P s ∧ Always step P (step s i) is

theorem Always.head {step : σ → ι → σ} {P : σ → Prop} {s : σ} : ∀ {is : List ι}, Always step P s is → P s
  | [],     h => h
  | _ :: _, h => h.1

theorem always_iff_take {step : σ → ι → σ} {P : σ → Prop} : ∀ {is : List ι} {s : σ},
    Always step P s is ↔ ∀ n, P ((is.take n).foldl step s)
  | [],      s => by
    simp only [Always, List.take_nil, List.foldl_nil, forall_const]
  | i :: is, s => by
    rw [Always, always_iff_take]
    constructor
    · rintro ⟨hs, hrest⟩ n
      cases n with
      | zero   => exact hs
      | succ n => exact hrest n
    · exact fun h => ⟨h 0, fun n => h (n + 1)⟩

/-- What every step under the condition preserves holds always. -/
theorem always_inv {step : σ → ι → σ} {P : σ → ι → Prop} {inv : σ → Prop}
    (hstep : ∀ s i, inv s → P s i → inv (step s i)) :
    ∀ (is : List ι) {s : σ}, inv s → Along step P s is → Always step inv s is
  | [],      _, hs, _  => hs
  | i :: is, s, hs, hP => ⟨hs, always_inv hstep is (hstep s i hs hP.1) hP.2⟩

/-- What every step preserves holds always. -/
theorem always_of_step {step : σ → ι → σ} (inv : σ → Prop) (hstep : ∀ s i, inv s → inv (step s i)) (is : List ι) {s : σ}
    (hs : inv s) : Always step inv s is :=
  always_inv (P := fun _ _ => True) (fun s i hs _ => hstep s i hs) is hs (along_of_forall fun _ _ _ => trivial)

theorem Always.mono {step : σ → ι → σ} {P Q : σ → Prop} (hPQ : ∀ s, P s → Q s) :
    ∀ {is : List ι} {s : σ}, Always step P s is → Always step Q s is
  | [],     s, h => hPQ s h
  | _ :: _, s, h => ⟨hPQ s h.1, h.2.mono hPQ⟩

/-- What a step preserves exactly under a condition. -/
theorem always_iff_along {step : σ → ι → σ} {P : σ → ι → Prop} {inv safe : σ → Prop}
    (hinv : ∀ s i, inv s → safe s → inv (step s i)) (hsafe : ∀ s i, inv s → safe s → (safe (step s i) ↔ P s i)) :
    ∀ (is : List ι) {s : σ}, inv s → safe s → (Always step safe s is ↔ Along step P s is)
  | [],      _, _,  hsafe' => iff_of_true hsafe' trivial
  | i :: is, s, hs, hsafe' => by
    rw [Always, Along, and_iff_right hsafe']
    constructor
    · intro h
      have hnext := (hsafe s i hs hsafe').1 h.head
      exact ⟨hnext, (always_iff_along hinv hsafe is (hinv s i hs hsafe') h.head).1 h⟩
    · rintro ⟨hP, hrest⟩
      have hnext := (hsafe s i hs hsafe').2 hP
      exact (always_iff_along hinv hsafe is (hinv s i hs hsafe') hnext).2 hrest

/-- Two machines on the same inputs, where what one does exactly under its condition is what the other does exactly under
its own. -/
theorem along_iff {τ : Type w} {step : σ → ι → σ} {step' : τ → ι → τ} {P : σ → ι → Prop} {Q : τ → ι → Prop}
    {rel : σ → τ → Prop} (hP : ∀ s t i, rel s t → (P s i ↔ Q t i))
    (hrel : ∀ s t i, rel s t → Q t i → rel (step s i) (step' t i)) :
    ∀ (is : List ι) {s : σ} {t : τ}, rel s t → (Along step P s is ↔ Along step' Q t is)
  | [],      _, _, _ => Iff.rfl
  | i :: is, s, t, h => by
    rw [Along, Along, hP s t i h]
    exact and_congr_right fun hQ => along_iff hP hrel is (hrel s t i h hQ)

/-! ## What the steps weigh -/

section

variable {step : σ → ι → σ}

/-- The sum of the weights of a run's steps. -/
def total (step : σ → ι → σ) (w : σ → ι → Nat) : σ → List ι → Nat
  | _, []      => 0
  | s, i :: is => w s i + total step w (step s i) is

/-- What every step gains and loses, a run gains and loses. -/
theorem foldl_balance {inv : σ → Prop} {f : σ → Nat} {gain loss : σ → ι → Nat} (hinv : ∀ s i, inv s → inv (step s i))
    (hstep : ∀ s i, inv s → f (step s i) + loss s i = f s + gain s i) :
    ∀ (is : List ι) {s : σ}, inv s → f (is.foldl step s) + total step loss s is = f s + total step gain s is
  | [],      _, _  => rfl
  | i :: is, s, hs => by
    have hfirst := hstep s i hs
    have hrest := foldl_balance hinv hstep is (hinv s i hs)
    rw [List.foldl_cons]
    unfold total
    omega

/-- What every step adds to a measure is in the measure at the end. -/
theorem total_le {inv : σ → Prop} {f : σ → Nat} {w : σ → ι → Nat} (hinv : ∀ s i, inv s → inv (step s i))
    (hstep : ∀ s i, inv s → f s + w s i ≤ f (step s i)) :
    ∀ (is : List ι) {s : σ}, inv s → f s + total step w s is ≤ f (is.foldl step s)
  | [],      _, _  => Nat.le_refl _
  | i :: is, s, hs => by
    have hfirst := hstep s i hs
    have hrest := total_le hinv hstep is (hinv s i hs)
    rw [List.foldl_cons]
    unfold total
    omega

/-- One for a step into `P`. -/
def enters (step : σ → ι → σ) (P : σ → Prop) [DecidablePred P] (s : σ) (i : ι) : Nat :=
  if ¬P s ∧ P (step s i) then 1 else 0

/-- A run that starts outside of `P` stays outside exactly if no step enters. -/
theorem total_enters_eq_zero_iff {P : σ → Prop} [DecidablePred P] : ∀ (is : List ι) {s : σ}, ¬P s →
    (total step (enters step P) s is = 0 ↔ Always step (fun s => ¬P s) s is)
  | [],      _, hs => iff_of_true rfl hs
  | i :: is, s, hs => by
    rw [total, Always, and_iff_right hs]
    by_cases hnext : P (step s i)
    · have henters : enters step P s i = 1 := if_pos ⟨hs, hnext⟩
      exact iff_of_false (by omega) fun h => h.head hnext
    · have henters : enters step P s i = 0 := if_neg fun h => hnext h.2
      rw [henters, Nat.zero_add, total_enters_eq_zero_iff is hnext]

end

/-! ## Without an end -/

section

variable {step : σ → ι → σ} {is : Nat → ι}

/-- The state after `n` of endlessly many inputs. -/
def after (step : σ → ι → σ) (s : σ) (is : Nat → ι) : Nat → σ
  | 0     => s
  | n + 1 => step (after step s is n) (is n)

theorem after_inv (inv : σ → Prop) (hstep : ∀ s n, inv s → inv (step s (is n))) {s : σ} (hs : inv s) :
    ∀ n, inv (after step s is n)
  | 0     => hs
  | n + 1 => hstep _ n (after_inv inv hstep hs n)

/-- A run whose steps make a measure smaller until it is done comes to its end. -/
theorem exists_after (inv done : σ → Prop) (measure : σ → Nat) (is : Nat → ι) {s : σ}
    (hstep : ∀ n, inv (after step s is n) → ¬done (after step s is n) →
      inv (after step s is (n + 1)) ∧ measure (after step s is (n + 1)) < measure (after step s is n))
    (hs : inv s) : ∃ n, done (after step s is n) := by
  apply Classical.byContradiction
  intro hnone
  have hall : ∀ n, inv (after step s is n) ∧ measure (after step s is n) + n ≤ measure s := by
    intro n
    induction n with
    | zero      => exact ⟨hs, Nat.le_refl _⟩
    | succ n ih =>
      obtain ⟨hnext, hlt⟩ := hstep n ih.1 fun hdone => hnone ⟨n, hdone⟩
      exact ⟨hnext, by omega⟩
  have hlast := (hall (measure s + 1)).2
  omega

end

/-! ## With a record -/

section

variable {γ : Type w} {step : σ → ι → σ} {record : σ → ι → γ → γ}

/-- A step that is recorded. -/
def recorded (step : σ → ι → σ) (record : σ → ι → γ → γ) (r : σ × γ) (i : ι) : σ × γ := (step r.1 i, record r.1 i r.2)

theorem foldl_recorded_fst : ∀ (is : List ι) (r : σ × γ), (is.foldl (recorded step record) r).1 = is.foldl step r.1
  | [],      _ => rfl
  | i :: is, r => by
    rw [List.foldl_cons, List.foldl_cons, foldl_recorded_fst is]
    rfl

theorem along_recorded {P : σ → ι → Prop} : ∀ {is : List ι} {r : σ × γ},
    Along (recorded step record) (fun r i => P r.1 i) r is ↔ Along step P r.1 is
  | [],     _ => Iff.rfl
  | _ :: _, _ => and_congr_right fun _ => along_recorded

end

end Run
