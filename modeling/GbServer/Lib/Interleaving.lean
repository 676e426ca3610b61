import GbServer.Lib.Run
import GbServer.Lib.Threads
/-!
# Interleaving — threads that share a state

A program says what one action does to what the threads share, and what its thread has to do in place of it; where the
thread has to wait, nothing.  What is called from outside is one more thread; what the application calls from inside of an
action, as from a callback, comes before that action on its thread.  `step_cases` says what an event can do, `run_inv` what
holds of every run whose actions meet a condition.
-/
namespace Interleaving

open Run (Along)
open Threads

structure Program (σ ι κ α : Type) where
  act   : σ → ι → α → Option (σ × List α)
  call  : σ → κ → Option (σ × List α)
  /-- The actions that run code of the application. -/
  calls : α → Bool

structure State (σ α : Type) where
  shared : σ
  ops    : List (List α) := []

inductive Event (ι κ : Type)
  | call (c : κ)
  | inside (k : Nat) (c : κ)
  | step (k : Nat) (input : ι)

variable {σ ι κ α : Type}

namespace Program

variable (p : Program σ ι κ α)

def step (s : State σ α) : Event ι κ → State σ α
  | .call c       =>
    match p.call s.shared c with
    | some (shared, op) => ⟨shared, s.ops ++ [op]⟩
    | none              => s
  | .inside k c   =>
    match s.ops[k]? with
    | some (a :: _) =>
      if p.calls a then
        match p.call s.shared c with
        | some (shared, op) => ⟨shared, advance s.ops k (op ++ [a])⟩
        | none              => s
      else s
    | _             => s
  | .step k input =>
    match s.ops[k]? with
    | some (a :: _) =>
      match p.act s.shared input a with
      | some (shared, pushed) => ⟨shared, advance s.ops k pushed⟩
      | none                  => s
    | _             => s

/-- The action that an event does. -/
def AtAction (Q : State σ α → Nat → ι → α → Prop) (s : State σ α) : Event ι κ → Prop
  | .step k input =>
    match s.ops[k]? with
    | some (a :: _) => Q s k input a
    | _             => True
  | _             => True

instance (Q : State σ α → Nat → ι → α → Prop) [∀ s k i a, Decidable (Q s k i a)] (s : State σ α) :
    (e : Event ι κ) → Decidable (AtAction Q s e)
  | .step k input =>
    match h : s.ops[k]? with
    | some (a :: _) => decidable_of_iff (Q s k input a) (by simp [AtAction, h])
    | some []       => isTrue (by simp [AtAction, h])
    | none          => isTrue (by simp [AtAction, h])
  | .call _       => isTrue trivial
  | .inside _ _   => isTrue trivial

/-- What asks nothing of the actions asks nothing of the events. -/
theorem atAction_true (s : State σ α) (e : Event ι κ) : AtAction (fun _ _ _ _ => True) s e := by
  cases e with
  | step k input =>
    simp only [AtAction]
    split <;> trivial
  | _            => trivial

variable {p} {s : State σ α}

variable (p) in
/-- The threads after a call: as if there were one more, and one of them either is or begins with what is called.  The
threads keep their numbers. -/
structure Started (op : List α) (before after : List (List α)) : Prop where
  has    : ∀ b, Has after b ↔ Has (op :: before) b
  weight : ∀ w, weight w after = weight w (op :: before)
  nth    : ∀ (k : Nat) (o : List α), after[k]? = some o → before[k]? = some o ∨ (before[k]? = none ∧ o = op) ∨
    ∃ a rest, p.calls a = true ∧ before[k]? = some (a :: rest) ∧ o = op ++ a :: rest
  length : before.length ≤ after.length

theorem Started.each {op : List α} {before after : List (List α)} (h : p.Started op before after) (o : List α)
    (ho : o ∈ after) : o ∈ before ∨ o = op ∨ ∃ a rest, p.calls a = true ∧ a :: rest ∈ before ∧ o = op ++ a :: rest := by
  obtain ⟨k, hk⟩ := List.mem_iff_getElem?.1 ho
  rcases h.nth k o hk with hold | ⟨_, rfl⟩ | ⟨a, rest, ha, hold, rfl⟩
  · exact .inl (List.mem_of_getElem? hold)
  · exact .inr (.inl rfl)
  · exact .inr (.inr ⟨a, rest, ha, List.mem_of_getElem? hold, rfl⟩)

theorem Started.append (op : List α) (ops : List (List α)) : p.Started op ops (ops ++ [op]) where
  has    := fun b => by
    simp only [Has, List.mem_append, List.mem_cons]
    grind
  weight := fun w => by
    rw [weight_cons]
    simp only [Threads.weight, Tally.tally_append, Tally.tally_cons, Tally.tally_nil]
    omega
  nth    := fun k o ho => by
    by_cases hlt : k < ops.length
    · rw [List.getElem?_append_left hlt] at ho
      exact .inl ho
    · rw [List.getElem?_append_right (by omega)] at ho
      have hmem := List.mem_of_getElem? ho
      exact .inr (.inl ⟨List.getElem?_eq_none (by omega), List.mem_singleton.1 hmem⟩)
  length := by simp

theorem Started.inside {op : List α} {ops : List (List α)} {k : Nat} {a : α} {rest : List α} (hk : ops[k]? = some (a :: rest))
    (ha : p.calls a = true) : p.Started op ops (advance ops k (op ++ [a])) where
  has    := fun _ => has_advance_before hk
  weight := fun w => weight_advance_before w hk
  nth    := fun j o ho => by
    rcases getElem?_advance hk ho with ⟨rfl, rfl⟩ | ⟨_, ho⟩
    · exact .inr (.inr ⟨a, rest, ha, hk, by simp⟩)
    · exact .inl ho
  length := by simp [advance]

/-- A thread that there was is there after a call, or has begun with what is called. -/
theorem Started.of_getElem? {op o : List α} {before after : List (List α)} (h : p.Started op before after) {k : Nat}
    (hk : before[k]? = some o) :
    after[k]? = some o ∨ ∃ a rest, p.calls a = true ∧ o = a :: rest ∧ after[k]? = some (op ++ a :: rest) := by
  have hlt : k < after.length := Nat.lt_of_lt_of_le (List.getElem?_eq_some_iff.1 hk).1 h.length
  have hafter := List.getElem?_eq_getElem hlt
  rcases h.nth k _ hafter with hold | ⟨hnone, _⟩ | ⟨a, rest, ha, hold, heq⟩
  · rw [hafter, ← hold]
    exact .inl hk
  · rw [hk] at hnone
    cases hnone
  · rw [hk] at hold
    rw [hafter, heq]
    exact .inr ⟨a, rest, ha, Option.some.inj hold, rfl⟩

/-- **What an event can do.**  It does nothing, begins a call, or takes a thread one action on. -/
theorem step_cases (e : Event ι κ) :
    p.step s e = s ∨
    (∃ c shared op ops, p.call s.shared c = some (shared, op) ∧ p.Started op s.ops ops ∧ p.step s e = ⟨shared, ops⟩) ∨
    ∃ k input a rest shared pushed, e = .step k input ∧ s.ops[k]? = some (a :: rest) ∧
      p.act s.shared input a = some (shared, pushed) ∧ p.step s e = ⟨shared, advance s.ops k pushed⟩ := by
  cases e with
  | call c       =>
    cases hcall : p.call s.shared c with
    | none   => exact .inl (by simp [step, hcall])
    | some r => exact .inr (.inl ⟨c, r.1, r.2, _, hcall, .append r.2 s.ops, by simp [step, hcall]⟩)
  | inside k c   =>
    rcases hk : s.ops[k]? with _ | _ | ⟨a, rest⟩
    · exact .inl (by simp [step, hk])
    · exact .inl (by simp [step, hk])
    · by_cases ha : p.calls a
      · cases hcall : p.call s.shared c with
        | none   => exact .inl (by simp [step, hk, ha, hcall])
        | some r =>
          exact .inr (.inl ⟨c, r.1, r.2, _, hcall, .inside hk ha, by simp [step, hk, ha, hcall]⟩)
      · exact .inl (by simp [step, hk, ha])
  | step k input =>
    rcases hk : s.ops[k]? with _ | _ | ⟨a, rest⟩
    · exact .inl (by simp [step, hk])
    · exact .inl (by simp [step, hk])
    · cases hact : p.act s.shared input a with
      | none   => exact .inl (by simp [step, hk, hact])
      | some r => exact .inr (.inr ⟨k, input, a, rest, r.1, r.2, rfl, hk, hact, by simp [step, hk, hact]⟩)

/-- What calls preserve, and actions that meet the condition. -/
structure Preserves (p : Program σ ι κ α) (Q : State σ α → Nat → ι → α → Prop) (inv : State σ α → Prop) : Prop where
  call : ∀ s, inv s → ∀ c shared op ops, p.call s.shared c = some (shared, op) → p.Started op s.ops ops → inv ⟨shared, ops⟩
  act  : ∀ s, inv s → ∀ k input a rest shared pushed, s.ops[k]? = some (a :: rest) → Q s k input a →
    p.act s.shared input a = some (shared, pushed) → inv ⟨shared, advance s.ops k pushed⟩

theorem Preserves.and {Q R : State σ α → Nat → ι → α → Prop} {inv jnv : State σ α → Prop} (h : Preserves p Q inv)
    (k : Preserves p R jnv) : Preserves p (fun s i input a => Q s i input a ∧ R s i input a) fun s => inv s ∧ jnv s where
  call := fun s hs c shared op ops hcall hstarted =>
    ⟨h.call s hs.1 c shared op ops hcall hstarted, k.call s hs.2 c shared op ops hcall hstarted⟩
  act  := fun s hs i input a rest shared pushed hi hQ hact =>
    ⟨h.act s hs.1 i input a rest shared pushed hi hQ.1 hact, k.act s hs.2 i input a rest shared pushed hi hQ.2 hact⟩

theorem Preserves.step {Q : State σ α → Nat → ι → α → Prop} {inv : State σ α → Prop} (h : Preserves p Q inv)
    (s : State σ α) (e : Event ι κ) (hs : inv s) (hQ : AtAction Q s e) : inv (p.step s e) := by
  rcases step_cases (p := p) (s := s) e with hsame | ⟨c, shared, op, ops, hcall, hstarted, hstep⟩ |
      ⟨k, input, a, rest, shared, pushed, rfl, hk, hact, hstep⟩
  · rw [hsame]
    exact hs
  · rw [hstep]
    exact h.call s hs c shared op ops hcall hstarted
  · rw [hstep]
    simp only [AtAction, hk] at hQ
    exact h.act s hs k input a rest shared pushed hk hQ hact

/-- **What calls and actions preserve holds at the end of every run whose actions meet the condition.** -/
theorem Preserves.run {Q : State σ α → Nat → ι → α → Prop} {inv : State σ α → Prop} (h : Preserves p Q inv)
    (events : List (Event ι κ)) {s : State σ α} (hs : inv s) (hQ : Along p.step (AtAction Q) s events) :
    inv (events.foldl p.step s) := Run.foldl_inv h.step events hs hQ

end Program

end Interleaving
