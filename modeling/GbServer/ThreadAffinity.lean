import GbServer.GracefulShutdown
/-!
# ThreadAffinity — on which threads the activities of a worker run

What a frame of a worker runs is in progress while it stands in the list of a thread.  The thread of a worker is the one
that called its `OnStart`; worker `w` has the thread number `w`.

`run_affine` is about runs in which the final frame that `OnPhaseCompletingTimers` makes of a worker other than the main
one finds nothing to do.
-/
namespace Gb

open Run (Along)
open Threads Interleaving Tally

namespace AppAction

variable {n : Nat}

/-- An activity of a worker that is in progress. -/
def runs (w : Fin (n + 1)) : AppAction n → Nat
  | running v _ => if v = w then 1 else 0
  | _           => 0

/-- What the thread of a worker has to do, from `OnStart` on. -/
def serves (w : Fin (n + 1)) : AppAction n → Bool
  | onStart v      => v = w
  | loop v         => v = w
  | lastTask v     => v = w
  | timers v final => v = w ∧ final = false
  | drain v final  => v = w ∧ final = false
  | hook v _ final => v = w ∧ final = false
  | running v _    => v = w
  | _              => false

theorem serves_of_runs {w : Fin (n + 1)} {b : AppAction n} (h : b.runs w ≠ 0) : b.serves w = true := by
  cases b with
  | running v a =>
    have hv : v = w := by
      by_contra hne
      simp [runs, hne] at h
    simp [serves, hv]
  | _           => exact absurd rfl h

@[simp] theorem serves_action (w : Fin (n + 1)) (owed : Bool) (c : AppCall n) : (c.action owed).serves w = false := by
  cases c <;> rfl

@[simp] theorem runs_action (w : Fin (n + 1)) (owed : Bool) (c : AppCall n) : (c.action owed).runs w = 0 := by
  cases c <;> rfl

end AppAction

namespace GracefulShutdown

variable {n : Nat}

/-- The worker whose final frame finds a timer that is due, a task, or a logic with hooks. -/
def finalActivity (s : GracefulShutdown n) (input : AppInput n) : AppAction n → Option (Fin (n + 1))
  | .timers w true => if input.due then some w else none
  | .drain w true  => (s.workers w).events[input.index]?.map fun _ => w
  | .hook w _ true => if s.logic w then some w else none
  | _              => none

/-- The condition on a step.  The final frame of a worker other than the main one finds nothing to do. -/
def Idle (s : AppThreads n) (_ : Nat) (input : AppInput n) (a : AppAction n) : Prop :=
  ∀ w, s.shared.finalActivity input a = some w → w.val = 0

instance (s : AppThreads n) (k : Nat) (input : AppInput n) (a : AppAction n) : Decidable (Idle s k input a) :=
  inferInstanceAs (Decidable (∀ _, _ → _))

/-- What a worker other than the main one runs is on the thread of its own, and one at a time. -/
structure Affine (s : AppThreads n) : Prop where
  own : ∀ (w : Fin (n + 1)) a, w ≠ 0 → ∀ (k : Nat) (op : List (AppAction n)), s.ops[k]? = some op → .running w a ∈ op → k = w
  one : ∀ (w : Fin (n + 1)), w ≠ 0 → weight (AppAction.runs w) s.ops ≤ 1

/-- Behind what a worker's thread has to do for it, nothing of the worker is in progress. -/
def Alone (w : Fin (n + 1)) (op : List (AppAction n)) : Prop :=
  op.Pairwise fun b c => b.serves w = true → c.runs w = 0

/-- What the `k`th thread has to do is not for other workers. -/
structure Own (k : Nat) (op : List (AppAction n)) : Prop where
  own   : ∀ (w : Fin (n + 1)), w ≠ 0 → ∀ b ∈ op, b.serves w = true → k = w
  alone : ∀ (w : Fin (n + 1)), w ≠ 0 → Alone w op

theorem Alone.le_one {w : Fin (n + 1)} {op : List (AppAction n)} (h : Alone w op) : tally (AppAction.runs w) op ≤ 1 := by
  induction op with
  | nil          => simp
  | cons b op ih =>
    obtain ⟨hb, hop⟩ := List.pairwise_cons.1 h
    by_cases hzero : b.runs w = 0
    · have hrec := ih hop
      simp [hzero, hrec]
    · have hrest : tally (AppAction.runs w) op = 0 := by
        apply tally_eq_zero
        exact fun c hc => hb c hc (AppAction.serves_of_runs hzero)
      have hle : b.runs w ≤ 1 := by
        cases b <;> simp only [AppAction.runs] <;> first | omega | (split <;> omega)
      simp [hrest, hle]

theorem affine_of_own {s : AppThreads n} (h : ∀ (k : Nat) (op : List (AppAction n)), s.ops[k]? = some op → Own k op) :
    Affine s where
  own := fun w a hw k op hop ha => (h k op hop).own w hw _ ha (by simp [AppAction.serves])
  one := fun w hw => by
    have hunique : weight (AppAction.runs w) s.ops = ((s.ops[w.val]?).map (tally (AppAction.runs w))).getD 0 := by
      apply tally_eq_of_unique
      intro j op hop hj
      apply tally_eq_zero
      intro b hb
      by_contra hne
      exact hj ((h j op hop).own w hw b hb (AppAction.serves_of_runs hne))
    rw [hunique]
    cases hop : s.ops[w.val]? with
    | none    => simp
    | some op => exact ((h w op hop).alone w hw).le_one

variable {s : AppThreads n} {k : Nat} {input : AppInput n} {a : AppAction n} {shared : GracefulShutdown n}
  {rest pushed : List (AppAction n)} {w : Fin (n + 1)}

theorem alone_of_forall (h : ∀ b ∈ pushed, b.runs w = 0) : Alone w pushed := by
  apply List.Pairwise.imp_of_mem (R := fun _ _ => True)
  · exact fun _ hc _ _ => h _ hc
  · exact List.pairwise_of_forall fun _ _ => trivial

theorem quiet (h : ∀ b ∈ pushed, b.serves w = false) :
    (∀ b ∈ pushed, b.serves w = true → a.serves w = true) ∧ Alone w pushed := by
  constructor
  · intro b hb hserves
    rw [h b hb] at hserves
    cases hserves
  · apply alone_of_forall
    intro b hb
    by_contra hne
    have hserves := AppAction.serves_of_runs hne
    rw [h b hb] at hserves
    cases hserves

theorem quiet_all (h : pushed.all (fun b => !b.serves w) = true) :
    (∀ b ∈ pushed, b.serves w = true → a.serves w = true) ∧ Alone w pushed :=
  quiet fun b hb => by simpa using List.all_eq_true.1 h b hb

/-- A call that code of the application makes. -/
theorem quiet_action {owed : Bool} {c : AppCall n} {b : AppAction n} (h : b.serves w = false) :
    (∀ d ∈ [c.action owed, b], d.serves w = true → a.serves w = true) ∧ Alone w [c.action owed, b] := by
  apply quiet
  simp [h]

/-- The begin of an activity. -/
theorem begins {v : Fin (n + 1)} {b : Activity} (hv : v = w → a.serves w = true)
    (hpushed : ∀ c ∈ pushed, c.runs w = 0 ∧ (c.serves w = true → a.serves w = true)) :
    (∀ c ∈ .running v b :: pushed, c.serves w = true → a.serves w = true) ∧ Alone w (.running v b :: pushed) := by
  constructor
  · intro c hc
    rcases List.mem_cons.1 hc with rfl | hc
    · simpa [AppAction.serves] using hv
    · exact (hpushed c hc).2
  · exact List.pairwise_cons.2 ⟨fun c hc _ => (hpushed c hc).1, alone_of_forall fun c hc => (hpushed c hc).1⟩

theorem finished_cases {s : GracefulShutdown n} {v : Fin (n + 1)} {b : Activity} (h : s.finished v b = (shared, pushed)) :
    pushed = [] ∨ pushed = [.stop v, .setCleanedUp v] := by
  unfold finished at h
  split at h <;> cases h <;> simp

/-- What an action leaves for its thread to do: nothing for a worker that it was not for itself. -/
theorem act_own (hQ : Idle s k input a) (hact : s.shared.act input a = some (shared, pushed)) (hw : w ≠ 0) :
    (∀ b ∈ pushed, b.serves w = true → a.serves w = true) ∧ Alone w pushed := by
  cases a with
  | testShuttingDown v task | testRuning v task | shutdown | joinPool =>
    simp only [GracefulShutdown.act] at hact
    split at hact <;> cases hact <;> exact quiet_all rfl
  | execute id =>
    obtain ⟨r, _, heq⟩ := Option.map_eq_some_iff.1 hact
    cases heq
    exact quiet (by simp [AppAction.serves])
  | pool b =>
    simp only [GracefulShutdown.act] at hact
    split at hact
    · cases hact
      exact quiet_action rfl
    · obtain ⟨r, _, heq⟩ := Option.map_eq_some_iff.1 hact
      cases heq
      exact quiet (by simp [AppAction.serves])
  | loop v =>
    cases hact
    split
    · exact ⟨by simp [processFrame, AppAction.serves], by simp [Alone, processFrame, AppAction.runs]⟩
    · exact ⟨by simp [AppAction.serves], by simp [Alone]⟩
  | lastTask v =>
    simp only [GracefulShutdown.act] at hact
    split at hact
    · cases hact
      exact begins (by simp [AppAction.serves]) (by simp [AppAction.serves, AppAction.runs])
    · split at hact <;> cases hact
      exact quiet_all rfl
  -- what begins in a final frame is of the main worker
  | timers v final =>
    cases hact
    by_cases hdue : input.due = true
    · rw [if_pos hdue]
      apply begins
      · rintro rfl
        cases final with
        | false => simp [AppAction.serves]
        | true  => exact absurd (Fin.ext (hQ v (by simp [finalActivity, hdue]))) hw
      · simp [AppAction.runs]
    · rw [if_neg hdue]
      exact quiet_all rfl
  | drain v final =>
    simp only [GracefulShutdown.act] at hact
    split at hact
    · rename_i task htask
      cases hact
      apply begins
      · rintro rfl
        cases final with
        | false => simp [AppAction.serves]
        | true  => exact absurd (Fin.ext (hQ v (by simp [finalActivity, htask]))) hw
      · simp [AppAction.runs]
    · split at hact <;> cases hact
      exact quiet_all rfl
  | hook v b final =>
    cases hact
    by_cases hlogic : s.shared.logic v = true
    · rw [if_pos hlogic]
      apply begins
      · rintro rfl
        cases final with
        | false => simp [AppAction.serves]
        | true  => exact absurd (Fin.ext (hQ v (by simp [finalActivity, hlogic]))) hw
      · simp
    · rw [if_neg hlogic]
      exact quiet_all rfl
  | running v b =>
    simp only [GracefulShutdown.act] at hact
    split at hact
    · cases hact
      exact ⟨by simp, by simp [Alone]⟩
    · apply quiet
      rcases finished_cases (Option.some.inj hact) with rfl | rfl <;> simp [AppAction.serves]
  | appUpdate =>
    simp only [GracefulShutdown.act] at hact
    split at hact
    · cases hact
      exact quiet_action rfl
    · cases hact
      apply quiet
      split <;> simp [processFrame, AppAction.serves, Ne.symm hw]
  | finalFrame ws =>
    cases ws <;> cases hact <;> exact quiet (by simp [processFrame, AppAction.serves])
  | enterShutdownMode ws =>
    cases ws <;> cases hact <;> exact quiet_all rfl
  | readPending ws allEmpty =>
    cases ws with
    | nil       =>
      cases hact
      split <;> exact quiet_all rfl
    | cons v ws =>
      simp only [GracefulShutdown.act] at hact
      split at hact
      · cases hact
        exact quiet_all rfl
      · cases hact
        split <;> exact quiet_all rfl
  | appCleanup =>
    simp only [GracefulShutdown.act] at hact
    split at hact <;> cases hact
    · exact quiet_action rfl
    · exact quiet_all rfl
  | cleanupWorkers ws =>
    cases ws with
    | nil       =>
      cases hact
      exact quiet_all rfl
    | cons v ws =>
      cases hact
      split <;> exact quiet_all rfl
  | testCleanup v ws =>
    cases hact
    split <;> exact quiet_all rfl
  | awaitCleanup v ws =>
    simp only [GracefulShutdown.act] at hact
    split at hact
    · cases hact
      exact quiet_all rfl
    · split at hact <;> cases hact
      exact quiet_all rfl
  | mainLoop | stopPool | poll =>
    cases hact
    split <;> exact quiet_all rfl
  | onStart v =>
    cases hact
    exact ⟨by simp [AppAction.serves], by simp [Alone]⟩
  | _ =>
    cases hact
    exact quiet_all rfl

/-- Every thread has to do what is its own. -/
def Owned (s : AppThreads n) : Prop := ∀ (k : Nat) (op : List (AppAction n)), s.ops[k]? = some op → Own k op

theorem Owned.act (h : Owned s) (hk : s.ops[k]? = some (a :: rest)) (hQ : Idle s k input a)
    (hact : s.shared.act input a = some (shared, pushed)) : Owned ⟨shared, advance s.ops k pushed⟩ := by
  intro j op hop
  rcases getElem?_advance hk hop with ⟨rfl, rfl⟩ | ⟨_, hold⟩
  · have hold := h j _ hk
    constructor <;> intro w hw
    · intro b hb hserves
      rcases List.mem_append.1 hb with hb | hb
      · exact hold.own w hw a List.mem_cons_self ((act_own hQ hact hw).1 b hb hserves)
      · exact hold.own w hw b (List.mem_cons_of_mem a hb) hserves
    · obtain ⟨ha, hrest⟩ := List.pairwise_cons.1 (hold.alone w hw)
      obtain ⟨hpushed, halone⟩ := act_own hQ hact hw
      exact List.pairwise_append.2 ⟨halone, hrest, fun b hb c hc hserves => ha c hc (hpushed b hb hserves)⟩
  · exact h j op hold

theorem own_of_quiet (h : ∀ w, ∀ b ∈ rest, b.serves w = false) : Own k rest where
  own   := fun w _ b hb hserves => by
    rw [h w b hb] at hserves
    cases hserves
  alone := fun w _ => (quiet (a := .mainLoop) (h w)).2

theorem owned_preserves : Program.Preserves program Idle (Owned (n := n)) where
  call := fun s hs c shared op ops hcall hstarted => by
    cases hcall
    intro k o ho
    rcases hstarted.nth k o ho with hold | ⟨_, rfl⟩ | ⟨_, _, hcalls, _⟩
    · exact hs k o hold
    · exact own_of_quiet (by simp)
    · cases hcalls
  act  := fun _ hs _ _ _ _ _ _ hk hQ hact => hs.act hk hQ hact

variable (logic : Fin (n + 1) → Bool) (threads hardware : Nat)

theorem owned_init : Owned (init logic threads hardware) := by
  intro k op hop
  simp only [init, normalWorkers] at hop
  rw [List.getElem?_append] at hop
  split at hop
  · cases k with
    | zero   =>
      cases hop
      exact own_of_quiet (by simp [AppAction.serves])
    | succ k =>
      rw [List.getElem?_cons_succ, List.map_map, List.getElem?_map, Option.map_eq_some_iff] at hop
      obtain ⟨v, hv, rfl⟩ := hop
      obtain ⟨hlt, rfl⟩ := List.getElem?_eq_some_iff.1 hv
      constructor
      · intro w _ b hb hserves
        rw [List.mem_singleton.1 hb] at hserves
        simp [AppAction.serves] at hserves
        simp [← hserves]
      · intro w _
        simp [Alone]
  · rw [List.eq_of_mem_replicate (List.mem_of_getElem? hop)]
    exact own_of_quiet (by simp [AppAction.serves])

/-- **In every run in which the final frames of the other workers find nothing to do, tasks, timers and hooks of a worker
run on its own thread, one at a time.** -/
theorem run_affine (events : List (Event (AppInput n) (AppCall n)))
    (h : Along program.step (Program.AtAction Idle) (init logic threads hardware) events) :
    Affine (events.foldl program.step (init logic threads hardware)) :=
  affine_of_own (owned_preserves.run events (owned_init logic threads hardware) h)

/-- A whole shutdown, while a worker without logic runs a task. -/
def quietShutdown : List (Event (AppInput 1) (AppCall 1)) :=
  steps 1 1 ++ .call (.post (.last 1) 7) :: steps 3 3 ++ steps 1 3 ++ .call .stopApp :: steps 4 1 ++ steps 0 15 ++ steps 2 2 ++
    steps 0 13 ++ steps 1 5 ++ steps 0 3

theorem run_affine_quietShutdown : Affine (quietShutdown.foldl program.step (init (fun _ => false) 1 1)) ∧
    (quietShutdown.foldl program.step (init (fun _ => false) 1 1)).shared.cleaning = true :=
  ⟨run_affine (fun _ => false) 1 1 quietShutdown (by decide +kernel), by decide +kernel⟩

/-- The final frame runs the `OnUpdate` of a worker on the thread of the main loop, while the worker runs it on its own. -/
theorem not_run_affine : ¬∀ (n : Nat) (logic : Fin (n + 1) → Bool) (threads hardware : Nat)
    (events : List (Event (AppInput n) (AppCall n))),
    Affine (events.foldl program.step (init logic threads hardware)) := by
  intro h
  have hone := (h 1 (fun _ => true) 1 1 (steps 1 5 ++ .call .stopApp :: steps 3 1 ++ steps 0 13)).one 1 (by decide)
  exact absurd hone (by decide)

end GracefulShutdown
end Gb
