import GbServer.Lib.Interleaving
import GbServer.Worker
import Mathlib.Data.List.Perm.Subperm
/-!
# WorkerTasks — tasks posted to one worker

A `Worker` that `CreateWorker` has returned: its thread is still to call `OnStart` and `Run` (`worker.cpp`), and any
threads call `Post`, `Stop` and `EnterShutdownMode`, as do its tasks.  `EnqueueTask` reads the two flags and puts the task
in, one step each.  A frame takes tasks until there are none, and so does `Run` once the worker is stopped, where it ends
when it finds none.

`asked` is whether `Stop` or `EnterShutdownMode` has been called, `owed` the tasks whose `Post` returned before that,
`accepted` those that came into the queue, `executed` those that have returned.

`run_accepted` is about runs in which no `Post` finds the worker not started, and no task comes behind the last look of
`Run`.  From every state of such a run the thread of the worker, by its own steps, comes to have executed all that was in
the queue, whichever tasks it finds first.
-/
namespace Gb

open Run (Along)
open Threads Interleaving Tally

structure WorkerTasks (τ : Type) where
  worker   : Worker τ := {}
  asked    : Bool := false
  owed     : List τ := []
  accepted : List τ := []
  executed : List τ := []

inductive WorkerAction (τ : Type)
  | testShuttingDown (task : τ)
  | testRuning (task : τ)
  | enqueue (task : τ)
  | stop
  | enterShutdownMode
  | onStart
  | loop
  | frame
  | last
  | run (task : τ) (inFrame : Bool)
  deriving DecidableEq

inductive WorkerCall (τ : Type)
  | post (task : τ)
  | stop
  | enterShutdownMode

namespace WorkerTasks

variable {τ : Type} (s : WorkerTasks τ)

/-- `Post` returns. -/
def posted (task : τ) : WorkerTasks τ := if s.asked then s else { s with owed := s.owed ++ [task] }

def takeEvent (index : Nat) : WorkerTasks τ :=
  { s with worker := { s.worker with events := s.worker.events.eraseIdx index } }

/-- The input of a step is the place in the queue of the task that `try_dequeue` finds. -/
def act (index : Nat) : WorkerAction τ → Option (WorkerTasks τ × List (WorkerAction τ))
  | .testShuttingDown task => if s.worker.shuttingDown then some (s.posted task, []) else some (s, [.testRuning task])
  | .testRuning task       => if s.worker.runing then some (s, [.enqueue task]) else some (s.posted task, [])
  | .enqueue task          =>
    some ({ s with worker := s.worker.enqueue task, accepted := s.accepted ++ [task] }.posted task, [])
  | .stop                  => some ({ s with worker := s.worker.stop }, [])
  | .enterShutdownMode     => some ({ s with worker := s.worker.enterShutdownMode }, [])
  | .onStart               => some ({ s with worker := s.worker.onStart }, [.loop])
  | .loop                  => some (s, [if s.worker.runing then .frame else .last])
  | .frame                 =>
    match s.worker.events[index]? with
    | some task => some (s.takeEvent index, [.run task true])
    | none      => if s.worker.events = [] then some (s, [.loop]) else none
  | .last                  =>
    match s.worker.events[index]? with
    | some task => some (s.takeEvent index, [.run task false])
    | none      => if s.worker.events = [] then some ({ s with worker := { s.worker with exited := true } }, []) else none
  | .run task inFrame      => some ({ s with executed := s.executed ++ [task] }, [if inFrame then .frame else .loop])

def call : WorkerCall τ → Option (WorkerTasks τ × List (WorkerAction τ))
  | .post task         => some (s, [.testShuttingDown task])
  | .stop              => some ({ s with asked := true }, [.stop])
  | .enterShutdownMode => some ({ s with asked := true }, [.enterShutdownMode])

/-- Tasks call the worker. -/
def calls : WorkerAction τ → Bool
  | .run _ _ => true
  | _        => false

def program : Program (WorkerTasks τ) Nat (WorkerCall τ) (WorkerAction τ) := ⟨act, call, calls⟩

/-- After `CreateWorker`. -/
def init : State (WorkerTasks τ) (WorkerAction τ) := ⟨{}, [[.onStart]]⟩

end WorkerTasks

namespace WorkerAction

variable {τ : Type}

/-- The thread of the worker has one such action at a time, until it leaves `Run`. -/
def serves : WorkerAction τ → Nat
  | onStart => 1
  | loop    => 1
  | frame   => 1
  | last    => 1
  | run _ _ => 1
  | _       => 0

/-- How often an action carries a task that was taken from the queue and has not run. -/
def carries [DecidableEq τ] (t : τ) : WorkerAction τ → Nat
  | run task _ => [task].count t
  | _          => 0

/-- What is left of an action, where a task in the queue is worth four. -/
def remaining : WorkerAction τ → Nat
  | testShuttingDown _ => 7
  | testRuning _       => 6
  | enqueue _          => 5
  | stop               => 1
  | enterShutdownMode  => 1
  | onStart            => 2
  | loop               => 1
  | frame              => 0
  | last               => 0
  | run _ _            => 2

theorem serves_eq (b : WorkerAction τ) : b.serves = 0 ∨ b.serves = 1 := by
  cases b <;> simp [serves]

theorem serves_of_carries [DecidableEq τ] {t : τ} {b : WorkerAction τ} (h : 0 < b.carries t) : b.serves = 1 := by
  cases b with
  | run task inFrame => rfl
  | _                => exact absurd h (Nat.lt_irrefl 0)

end WorkerAction

abbrev WorkerThreads (τ : Type) := State (WorkerTasks τ) (WorkerAction τ)

namespace WorkerTasks

variable {τ : Type}

/-- The condition on a step.  Before `Stop` or `EnterShutdownMode` is called, no `Post` finds that `OnStart` has not set
`runing_`; and no `Post` puts its task in when `Run` has ended. -/
def Timely (s : WorkerThreads τ) (_ : Nat) (_ : Nat) : WorkerAction τ → Prop
  | .testRuning _ => s.shared.worker.runing = false → s.shared.asked = true
  | .enqueue _    => s.shared.worker.exited = false
  | _             => True

instance (s : WorkerThreads τ) (k index : Nat) : (a : WorkerAction τ) → Decidable (Timely s k index a)
  | .testRuning _       => inferInstanceAs (Decidable (_ → _))
  | .enqueue _          => inferInstanceAs (Decidable (_ = _))
  | .testShuttingDown _ => isTrue trivial
  | .stop               => isTrue trivial
  | .enterShutdownMode  => isTrue trivial
  | .onStart            => isTrue trivial
  | .loop               => isTrue trivial
  | .frame              => isTrue trivial
  | .last               => isTrue trivial
  | .run _ _            => isTrue trivial

variable {s : WorkerThreads τ} {shared : WorkerTasks τ} {ops : List (List (WorkerAction τ))} {k index : Nat}
  {a : WorkerAction τ} {rest pushed : List (WorkerAction τ)}

theorem posted_cases (s : WorkerTasks τ) (task : τ) :
    (s.asked = true ∧ s.posted task = s) ∨ (s.asked = false ∧ s.posted task = { s with owed := s.owed ++ [task] }) := by
  unfold posted
  by_cases hasked : s.asked = true
  · rw [if_pos hasked]
    exact .inl ⟨hasked, rfl⟩
  · rw [if_neg hasked]
    exact .inr ⟨Bool.eq_false_iff.2 hasked, rfl⟩

@[simp] theorem worker_posted (s : WorkerTasks τ) (task : τ) : (s.posted task).worker = s.worker := by
  unfold posted
  split <;> rfl

@[simp] theorem asked_posted (s : WorkerTasks τ) (task : τ) : (s.posted task).asked = s.asked := by
  unfold posted
  split <;> rfl

@[simp] theorem accepted_posted (s : WorkerTasks τ) (task : τ) : (s.posted task).accepted = s.accepted := by
  unfold posted
  split <;> rfl

@[simp] theorem executed_posted (s : WorkerTasks τ) (task : τ) : (s.posted task).executed = s.executed := by
  unfold posted
  split <;> rfl

/-- What `try_dequeue` does with the queue. -/
theorem take_cases {s : WorkerTasks τ} {found : τ → WorkerAction τ} {empty r : WorkerTasks τ × List (WorkerAction τ)}
    (h : (match s.worker.events[index]? with
      | some task => some (s.takeEvent index, [found task])
      | none      => if s.worker.events = [] then some empty else none) = some r) :
    (∃ task, s.worker.events[index]? = some task ∧ r = (s.takeEvent index, [found task])) ∨
      (s.worker.events = [] ∧ r = empty) := by
  cases hindex : s.worker.events[index]? with
  | some task =>
    rw [hindex] at h
    exact .inl ⟨task, rfl, (Option.some.inj h).symm⟩
  | none      =>
    rw [hindex] at h
    dsimp only at h
    by_cases hempty : s.worker.events = []
    · rw [if_pos hempty] at h
      exact .inr ⟨hempty, (Option.some.inj h).symm⟩
    · rw [if_neg hempty] at h
      cases h

/-! ## The thread of the worker -/

/-- What its task calls the thread of the worker has to do, and then one action of its own. -/
def Working (ops : List (List (WorkerAction τ))) : Prop :=
  ∃ calls a, ops[0]? = some (calls ++ [a]) ∧ a.serves = 1 ∧ ∀ b ∈ calls, b.serves = 0

/-- There is one thread of the worker until `Run` ends, and then no task is left. -/
structure Served (s : WorkerThreads τ) : Prop where
  serves  : weight WorkerAction.serves s.ops = if s.shared.worker.exited then 0 else 1
  working : s.shared.worker.exited = false → Working s.ops
  empty   : s.shared.worker.exited = true → s.shared.worker.events = []
  mode    : s.shared.worker.shuttingDown = true ∨ Has s.ops .enterShutdownMode → s.shared.asked = true

/-- What is called has nothing of the worker's own. -/
theorem call_serves {c : WorkerCall τ} {s : WorkerTasks τ} {op : List (WorkerAction τ)} (hcall : s.call c = some (shared, op)) :
    ∀ b ∈ op, b.serves = 0 := by
  cases c <;> cases hcall <;> simp [WorkerAction.serves]

theorem Working.call (h : Working s.ops) {c : WorkerCall τ} {op : List (WorkerAction τ)}
    (hcall : s.shared.call c = some (shared, op)) (hstarted : program.Started op s.ops ops) : Working ops := by
  obtain ⟨calls, a, hop, ha, hcalls⟩ := h
  rcases hstarted.of_getElem? hop with hsame | ⟨b, rest, hb, heq, hnew⟩
  · exact ⟨calls, a, hsame, ha, hcalls⟩
  · -- the task is what the thread is at, so it calls nothing else
    cases calls with
    | nil        =>
      obtain ⟨rfl, rfl⟩ := List.cons.inj heq
      exact ⟨op, a, hnew, ha, call_serves hcall⟩
    | cons c calls =>
      obtain ⟨rfl, -⟩ := List.cons.inj heq
      have hzero := hcalls c List.mem_cons_self
      cases c <;> cases hb
      cases hzero

/-- A step of a thread, which puts one action in place of another of its kind, or nothing in place of a call. -/
theorem Working.advance (h : Working s.ops) (hk : s.ops[k]? = some (a :: rest)) (hone : pushed.length ≤ 1)
    (hserves : a.serves = tally WorkerAction.serves pushed) : Working (advance s.ops k pushed) := by
  have hpushed : (a.serves = 0 ∧ ∀ b ∈ pushed, b.serves = 0) ∨ (a.serves = 1 ∧ ∃ b, pushed = [b] ∧ b.serves = 1) := by
    match pushed with
    | []  => exact .inl ⟨hserves, by simp⟩
    | [b] =>
      simp only [tally_cons, tally_nil, Nat.add_zero] at hserves
      rcases a.serves_eq with ha | ha
      · exact .inl ⟨ha, by simp [← hserves, ha]⟩
      · exact .inr ⟨ha, b, rfl, by omega⟩
  obtain ⟨calls, own, hop, hown, hcalls⟩ := h
  by_cases hzero : k = 0
  · subst hzero
    have heq := Option.some.inj (hop.symm.trans hk)
    have hself := getElem?_advance_self hk pushed
    rcases hpushed with ⟨ha, hpushed⟩ | ⟨ha, b, rfl, hb⟩
    · cases calls with
      | nil          =>
        obtain ⟨rfl, -⟩ := List.cons.inj heq
        omega
      | cons c calls =>
        obtain ⟨rfl, rfl⟩ := List.cons.inj heq
        refine ⟨pushed ++ calls, own, by simpa using hself, hown, fun b hb => ?_⟩
        rcases List.mem_append.1 hb with hb | hb
        · exact hpushed b hb
        · exact hcalls b (List.mem_cons_of_mem _ hb)
    · cases calls with
      | nil          =>
        obtain ⟨rfl, rfl⟩ := List.cons.inj heq
        exact ⟨[], b, hself, hb, fun _ hmem => absurd hmem List.not_mem_nil⟩
      | cons c calls =>
        obtain ⟨rfl, -⟩ := List.cons.inj heq
        have hnone := hcalls c List.mem_cons_self
        omega
  · refine ⟨calls, own, ?_, hown, hcalls⟩
    rw [getElem?_advance_of_ne (Ne.symm hzero)]
    exact hop

theorem Served.call (h : Served s) {c : WorkerCall τ} {op : List (WorkerAction τ)}
    (hcall : s.shared.call c = some (shared, op)) (hstarted : program.Started op s.ops ops) : Served ⟨shared, ops⟩ := by
  have hserves := hstarted.weight WorkerAction.serves
  have hmode : Has ops .enterShutdownMode → .enterShutdownMode ∈ op ∨ Has s.ops .enterShutdownMode :=
    fun hhas => has_cons.1 ((hstarted.has _).1 hhas)
  have hworking : s.shared.worker.exited = false → Working ops := fun hnot => (h.working hnot).call hcall hstarted
  cases c with
  | post task         =>
    cases hcall
    exact ⟨hserves.trans (by simpa [WorkerAction.serves] using h.serves), hworking, h.empty,
      fun hm => h.mode (hm.imp_right fun hhas => (hmode hhas).resolve_left (by simp))⟩
  | stop              =>
    cases hcall
    exact ⟨hserves.trans (by simpa [WorkerAction.serves] using h.serves), hworking, h.empty, fun _ => rfl⟩
  | enterShutdownMode =>
    cases hcall
    exact ⟨hserves.trans (by simpa [WorkerAction.serves] using h.serves), hworking, h.empty, fun _ => rfl⟩

/-- What leaves the end of `Run` and the mode alone. -/
theorem Served.of_same (h : Served s) (hk : s.ops[k]? = some (a :: rest))
    (hexited : shared.worker.exited = s.shared.worker.exited)
    (hserves : a.serves = tally WorkerAction.serves pushed)
    (hempty : s.shared.worker.exited = true → s.shared.worker.events = [] → shared.worker.events = [])
    (hmode : shared.worker.shuttingDown = true → s.shared.worker.shuttingDown = true ∨ Has s.ops .enterShutdownMode)
    (hasked : shared.asked = s.shared.asked) (hpushed : .enterShutdownMode ∉ pushed) (hone : pushed.length ≤ 1) :
    Served ⟨shared, advance s.ops k pushed⟩ := by
  have hweight := weight_advance WorkerAction.serves pushed hk
  refine ⟨?_, fun hx => (h.working (hexited ▸ hx)).advance hk hone hserves,
    fun hx => hempty (hexited ▸ hx) (h.empty (hexited ▸ hx)), fun hm => ?_⟩
  · have hbefore := h.serves
    dsimp only
    rw [hexited, ← hbefore]
    omega
  · dsimp only
    rw [hasked]
    apply h.mode
    rcases hm with hm | hm
    · exact hmode hm
    · exact .inr (((has_advance hk).1 hm).resolve_left hpushed).of_advance

theorem Served.not_exited (h : Served s) (hk : s.ops[k]? = some (a :: rest)) (ha : a.serves = 1) :
    s.shared.worker.exited = false := by
  have hle := le_weight WorkerAction.serves (has_of_getElem? hk)
  have hserves := h.serves
  by_cases hexited : s.shared.worker.exited = true
  · rw [if_pos hexited] at hserves
    omega
  · exact Bool.eq_false_iff.2 hexited

theorem Served.act (h : Served s) (hk : s.ops[k]? = some (a :: rest)) (hQ : Timely s k index a)
    (hact : s.shared.act index a = some (shared, pushed)) : Served ⟨shared, advance s.ops k pushed⟩ := by
  cases a with
  | testShuttingDown task | testRuning task =>
    simp only [WorkerTasks.act] at hact
    split at hact <;> cases hact <;>
      exact h.of_same hk (by simp) rfl (by simp) (by simp +contextual) (by simp) (by simp) (by simp)
  | enqueue task =>
    cases hact
    refine h.of_same hk (by simp [Worker.enqueue]) rfl (fun hexited => ?_) (by simp +contextual [Worker.enqueue]) (by simp) (by simp)
      (by simp)
    rw [show s.shared.worker.exited = false from hQ] at hexited
    cases hexited
  | stop =>
    cases hact
    exact h.of_same hk rfl rfl (fun _ hempty => hempty) .inl rfl (by simp) (by simp)
  | enterShutdownMode =>
    cases hact
    exact h.of_same hk rfl rfl (fun _ hempty => hempty) (fun _ => .inr (has_of_getElem? hk)) rfl (by simp) (by simp)
  | onStart =>
    cases hact
    exact h.of_same hk rfl rfl (fun _ hempty => hempty) .inl rfl (by simp) (by simp)
  | loop =>
    cases hact
    cases hrunning : s.shared.worker.runing <;>
      exact h.of_same hk rfl rfl (fun _ hempty => hempty) .inl rfl (by simp) (by simp)
  | frame =>
    have hnot := h.not_exited hk rfl
    rcases take_cases hact with ⟨task, _, heq⟩ | ⟨_, heq⟩
    all_goals
      cases heq
      refine h.of_same hk rfl rfl (fun hexited => ?_) .inl rfl (by simp) (by simp)
      rw [hnot] at hexited
      cases hexited
  | last =>
    have hnot := h.not_exited hk rfl
    rcases take_cases hact with ⟨task, _, heq⟩ | ⟨hempty, heq⟩
    · cases heq
      refine h.of_same hk rfl rfl (fun hexited => ?_) .inl rfl (by simp) (by simp)
      rw [hnot] at hexited
      cases hexited
    · cases heq
      have hweight := weight_advance WorkerAction.serves [] hk
      have hserves := h.serves
      rw [hnot, if_neg Bool.false_ne_true] at hserves
      simp only [WorkerAction.serves, tally_nil] at hweight
      refine ⟨?_, fun hexited => (nomatch hexited), fun _ => hempty, fun hm => h.mode (hm.imp_right Has.of_advance)⟩
      dsimp only
      rw [if_pos rfl]
      omega
  | run task inFrame =>
    cases hact
    cases inFrame <;> exact h.of_same hk rfl rfl (fun _ hempty => hempty) .inl rfl (by simp) (by simp)

/-! ## Tasks -/

variable [DecidableEq τ]

/-- A task that came into the queue is there, in hand, or has run. -/
def Counted (s : WorkerThreads τ) : Prop := ∀ t, s.shared.accepted.count t =
  s.shared.executed.count t + s.shared.worker.events.count t + weight (WorkerAction.carries t) s.ops

/-- And a task whose `Post` returned in time came in. -/
structure Held (s : WorkerThreads τ) : Prop where
  counted : Counted s
  owed    : ∀ t, s.shared.owed.count t ≤ s.shared.accepted.count t

omit [DecidableEq τ] in
/-- A call takes and puts nothing yet. -/
theorem call_same {c : WorkerCall τ} {s : WorkerTasks τ} {op : List (WorkerAction τ)} (hcall : s.call c = some (shared, op)) :
    shared.accepted = s.accepted ∧ shared.executed = s.executed ∧ shared.worker = s.worker ∧ shared.owed = s.owed := by
  cases c <;> cases hcall <;> exact ⟨rfl, rfl, rfl, rfl⟩

theorem Counted.call (h : Counted s) {c : WorkerCall τ} {op : List (WorkerAction τ)}
    (hcall : s.shared.call c = some (shared, op)) (hstarted : program.Started op s.ops ops) : Counted ⟨shared, ops⟩ := by
  obtain ⟨haccepted, hexecuted, hworker, -⟩ := call_same hcall
  intro t
  have hop : tally (WorkerAction.carries t) op = 0 := by
    cases c <;> cases hcall <;> rfl
  have hweight := hstarted.weight (WorkerAction.carries t)
  rw [weight_cons, hop, Nat.zero_add] at hweight
  dsimp only
  rw [haccepted, hexecuted, hworker, hweight]
  exact h t

/-- Where an action takes a task, and where it puts it. -/
theorem moved (hact : s.shared.act index a = some (shared, pushed)) (t : τ) :
    shared.accepted.count t + (s.shared.executed.count t + s.shared.worker.events.count t + a.carries t) =
      s.shared.accepted.count t +
        (shared.executed.count t + shared.worker.events.count t + tally (WorkerAction.carries t) pushed) := by
  cases a with
  | testShuttingDown task | testRuning task =>
    simp only [WorkerTasks.act] at hact
    split at hact <;> cases hact <;> simp [WorkerAction.carries]
  | enqueue task =>
    cases hact
    simp [Worker.enqueue, WorkerAction.carries]
    omega
  | frame | last =>
    rcases take_cases hact with ⟨task, htask, heq⟩ | ⟨_, heq⟩
    · cases heq
      have ht := count_eraseIdx t htask
      simp only [WorkerAction.carries, takeEvent, tally_cons, tally_nil]
      omega
    · cases heq
      rfl
  | run task inFrame =>
    cases hact
    cases inFrame <;> simp [WorkerAction.carries] <;> omega
  | loop =>
    cases hact
    split <;> rfl
  | _ =>
    cases hact
    rfl

theorem accepted_le (hact : s.shared.act index a = some (shared, pushed)) (t : τ) :
    s.shared.accepted.count t ≤ shared.accepted.count t := by
  cases a with
  | testShuttingDown task | testRuning task =>
    simp only [WorkerTasks.act] at hact
    split at hact <;> cases hact <;> simp
  | enqueue task =>
    cases hact
    simp
  | frame | last =>
    rcases take_cases hact with ⟨task, _, heq⟩ | ⟨_, heq⟩
    all_goals
      cases heq
      exact Nat.le_refl _
  | _ =>
    cases hact
    exact Nat.le_refl _

theorem Counted.act (h : Counted s) (hk : s.ops[k]? = some (a :: rest))
    (hact : s.shared.act index a = some (shared, pushed)) : Counted ⟨shared, Threads.advance s.ops k pushed⟩ := by
  intro t
  have hweight := weight_advance (WorkerAction.carries t) pushed hk
  have hbefore := h t
  have hmove := moved hact t
  dsimp only
  omega

/-- A task that comes in is owed only if its `Post` does not return refused. -/
theorem owed_le (hserved : Served s) (hQ : Timely s k index a) (hact : s.shared.act index a = some (shared, pushed)) (t : τ) :
    shared.owed.count t + s.shared.accepted.count t ≤ s.shared.owed.count t + shared.accepted.count t := by
  -- who refuses a task has been asked to stop
  have hrefused : ∀ task, s.shared.asked = true → (s.shared.posted task) = s.shared := fun task hasked => by
    rcases posted_cases s.shared task with ⟨_, heq⟩ | ⟨hnot, _⟩
    · exact heq
    · rw [hasked] at hnot
      cases hnot
  cases a with
  | testShuttingDown task =>
    simp only [WorkerTasks.act] at hact
    split at hact
    · rename_i hmode
      rw [hrefused task (hserved.mode (.inl hmode))] at hact
      cases hact
      exact Nat.le_refl _
    · cases hact
      exact Nat.le_refl _
  | testRuning task =>
    simp only [WorkerTasks.act] at hact
    split at hact
    · cases hact
      exact Nat.le_refl _
    · rename_i hnot
      rw [hrefused task (hQ (Bool.eq_false_iff.2 hnot))] at hact
      cases hact
      exact Nat.le_refl _
  | enqueue task =>
    cases hact
    rcases posted_cases { s.shared with
        worker := s.shared.worker.enqueue task, accepted := s.shared.accepted ++ [task] } task with ⟨_, heq⟩ | ⟨_, heq⟩
    · rw [heq]
      simp
    · rw [heq]
      simp
      omega
  | frame | last =>
    rcases take_cases hact with ⟨task, _, heq⟩ | ⟨_, heq⟩
    all_goals
      cases heq
      exact Nat.le_refl _
  | _ =>
    cases hact
    exact Nat.le_refl _

theorem Held.call (h : Held s) {c : WorkerCall τ} {op : List (WorkerAction τ)}
    (hcall : s.shared.call c = some (shared, op)) (hstarted : program.Started op s.ops ops) : Held ⟨shared, ops⟩ where
  counted := h.counted.call hcall hstarted
  owed    := fun t => by
    obtain ⟨haccepted, -, -, howed⟩ := call_same hcall
    dsimp only
    rw [haccepted, howed]
    exact h.owed t

theorem Held.act (h : Held s) (hserved : Served s) (hk : s.ops[k]? = some (a :: rest)) (hQ : Timely s k index a)
    (hact : s.shared.act index a = some (shared, pushed)) : Held ⟨shared, Threads.advance s.ops k pushed⟩ where
  counted := h.counted.act hk hact
  owed    := fun t => by
    have hbefore := h.owed t
    have hmore := owed_le hserved hQ hact t
    dsimp only
    omega

/-! ## The worker's own steps -/

/-- After `n` steps of the thread of the worker, of which the `i`th finds the task at place `choice i`. -/
def runAlone (s : WorkerThreads τ) (choice : Nat → Nat) : Nat → WorkerThreads τ :=
  Run.after program.step s fun n => .step 0 (choice n)

/-- `try_dequeue` finds a task if there is one. -/
def Finds (s : WorkerThreads τ) (choice : Nat → Nat) : Prop := ∀ n, (runAlone s choice n).shared.worker.events ≠ [] →
  choice n < (runAlone s choice n).shared.worker.events.length

omit [DecidableEq τ] in
theorem length_takeEvent {s : WorkerTasks τ} (h : index < s.worker.events.length) :
    (s.takeEvent index).worker.events.length + 1 = s.worker.events.length := by
  rw [takeEvent, List.length_eraseIdx_of_lt h]
  omega

omit [DecidableEq τ] in
/-- What the thread of the worker comes to do it does, unless there is nothing to do. -/
theorem act_progress {s : WorkerTasks τ} (hbusy : a.serves = 0 ∨ (∃ task inFrame, a = .run task inFrame) ∨ s.worker.events ≠ [])
    (hindex : s.worker.events ≠ [] → index < s.worker.events.length) :
    ∃ shared pushed, s.act index a = some (shared, pushed) ∧ pushed.length ≤ 1 ∧ a.serves = tally WorkerAction.serves pushed ∧
      tally WorkerAction.remaining pushed + 4 * shared.worker.events.length < a.remaining + 4 * s.worker.events.length := by
  cases a with
  | testShuttingDown task =>
    by_cases hmode : s.worker.shuttingDown = true
    · exact ⟨_, _, if_pos hmode, by simp, rfl, by simp [WorkerAction.remaining]⟩
    · exact ⟨_, _, if_neg hmode, by simp, rfl, by simp [WorkerAction.remaining]⟩
  | testRuning task =>
    by_cases hrunning : s.worker.runing = true
    · exact ⟨_, _, if_pos hrunning, by simp, rfl, by simp [WorkerAction.remaining]⟩
    · exact ⟨_, _, if_neg hrunning, by simp, rfl, by simp [WorkerAction.remaining]⟩
  | enqueue task => exact ⟨_, _, rfl, by simp, rfl, by simp [WorkerAction.remaining, Worker.enqueue]; omega⟩
  | stop => exact ⟨_, _, rfl, by simp, rfl, by simp [WorkerAction.remaining, Worker.stop]⟩
  | enterShutdownMode => exact ⟨_, _, rfl, by simp, rfl, by simp [WorkerAction.remaining, Worker.enterShutdownMode]⟩
  | onStart => exact ⟨_, _, rfl, by simp, rfl, by simp [WorkerAction.remaining, Worker.onStart]⟩
  | loop =>
    cases hrunning : s.worker.runing
    · exact ⟨s, [.last], by simp [WorkerTasks.act, hrunning], by simp, rfl, by simp [WorkerAction.remaining]⟩
    · exact ⟨s, [.frame], by simp [WorkerTasks.act, hrunning], by simp, rfl, by simp [WorkerAction.remaining]⟩
  | frame =>
    have hlt := hindex (by simpa [WorkerAction.serves] using hbusy)
    have hlength := length_takeEvent hlt
    refine ⟨s.takeEvent index, [.run s.worker.events[index] true], by simp only [WorkerTasks.act, List.getElem?_eq_getElem hlt],
      by simp, rfl, ?_⟩
    simp only [WorkerAction.remaining, tally_cons, tally_nil]
    omega
  | last =>
    have hlt := hindex (by simpa [WorkerAction.serves] using hbusy)
    have hlength := length_takeEvent hlt
    refine ⟨s.takeEvent index, [.run s.worker.events[index] false], by simp only [WorkerTasks.act, List.getElem?_eq_getElem hlt],
      by simp, rfl, ?_⟩
    simp only [WorkerAction.remaining, tally_cons, tally_nil]
    omega
  | run task inFrame => cases inFrame <;> exact ⟨_, _, rfl, by simp, rfl, by simp [WorkerAction.remaining]⟩

/-- Nothing is queued, and the thread of the worker has no task in hand. -/
def Idle (s : WorkerThreads τ) : Prop :=
  s.shared.worker.events = [] ∧ ∃ a, s.ops[0]? = some [a] ∧ a.serves = 1 ∧ ∀ task inFrame, a ≠ .run task inFrame

/-- What the thread of the worker has left to do. -/
def remaining (s : WorkerThreads τ) : Nat :=
  tally WorkerAction.remaining (s.ops[0]?.getD []) + 4 * s.shared.worker.events.length

omit [DecidableEq τ] in
/-- **A step of the worker's thread leaves it less to do, as long as there is something.** -/
theorem Working.step (h : Working s.ops) (hserves : weight WorkerAction.serves s.ops = 1) (hbusy : ¬Idle s)
    (hindex : s.shared.worker.events ≠ [] → index < s.shared.worker.events.length) :
    Working (program.step s (.step 0 index)).ops ∧ weight WorkerAction.serves (program.step s (.step 0 index)).ops = 1 ∧
      remaining (program.step s (.step 0 index)) < remaining s := by
  obtain ⟨a, rest, hk, hdoes⟩ : ∃ a rest, s.ops[0]? = some (a :: rest) ∧
      (a.serves = 0 ∨ (∃ task inFrame, a = .run task inFrame) ∨ s.shared.worker.events ≠ []) := by
    obtain ⟨calls, own, hop, hown, hcalls⟩ := h
    cases calls with
    | nil          =>
      refine ⟨own, [], hop, ?_⟩
      by_contra hnot
      simp only [not_or, not_exists, ne_eq, not_not] at hnot
      exact hbusy ⟨hnot.2.2, own, hop, hown, hnot.2.1⟩
    | cons c calls => exact ⟨c, calls ++ [own], hop, .inl (hcalls c List.mem_cons_self)⟩
  obtain ⟨shared, pushed, hact, hone, hkind, hless⟩ := act_progress hdoes hindex
  have hstep : program.step s (.step 0 index) = ⟨shared, Threads.advance s.ops 0 pushed⟩ := by
    simp [Program.step, hk, program, hact]
  have hweight := weight_advance WorkerAction.serves pushed hk
  rw [hstep]
  refine ⟨h.advance hk hone hkind, by dsimp only; omega, ?_⟩
  simp only [remaining, getElem?_advance_self hk pushed, hk, Option.getD_some, tally_append, tally_cons]
  omega

/-- Who is idle has executed what came in. -/
theorem Counted.executed (h : Counted s) (hserves : weight WorkerAction.serves s.ops = 1) (hidle : Idle s) (t : τ) :
    s.shared.executed.count t = s.shared.accepted.count t := by
  obtain ⟨hempty, own, hop, hown, hrun⟩ := hidle
  have hnone : weight (WorkerAction.carries t) s.ops = 0 := by
    apply weight_eq_zero
    intro b hb
    by_contra hne
    -- nobody but the worker's thread has a task in hand
    have hserve := WorkerAction.serves_of_carries (Nat.pos_of_ne_zero hne)
    rcases (has_iff hop).1 hb with rfl | hothers
    · cases b with
      | run task inFrame => exact hrun task inFrame rfl
      | _                => exact hne rfl
    · have hzero := Threads.alone (w := WorkerAction.serves) hop (by omega) hothers
      omega
  have hcount := h t
  rw [hempty, hnone] at hcount
  simpa using hcount.symm

theorem counted_preserves : Program.Preserves program (fun _ _ _ _ => True) fun s : WorkerThreads τ => Counted s where
  call := fun _ hs _ _ _ _ hcall hstarted => hs.call hcall hstarted
  act  := fun _ hs _ _ _ _ _ _ hk _ hact => hs.act hk hact

/-- What has come into the queue stays among what came in. -/
theorem accepted_step (t : τ) (s : WorkerThreads τ) (e : Event Nat (WorkerCall τ)) :
    s.shared.accepted.count t ≤ (program.step s e).shared.accepted.count t := by
  rcases Program.step_cases (p := program) (s := s) e with hsame | ⟨c, shared, op, ops, hcall, -, hstep⟩ |
      ⟨k, input, a, rest, shared, pushed, rfl, -, hact, hstep⟩
  · rw [hsame]
  · rw [hstep]
    dsimp only
    rw [(call_same hcall).1]
  · rw [hstep]
    exact accepted_le hact t

/-- When `Run` has ended, what came in has been executed. -/
theorem Held.executed (h : Held s) (hserved : Served s) (hexited : s.shared.worker.exited = true) :
    s.shared.executed.Perm s.shared.accepted := by
  refine List.perm_iff_count.2 fun t => ?_
  have hnone : weight (WorkerAction.carries t) s.ops = 0 := by
    apply weight_eq_zero
    intro b hb
    by_contra hne
    have hle := le_weight WorkerAction.serves hb
    rw [WorkerAction.serves_of_carries (Nat.pos_of_ne_zero hne), hserved.serves, if_pos hexited] at hle
    omega
  have hcount := h.counted t
  rw [hnone, hserved.empty hexited] at hcount
  exact hcount.symm

/-- **The worker's thread, by its own steps, executes what has come in.** -/
theorem Held.progress (h : Held s) (hserved : Served s) {choice : Nat → Nat} (hfinds : Finds s choice) :
    ∃ n, s.shared.accepted.Subperm (runAlone s choice n).shared.executed := by
  by_cases hexited : s.shared.worker.exited = true
  · exact ⟨0, (h.executed hserved hexited).symm.subperm⟩
  · have hone := hserved.serves
    rw [if_neg hexited] at hone
    obtain ⟨n, hidle, hserves⟩ := Run.exists_after
      (fun s : WorkerThreads τ => Working s.ops ∧ weight WorkerAction.serves s.ops = 1)
      (fun s => Idle s ∧ weight WorkerAction.serves s.ops = 1) remaining (fun n => Event.step 0 (choice n))
      (fun n hworking hbusy => by
        obtain ⟨hnext, hserves, hless⟩ := hworking.1.step hworking.2 (fun hidle => hbusy ⟨hidle, hworking.2⟩) (hfinds n)
        exact ⟨⟨hnext, hserves⟩, hless⟩)
      ⟨hserved.working (Bool.eq_false_iff.2 hexited), hone⟩
    have hcounted : Counted (runAlone s choice n) := Run.after_inv Counted
      (fun t n ht => counted_preserves.step t _ ht (Program.atAction_true t _)) h.counted n
    refine ⟨n, List.subperm_iff_count.2 fun t => ?_⟩
    have hle : s.shared.accepted.count t ≤ (runAlone s choice n).shared.accepted.count t :=
      Run.after_inv (fun u : WorkerThreads τ => s.shared.accepted.count t ≤ u.shared.accepted.count t)
        (fun u _ hu => Nat.le_trans hu (accepted_step t u _)) (Nat.le_refl _) n
    rw [hcounted.executed hserves hidle t]
    exact hle

/-! ## Runs -/

/-- No task runs twice, and none whose `Post` returned in time is lost; the worker's thread has all that came in executed
by its own steps, and when `Run` has ended, all has been. -/
structure Kept (s : WorkerThreads τ) : Prop where
  once     : (s.shared.executed ++ s.shared.worker.events).Subperm s.shared.accepted
  owed     : s.shared.owed.Subperm s.shared.accepted
  progress : ∀ choice, Finds s choice → ∃ n, s.shared.accepted.Subperm (runAlone s choice n).shared.executed
  exited   : s.shared.worker.exited = true → s.shared.worker.events = [] ∧ s.shared.executed.Perm s.shared.accepted

theorem Held.kept (h : Held s) (hserved : Served s) : Kept s where
  once     := by
    rw [List.subperm_iff_count]
    intro t
    have hcount := h.counted t
    rw [List.count_append]
    omega
  owed     := by
    rw [List.subperm_iff_count]
    exact h.owed
  progress := fun _ hfinds => h.progress hserved hfinds
  exited   := fun hexited => ⟨hserved.empty hexited, h.executed hserved hexited⟩

theorem held_preserves : Program.Preserves program Timely fun s : WorkerThreads τ => Served s ∧ Held s where
  call := fun _ hs _ _ _ _ hcall hstarted => ⟨hs.1.call hcall hstarted, hs.2.call hcall hstarted⟩
  act  := fun _ hs _ _ _ _ _ _ hk hQ hact => ⟨hs.1.act hk hQ hact, hs.2.act hs.1 hk hQ hact⟩

/-- **In a run in which no `Post` comes before `OnStart` and no task behind the end of `Run`, every task whose `Post`
returned before anyone asked the worker to stop came in, and what came in runs once: the worker's thread does not stop
before it has executed it.** -/
theorem run_accepted (events : List (Event Nat (WorkerCall τ)))
    (h : Along program.step (Program.AtAction Timely) init events) : Kept (events.foldl program.step init) := by
  have hinit : Served (τ := τ) init ∧ Held (τ := τ) init := by
    refine ⟨⟨rfl, fun _ => ⟨[], .onStart, rfl, rfl, by simp⟩, fun hexited => (nomatch hexited), fun hm => ?_⟩, fun t => rfl,
      fun t => Nat.le_refl _⟩
    rcases hm with hm | ⟨op, hop, hmem⟩
    · cases hm
    · rw [List.mem_singleton.1 hop] at hmem
      simp at hmem
  obtain ⟨hserved, hheld⟩ := held_preserves.run events hinit h
  exact hheld.kept hserved

/-- Two tasks, of which the first one posts a third and stops the worker. -/
def stoppedByTask : List (Event Nat (WorkerCall Nat)) :=
  ([.step 0 0, .call (.post 1), .call (.post 2)] : List (Event Nat (WorkerCall Nat))) ++ List.replicate 3 (Event.step 1 0) ++
    List.replicate 3 (Event.step 2 0) ++ List.replicate 2 (Event.step 0 0) ++ [Event.inside 0 (WorkerCall.post 3)] ++
    List.replicate 3 (Event.step 0 0) ++ [Event.inside 0 WorkerCall.stop] ++ List.replicate 10 (Event.step 0 0)

theorem run_accepted_stoppedByTask : Kept (stoppedByTask.foldl program.step init) :=
  run_accepted stoppedByTask (by decide)

/-- A task that is posted before the thread has come to `OnStart`. -/
theorem not_run_accepted : ¬∀ events : List (Event Nat (WorkerCall Nat)), Kept (events.foldl program.step init) := by
  intro h
  have howed := (h [.call (.post 1), .step 1 0, .step 1 0]).owed
  rw [List.subperm_iff_count] at howed
  exact absurd (howed 1) (by decide)

end WorkerTasks

end Gb
