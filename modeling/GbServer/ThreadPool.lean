import GbServer.Lib.Interleaving
import Mathlib.Data.List.Perm.Subperm
/-!
# ThreadPool — tasks that any threads hand to the threads of a pool

`ThreadPool` (`thread_pool.h`) from `Init` on: `Execute` called from any threads and by the tasks themselves, and one
`Stop`.  A task is a `std::function`, `none` the empty one.

The queue is a `moodycamel::ConcurrentQueue`: `try_dequeue` takes one of its tasks, any of them, and may miss those that
are there as long as other threads take tasks too.  `WaitForTask` ends by its timeout at the latest.  `live` counts the
threads that have not left `WorkerLoop`, which `Stop` joins; `accepted` records the tasks whose `Execute` saw the pool
running, `executed` those that have returned, `drained` how many were taken after the loop.

`run_completed` leaves out the runs in which a call of `Execute` that saw the pool running has not put its task into the
queue when the last thread finds it empty.
-/
namespace Gb

open Run (Along)
open Threads Interleaving Tally

variable {τ : Type}

structure ThreadPool (τ : Type) where
  running  : Bool := true
  pending  : Nat := 0
  queue    : List (Option τ) := []
  live     : Nat
  stopping : Bool := false
  stopped  : Bool := false
  accepted : List τ := []
  executed : List τ := []
  drained  : Nat := 0

inductive PoolAction (τ : Type)
  | execute (task : Option τ)
  | addPending (task : Option τ)
  | enqueue (task : Option τ)
  | stop
  | storeRunning
  | join
  | loop
  | dequeue
  | subPending (task : Option τ)
  | run (task : Option τ) (draining : Bool)
  | waitForTask
  | drain
  deriving DecidableEq

inductive PoolCall (τ : Type)
  | execute (task : Option τ)
  | stop

namespace ThreadPool

variable (s : ThreadPool τ)

/-- The input of a step is the place in the queue of the task that `try_dequeue` finds. -/
def act (index : Nat) : PoolAction τ → Option (ThreadPool τ × List (PoolAction τ))
  | .execute task      =>
    if s.running then some ({ s with accepted := s.accepted ++ task.toList }, [.addPending task]) else some (s, [])
  | .addPending task   => some ({ s with pending := s.pending + 1 }, [.enqueue task])
  | .enqueue task      => some ({ s with queue := s.queue ++ [task] }, [])
  | .stop              => some (s, if s.running then [.storeRunning] else [])
  | .storeRunning      => some ({ s with running := false }, [.join])
  | .join              => if s.live = 0 then some ({ s with stopped := true }, []) else none
  | .loop              => some (s, [if s.running then .dequeue else .drain])
  | .dequeue           =>
    match s.queue[index]? with
    | some task => some ({ s with queue := s.queue.eraseIdx index }, [.subPending task])
    | none      => if s.queue = [] ∨ 1 < s.live then some (s, [.waitForTask]) else none
  | .subPending task   => some ({ s with pending := s.pending - 1 }, [.run task false])
  | .run task draining =>
    some ({ s with executed := s.executed ++ task.toList }, [if draining then .drain else .loop])
  | .waitForTask       => some (s, [.loop])
  | .drain             =>
    match s.queue[index]? with
    | some task => some ({ s with queue := s.queue.eraseIdx index, drained := s.drained + 1 }, [.run task true])
    | none      => if s.queue = [] ∨ 1 < s.live then some ({ s with live := s.live - 1 }, []) else none

/-- `Stop` is called once. -/
def call : PoolCall τ → Option (ThreadPool τ × List (PoolAction τ))
  | .execute task => some (s, [.execute task])
  | .stop         => if s.stopping then none else some ({ s with stopping := true }, [.stop])

/-- Tasks call the pool. -/
def calls : PoolAction τ → Bool
  | .run _ _ => true
  | _        => false

def program : Program (ThreadPool τ) Nat (PoolCall τ) (PoolAction τ) := ⟨act, call, calls⟩

def threadCount (threads hardware : Nat) : Nat :=
  let count := if threads = 0 then hardware else threads
  if count = 0 then 1 else count

/-- After `Init`. -/
def init (threads hardware : Nat) : State (ThreadPool τ) (PoolAction τ) :=
  ⟨{ live := threadCount threads hardware }, List.replicate (threadCount threads hardware) [.loop]⟩

end ThreadPool

/-! ## What the threads carry -/

namespace PoolAction

/-- A thread of the pool has one such action at a time, until it leaves. -/
def serves : PoolAction τ → Nat
  | loop         => 1
  | dequeue      => 1
  | subPending _ => 1
  | run _ _      => 1
  | waitForTask  => 1
  | drain        => 1
  | _            => 0

/-- Out of the loop. -/
def drains : PoolAction τ → Bool
  | run _ draining => draining
  | drain          => true
  | _              => false

/-- In a call of `Execute` that saw the pool running. -/
def adds : PoolAction τ → Bool
  | addPending _ => true
  | enqueue _    => true
  | _            => false

/-- Between an access of `pending_` and the one of the queue that goes with it. -/
def counts : PoolAction τ → Nat
  | enqueue _    => 1
  | subPending _ => 1
  | _            => 0

/-- In `Stop`. -/
def stops : PoolAction τ → Bool
  | stop         => true
  | storeRunning => true
  | join         => true
  | _            => false

variable [DecidableEq τ]

/-- How often an action carries a task that was accepted and has not run. -/
def carries (t : τ) : PoolAction τ → Nat
  | addPending task => task.toList.count t
  | enqueue task    => task.toList.count t
  | subPending task => task.toList.count t
  | run task _      => task.toList.count t
  | _               => 0

end PoolAction

abbrev PoolThreads (τ : Type) := State (ThreadPool τ) (PoolAction τ)

namespace ThreadPool

/-- The condition on a step.  When the last thread leaves, no task that was accepted is on its way to the queue. -/
def Settled (s : PoolThreads τ) (_ : Nat) (_ : Nat) (a : PoolAction τ) : Prop :=
  a = .drain → s.shared.live = 1 → s.shared.queue = [] → ¬Anywhere s.ops PoolAction.adds

instance [DecidableEq τ] (s : PoolThreads τ) (k index : Nat) (a : PoolAction τ) : Decidable (Settled s k index a) :=
  inferInstanceAs (Decidable (_ → _ → _ → _))

variable {s : PoolThreads τ} {shared : ThreadPool τ} {ops : List (List (PoolAction τ))} {k index : Nat}
  {a : PoolAction τ} {rest pushed : List (PoolAction τ)}

/-- A call begins with an action of its own, and changes nothing that is counted. -/
theorem call_cases {c : PoolCall τ} {op : List (PoolAction τ)} (h : s.shared.call c = some (shared, op)) :
    ∃ stopping a, shared = { s.shared with stopping } ∧ op = [a] ∧ ((∃ task, a = .execute task) ∨ a = .stop) := by
  cases c with
  | execute task =>
    cases h
    exact ⟨_, _, rfl, rfl, .inl ⟨task, rfl⟩⟩
  | stop         =>
    simp only [ThreadPool.call] at h
    by_cases hstopping : s.shared.stopping = true
    · rw [if_pos hstopping] at h
      cases h
    · rw [if_neg hstopping] at h
      cases h
      exact ⟨_, _, rfl, rfl, .inr rfl⟩

/-- What `try_dequeue` does with the queue. -/
theorem dequeue_cases {α : Type} {queue : List (Option τ)} {live : Nat} {found : Option τ → α} {empty : α} {r : α}
    (h : (match queue[index]? with
      | some task => some (found task)
      | none      => if queue = [] ∨ 1 < live then some empty else none) = some r) :
    (∃ task, queue[index]? = some task ∧ r = found task) ∨ ((queue = [] ∨ 1 < live) ∧ r = empty) := by
  cases hindex : queue[index]? with
  | some task =>
    rw [hindex] at h
    exact .inl ⟨task, rfl, (Option.some.inj h).symm⟩
  | none      =>
    rw [hindex] at h
    dsimp only at h
    by_cases hempty : queue = [] ∨ 1 < live
    · rw [if_pos hempty] at h
      exact .inr ⟨hempty, (Option.some.inj h).symm⟩
    · rw [if_neg hempty] at h
      cases h

theorem length_eraseIdx_add {queue : List (Option τ)} {task : Option τ} (h : queue[index]? = some task) :
    (queue.eraseIdx index).length + 1 = queue.length := by
  obtain ⟨hlt, _⟩ := List.getElem?_eq_some_iff.1 h
  rw [List.length_eraseIdx_of_lt hlt]
  omega

/-! ## Counts -/

/-- How many of the threads' actions and of the queued tasks the counters stand for. -/
structure Counted (s : PoolThreads τ) : Prop where
  pending : s.shared.pending = s.shared.queue.length + weight PoolAction.counts s.ops + s.shared.drained
  live    : s.shared.live = weight PoolAction.serves s.ops

theorem Counted.call (h : Counted s) {c : PoolCall τ} {op : List (PoolAction τ)}
    (hcall : s.shared.call c = some (shared, op)) (hstarted : program.Started op s.ops ops) : Counted ⟨shared, ops⟩ := by
  have hcounts := hstarted.weight PoolAction.counts
  have hserves := hstarted.weight PoolAction.serves
  obtain ⟨stopping, a, rfl, rfl, ha⟩ := call_cases hcall
  have hzero : a.counts = 0 ∧ a.serves = 0 := by
    rcases ha with ⟨task, rfl⟩ | rfl <;> exact ⟨rfl, rfl⟩
  rw [weight_cons, tally_cons, tally_nil] at hcounts hserves
  have hpending := h.pending
  have hlive := h.live
  constructor <;> dsimp only <;> omega

/-- An action that changes the counters by what it takes from the threads and the queue. -/
theorem Counted.advance (h : Counted s) (hk : s.ops[k]? = some (a :: rest))
    (hpending : shared.pending + (s.shared.queue.length + a.counts + s.shared.drained) =
      s.shared.pending + (shared.queue.length + tally PoolAction.counts pushed + shared.drained))
    (hlive : shared.live + a.serves = s.shared.live + tally PoolAction.serves pushed) :
    Counted ⟨shared, advance s.ops k pushed⟩ where
  pending := by
    have hweight := weight_advance PoolAction.counts pushed hk
    have hbefore := h.pending
    dsimp only
    omega
  live    := by
    have hweight := weight_advance PoolAction.serves pushed hk
    have hbefore := h.live
    dsimp only
    omega

theorem Counted.act (h : Counted s) (hk : s.ops[k]? = some (a :: rest)) (hact : s.shared.act index a = some (shared, pushed)) :
    Counted ⟨shared, Threads.advance s.ops k pushed⟩ := by
  cases a with
  | addPending task =>
    cases hact
    apply h.advance hk <;> simp [PoolAction.counts, PoolAction.serves]
    omega
  | enqueue task =>
    cases hact
    apply h.advance hk <;> simp [PoolAction.counts, PoolAction.serves]
  | subPending task =>
    -- the task that was taken is still counted
    have hle := le_weight PoolAction.counts (has_of_getElem? hk)
    have hbefore := h.pending
    simp only [PoolAction.counts] at hle
    cases hact
    apply h.advance hk
    · simp only [PoolAction.counts, tally_cons, tally_nil]
      omega
    · rfl
  | dequeue =>
    rcases dequeue_cases hact with ⟨task, htask, heq⟩ | ⟨_, heq⟩
    · have hlength := length_eraseIdx_add htask
      cases heq
      apply h.advance hk
      · simp only [PoolAction.counts, tally_cons, tally_nil]
        omega
      · rfl
    · cases heq
      exact h.advance hk rfl rfl
  | drain =>
    rcases dequeue_cases hact with ⟨task, htask, heq⟩ | ⟨_, heq⟩
    · have hlength := length_eraseIdx_add htask
      cases heq
      apply h.advance hk
      · simp only [PoolAction.counts, tally_cons, tally_nil]
        omega
      · rfl
    · have hle := le_weight PoolAction.serves (has_of_getElem? hk)
      have hlive := h.live
      simp only [PoolAction.serves] at hle
      cases heq
      apply h.advance hk
      · rfl
      · simp only [PoolAction.serves, tally_nil]
        omega
  | execute task =>
    simp only [ThreadPool.act] at hact
    split at hact <;> cases hact <;> exact h.advance hk rfl rfl
  | join =>
    simp only [ThreadPool.act] at hact
    split at hact <;> cases hact
    exact h.advance hk rfl rfl
  | stop | loop =>
    cases hact
    apply h.advance hk <;> split <;> rfl
  | run task draining =>
    cases hact
    cases draining <;> exact h.advance hk rfl rfl
  | _ =>
    cases hact
    exact h.advance hk rfl rfl

/-! ## The end of the pool -/

/-- When no thread is left, the pool does not run and nothing is on its way to the queue. -/
structure Emptied (s : PoolThreads τ) : Prop where
  counted  : Counted s
  draining : Anywhere s.ops PoolAction.drains → s.shared.running = false
  empty    : s.shared.live = 0 → s.shared.running = false ∧ s.shared.queue = [] ∧ ¬Anywhere s.ops PoolAction.adds
  stopped  : s.shared.stopped = true → s.shared.live = 0

theorem Emptied.call (h : Emptied s) {c : PoolCall τ} {op : List (PoolAction τ)}
    (hcall : s.shared.call c = some (shared, op)) (hstarted : program.Started op s.ops ops) : Emptied ⟨shared, ops⟩ := by
  have hcounted := h.counted.call hcall hstarted
  obtain ⟨stopping, a, rfl, rfl, ha⟩ := call_cases hcall
  have hold : ∀ {w : PoolAction τ → Bool}, w a = false → Anywhere ops w → Anywhere s.ops w := by
    rintro w hwa ⟨b, hb, hwb⟩
    rcases has_cons.1 ((hstarted.has b).1 hb) with hmem | hb
    · rw [List.mem_singleton.1 hmem, hwa] at hwb
      cases hwb
    · exact ⟨b, hb, hwb⟩
  have hnew : a.drains = false ∧ a.adds = false := by
    rcases ha with ⟨task, rfl⟩ | rfl <;> exact ⟨rfl, rfl⟩
  refine ⟨hcounted, fun hw => h.draining (hold hnew.1 hw), fun hlive => ?_, h.stopped⟩
  obtain ⟨hrunning, hqueue, hadds⟩ := h.empty hlive
  exact ⟨hrunning, hqueue, fun hw => hadds (hold hnew.2 hw)⟩

/-- A thread of the pool is counted in `live`. -/
theorem Counted.live_pos (h : Counted s) (hk : s.ops[k]? = some (a :: rest)) (ha : a.serves = 1) : 0 < s.shared.live := by
  have hle := le_weight PoolAction.serves (has_of_getElem? hk)
  have hlive := h.live
  omega

/-- What an action changes for a pool that has threads. -/
theorem Emptied.of_same (h : Emptied s) (hk : s.ops[k]? = some (a :: rest)) (hcounted : Counted ⟨shared, advance s.ops k pushed⟩)
    (hrunning : shared.running = s.shared.running) (hlive : shared.live = s.shared.live)
    (hstopped : shared.stopped = true → s.shared.live = 0)
    (hdrains : ∀ b ∈ pushed, b.drains = true → s.shared.running = false)
    (hempty : s.shared.live = 0 → s.shared.running = false → s.shared.queue = [] → ¬Anywhere s.ops PoolAction.adds →
      shared.queue = [] ∧ ∀ b ∈ pushed, b.adds = false) : Emptied ⟨shared, advance s.ops k pushed⟩ := by
  refine ⟨hcounted, ?_, fun hzero => ?_, fun hstop => hlive.trans (hstopped hstop)⟩
  · rintro ⟨b, hb, hwb⟩
    refine hrunning.trans ?_
    rcases (has_advance hk).1 hb with hmem | hb
    · exact hdrains b hmem hwb
    · exact h.draining ⟨b, hb.of_advance, hwb⟩
  · obtain ⟨hbefore, hqueue, hadds⟩ := h.empty (hlive ▸ hzero)
    obtain ⟨hafter, hnew⟩ := hempty (hlive ▸ hzero) hbefore hqueue hadds
    exact ⟨hrunning.trans hbefore, hafter, fun hw => hadds (hw.of_advance hk hnew)⟩

theorem Emptied.act (h : Emptied s) (hk : s.ops[k]? = some (a :: rest)) (hQ : Settled s k index a)
    (hact : s.shared.act index a = some (shared, pushed)) : Emptied ⟨shared, advance s.ops k pushed⟩ := by
  have hcounted := h.counted.act hk hact
  -- the threads of the pool are there
  have hserves : a.serves = 1 → ¬s.shared.live = 0 := fun ha => Nat.ne_of_gt (h.counted.live_pos hk ha)
  cases a with
  | execute task =>
    simp only [ThreadPool.act] at hact
    by_cases hrunning : s.shared.running = true
    · rw [if_pos hrunning] at hact
      cases hact
      apply h.of_same hk hcounted rfl rfl h.stopped
      · simp [PoolAction.drains]
      · intro _ hstopped
        rw [hrunning] at hstopped
        cases hstopped
    · rw [if_neg hrunning] at hact
      cases hact
      exact h.of_same hk hcounted rfl rfl h.stopped (by simp) fun _ _ hqueue _ => ⟨hqueue, by simp⟩
  | addPending task | enqueue task =>
    cases hact
    apply h.of_same hk hcounted rfl rfl h.stopped
    · simp [PoolAction.drains]
    · exact fun _ _ _ hadds => absurd ⟨_, has_of_getElem? hk, rfl⟩ hadds
  | stop =>
    cases hact
    apply h.of_same hk hcounted rfl rfl h.stopped
    · split <;> simp [PoolAction.drains]
    · exact fun _ _ hqueue _ => ⟨hqueue, by split <;> simp [PoolAction.adds]⟩
  | storeRunning =>
    cases hact
    refine ⟨hcounted, fun _ => rfl, fun hlive => ?_, h.stopped⟩
    obtain ⟨_, hqueue, hadds⟩ := h.empty hlive
    exact ⟨rfl, hqueue, fun hw => hadds (hw.of_advance hk (by simp [PoolAction.adds]))⟩
  | join =>
    simp only [ThreadPool.act] at hact
    by_cases hlive : s.shared.live = 0
    · rw [if_pos hlive] at hact
      cases hact
      exact h.of_same hk hcounted rfl rfl (fun _ => hlive) (by simp) fun _ _ hqueue _ => ⟨hqueue, by simp⟩
    · rw [if_neg hlive] at hact
      cases hact
  | loop =>
    cases hact
    apply h.of_same hk hcounted rfl rfl h.stopped
    · cases s.shared.running <;> simp [PoolAction.drains]
    · exact fun hlive => absurd hlive (hserves rfl)
  | dequeue =>
    rcases dequeue_cases hact with ⟨task, _, heq⟩ | ⟨_, heq⟩
    all_goals
      cases heq
      apply h.of_same hk hcounted rfl rfl h.stopped
      · simp [PoolAction.drains]
      · exact fun hlive => absurd hlive (hserves rfl)
  | drain =>
    have hrunning := h.draining ⟨_, has_of_getElem? hk, rfl⟩
    rcases dequeue_cases hact with ⟨task, _, heq⟩ | ⟨hmissed, heq⟩
    · cases heq
      apply h.of_same hk hcounted rfl rfl h.stopped
      · exact fun _ _ _ => hrunning
      · exact fun hlive => absurd hlive (hserves rfl)
    · cases heq
      refine ⟨hcounted, fun _ => hrunning, fun hlive => ?_, fun hstopped => ?_⟩
      · have hlast : s.shared.live = 1 := by
          have hne := hserves rfl
          dsimp only at hlive
          omega
        have hqueue : s.shared.queue = [] := hmissed.resolve_right (by omega)
        exact ⟨hrunning, hqueue, fun hw => hQ rfl hlast hqueue (hw.of_advance hk (by simp))⟩
      · exact absurd (h.stopped hstopped) (hserves rfl)
  | subPending task | waitForTask =>
    cases hact
    apply h.of_same hk hcounted rfl rfl h.stopped
    · simp [PoolAction.drains]
    · exact fun hlive => absurd hlive (hserves rfl)
  | run task draining =>
    cases hact
    apply h.of_same hk hcounted rfl rfl h.stopped
    · intro b hb hdrains
      cases draining with
      | false =>
        rw [List.mem_singleton.1 hb] at hdrains
        cases hdrains
      | true  => exact h.draining ⟨_, has_of_getElem? hk, rfl⟩
    · exact fun hlive => absurd hlive (hserves rfl)

/-- Nothing but `Stop` changes whether the pool runs and whether it has stopped. -/
theorem act_stops {s : ThreadPool τ} (ha : a.stops = false) (hact : s.act index a = some (shared, pushed)) :
    shared.running = s.running ∧ shared.stopped = s.stopped ∧ ∀ b ∈ pushed, b.stops = false := by
  cases a with
  | execute task =>
    simp only [ThreadPool.act] at hact
    split at hact <;> cases hact <;> simp [PoolAction.stops]
  | dequeue | drain =>
    rcases dequeue_cases hact with ⟨task, _, heq⟩ | ⟨_, heq⟩ <;> cases heq <;> simp [PoolAction.stops]
  | loop =>
    cases hact
    split <;> simp [PoolAction.stops]
  | run task draining =>
    cases hact
    split <;> simp [PoolAction.stops]
  | stop | storeRunning | join => cases ha
  | _ =>
    cases hact
    simp [PoolAction.stops]

/-! ## Threads that have other things to do too -/

theorem Emptied.congr (h : Emptied s) (hhas : ∀ b, Has ops b ↔ Has s.ops b) (hweight : ∀ w, weight w ops = weight w s.ops) :
    Emptied ⟨s.shared, ops⟩ where
  counted  := ⟨by rw [hweight]; exact h.counted.pending, by rw [hweight]; exact h.counted.live⟩
  draining := fun ⟨b, hb, hdrains⟩ => h.draining ⟨b, (hhas b).1 hb, hdrains⟩
  empty    := fun hlive =>
    ⟨(h.empty hlive).1, (h.empty hlive).2.1, fun ⟨b, hb, hadds⟩ => (h.empty hlive).2.2 ⟨b, (hhas b).1 hb, hadds⟩⟩
  stopped  := h.stopped

theorem Emptied.execute (h : Emptied s) (hrunning : s.shared.running = true) {accepted : List τ} (task : Option τ)
    (hhas : ∀ b, Has ops b ↔ b ∈ [.addPending task] ∨ Has s.ops b)
    (hweight : ∀ w, weight w ops = tally w [.addPending task] + weight w s.ops) :
    Emptied ⟨{ s.shared with accepted }, ops⟩ where
  counted  := by
    have hcounts := hweight PoolAction.counts
    have hserves := hweight PoolAction.serves
    have hpending := h.counted.pending
    have hlive := h.counted.live
    simp only [tally_cons, tally_nil, PoolAction.counts, PoolAction.serves] at hcounts hserves
    constructor <;> dsimp only <;> omega
  draining := fun ⟨b, hb, hdrains⟩ => by
    rcases (hhas b).1 hb with hmem | hb
    · rw [List.mem_singleton.1 hmem] at hdrains
      cases hdrains
    · exact h.draining ⟨b, hb, hdrains⟩
  empty    := fun hlive => by
    have hstopped := (h.empty hlive).1
    rw [hrunning] at hstopped
    cases hstopped
  stopped  := h.stopped

theorem Emptied.storeRunning (h : Emptied s) : Emptied ⟨{ s.shared with running := false }, s.ops⟩ where
  counted  := ⟨h.counted.pending, h.counted.live⟩
  draining := fun _ => rfl
  empty    := fun hlive => ⟨rfl, (h.empty hlive).2⟩
  stopped  := h.stopped

theorem Emptied.join (h : Emptied s) (hlive : s.shared.live = 0) : Emptied ⟨{ s.shared with stopped := true }, s.ops⟩ where
  counted  := ⟨h.counted.pending, h.counted.live⟩
  draining := h.draining
  empty    := h.empty
  stopped  := fun _ => hlive

theorem counted_preserves : Program.Preserves program (fun _ _ _ _ => True) (Counted (τ := τ)) where
  call := fun _ hs _ _ _ _ hcall hstarted => hs.call hcall hstarted
  act  := fun _ hs _ _ _ _ _ _ hk _ hact => hs.act hk hact

theorem emptied_preserves : Program.Preserves program Settled (Emptied (τ := τ)) where
  call := fun _ hs _ _ _ _ hcall hstarted => hs.call hcall hstarted
  act  := fun _ hs _ _ _ _ _ _ hk hQ hact => hs.act hk hQ hact

/-! ## Tasks -/

variable [DecidableEq τ]

/-- How often a task is in the queue. -/
def queued (t : τ) (queue : List (Option τ)) : Nat := tally (fun task => task.toList.count t) queue

/-- An accepted task is with a thread, in the queue, or has run. -/
def Held (s : PoolThreads τ) : Prop := ∀ t, s.shared.accepted.count t =
  s.shared.executed.count t + queued t s.shared.queue + weight (PoolAction.carries t) s.ops

theorem Held.call (h : Held s) {c : PoolCall τ} {op : List (PoolAction τ)}
    (hcall : s.shared.call c = some (shared, op)) (hstarted : program.Started op s.ops ops) : Held ⟨shared, ops⟩ := by
  intro t
  have hweight := hstarted.weight (PoolAction.carries t)
  have hbefore := h t
  obtain ⟨stopping, a, rfl, rfl, ha⟩ := call_cases hcall
  have hzero : a.carries t = 0 := by
    rcases ha with ⟨task, rfl⟩ | rfl <;> rfl
  rw [weight_cons, tally_cons, tally_nil] at hweight
  dsimp only
  omega

/-- Where an action takes a task and where it puts it. -/
theorem Held.advance (h : Held s) (hk : s.ops[k]? = some (a :: rest))
    (hmoved : ∀ t, shared.accepted.count t +
        (s.shared.executed.count t + queued t s.shared.queue + a.carries t) =
      s.shared.accepted.count t +
        (shared.executed.count t + queued t shared.queue + tally (PoolAction.carries t) pushed)) :
    Held ⟨shared, advance s.ops k pushed⟩ := by
  intro t
  have hweight := weight_advance (PoolAction.carries t) pushed hk
  have hbefore := h t
  have hmove := hmoved t
  dsimp only
  omega

theorem Held.act (h : Held s) (hk : s.ops[k]? = some (a :: rest)) (hact : s.shared.act index a = some (shared, pushed)) :
    Held ⟨shared, Threads.advance s.ops k pushed⟩ := by
  have htaken : ∀ {task}, s.shared.queue[index]? = some task → ∀ t,
      queued t (s.shared.queue.eraseIdx index) + task.toList.count t = queued t s.shared.queue :=
    fun htask t => tally_eraseIdx (fun task => task.toList.count t) htask
  cases a with
  | execute task =>
    simp only [ThreadPool.act] at hact
    split at hact <;> cases hact
    · apply h.advance hk
      intro t
      simp only [PoolAction.carries, tally_cons, tally_nil, List.count_append]
      omega
    · exact h.advance hk fun t => rfl
  | enqueue task =>
    cases hact
    apply h.advance hk
    intro t
    simp only [PoolAction.carries, queued, tally_append, tally_cons, tally_nil]
    omega
  | dequeue | drain =>
    rcases dequeue_cases hact with ⟨task, htask, heq⟩ | ⟨_, heq⟩
    · cases heq
      apply h.advance hk
      intro t
      have ht := htaken htask t
      simp only [PoolAction.carries, tally_cons, tally_nil]
      omega
    · cases heq
      exact h.advance hk fun t => rfl
  | run task draining =>
    cases hact
    apply h.advance hk
    intro t
    cases draining <;> simp [PoolAction.carries] <;> omega
  | join =>
    simp only [ThreadPool.act] at hact
    split at hact <;> cases hact
    exact h.advance hk fun t => rfl
  | stop | loop =>
    cases hact
    apply h.advance hk
    intro t
    split <;> rfl
  | _ =>
    cases hact
    exact h.advance hk fun t => rfl

theorem Held.congr (h : Held s) (hweight : ∀ w, weight w ops = weight w s.ops) : Held ⟨s.shared, ops⟩ := by
  intro t
  rw [hweight]
  exact h t

theorem Held.execute (h : Held s) (task : Option τ)
    (hweight : ∀ w, weight w ops = tally w [.addPending task] + weight w s.ops) :
    Held ⟨{ s.shared with accepted := s.shared.accepted ++ task.toList }, ops⟩ := by
  intro t
  have hcarries := hweight (PoolAction.carries t)
  have hbefore := h t
  simp only [tally_cons, tally_nil, PoolAction.carries] at hcarries
  dsimp only
  rw [List.count_append]
  omega

theorem held_preserves : Program.Preserves program (fun _ _ _ _ => True) (Held (τ := τ)) where
  call := fun _ hs _ _ _ _ hcall hstarted => hs.call hcall hstarted
  act  := fun _ hs _ _ _ _ _ _ hk _ hact => hs.act hk hact

/-- Whoever carries a task is a thread of the pool or in a call of `Execute`. -/
theorem carries_pos {t : τ} {b : PoolAction τ} (h : 0 < b.carries t) : b.serves = 1 ∨ b.adds = true := by
  cases b with
  | addPending task => exact .inr rfl
  | enqueue task    => exact .inr rfl
  | subPending task => exact .inl rfl
  | run task _      => exact .inl rfl
  | _               => exact absurd h (Nat.lt_irrefl 0)

theorem Emptied.executed (h : Emptied s) (hheld : Held s) (hlive : s.shared.live = 0) :
    s.shared.executed.Perm s.shared.accepted := by
  rw [List.perm_iff_count]
  intro t
  obtain ⟨_, hqueue, hadds⟩ := h.empty hlive
  have hnone : weight (PoolAction.carries t) s.ops = 0 := by
    apply weight_eq_zero
    intro b hb
    by_contra hne
    rcases carries_pos (Nat.pos_of_ne_zero hne) with hserves | hw
    · have hle := le_weight PoolAction.serves hb
      have hcount := h.counted.live
      omega
    · exact hadds ⟨b, hb, hw⟩
  have hcount := hheld t
  rw [hnone, hqueue] at hcount
  exact hcount.symm

/-! ## Runs -/

variable (threads hardware : Nat)

theorem threadCount_pos : 0 < threadCount threads hardware := by
  unfold threadCount
  grind

omit [DecidableEq τ] in
theorem counted_init : Counted (init (τ := τ) threads hardware) where
  pending := by
    simp [init, weight, tally_replicate, PoolAction.counts]
  live    := by
    simp [init, weight, tally_replicate, PoolAction.serves]

omit [DecidableEq τ] in
theorem emptied_init : Emptied (init (τ := τ) threads hardware) where
  counted  := counted_init threads hardware
  draining := fun ⟨b, ⟨op, hop, hb⟩, hw⟩ => by
    rw [List.eq_of_mem_replicate hop, List.mem_singleton] at hb
    rw [hb] at hw
    cases hw
  empty    := fun hlive => absurd hlive (Nat.ne_of_gt (threadCount_pos threads hardware))
  stopped  := fun hstopped => nomatch hstopped

theorem held_init : Held (init (τ := τ) threads hardware) := by
  intro t
  simp [init, weight, tally_replicate, PoolAction.carries, queued]

/-- No task has run twice, and where nobody is between the count and the queue, `PendingCount` is what is queued and what
was taken after the loop. -/
structure Kept (s : PoolThreads τ) : Prop where
  once    : s.shared.executed.Subperm s.shared.accepted
  pending : (∀ a, Has s.ops a → a.counts = 0) → s.shared.pending = s.shared.queue.length + s.shared.drained

theorem Counted.kept (h : Counted s) (hheld : Held s) : Kept s where
  once    := by
    rw [List.subperm_iff_count]
    intro t
    have hcount := hheld t
    omega
  pending := fun hquiet => by
    have hpending := h.pending
    rw [weight_eq_zero hquiet] at hpending
    exact hpending

/-- **No task runs twice and `PendingCount` counts what it counts in every run; in those in which no task is on its way
to the queue when the last thread leaves, every accepted task has run once when `Stop` returns.** -/
theorem run_completed (events : List (Event Nat (PoolCall τ))) :
    Kept (events.foldl program.step (init threads hardware)) ∧
      (Along program.step (Program.AtAction Settled) (init threads hardware) events →
        (events.foldl program.step (init threads hardware)).shared.stopped = true →
        (events.foldl program.step (init threads hardware)).shared.executed.Perm
          (events.foldl program.step (init threads hardware)).shared.accepted) := by
  have hfree : Along program.step (Program.AtAction fun _ _ _ _ => True) (init (τ := τ) threads hardware) events :=
    Run.along_of_forall fun e _ s => Program.atAction_true s e
  have hheld := held_preserves.run events (held_init threads hardware) hfree
  refine ⟨(counted_preserves.run events (counted_init threads hardware) hfree).kept hheld, fun h hstopped => ?_⟩
  have hemptied := emptied_preserves.run events (emptied_init threads hardware) h
  exact hemptied.executed hheld (hemptied.stopped hstopped)

/-- Two threads and three tasks, of which one is taken after the loop and one comes too late. -/
def stoppedBehind : List (Event Nat (PoolCall Nat)) :=
  ([.call (.execute (some 1)), .call (.execute (some 2))] : List (Event Nat (PoolCall Nat))) ++
    List.replicate 3 (Event.step 2 0) ++ List.replicate 3 (Event.step 3 0) ++ List.replicate 2 (Event.step 0 1) ++
    [Event.call PoolCall.stop] ++ List.replicate 2 (Event.step 4 0) ++
    [Event.step 0 0, Event.inside 0 (PoolCall.execute (some 3))] ++ List.replicate 3 (Event.step 0 0) ++
    List.replicate 4 (Event.step 1 0) ++ [Event.step 0 0, Event.step 4 0]

theorem run_completed_stoppedBehind : Kept (stoppedBehind.foldl program.step (init 2 0)) ∧
    (stoppedBehind.foldl program.step (init 2 0)).shared.executed.Perm [1, 2] :=
  have h := run_completed 2 0 stoppedBehind
  ⟨h.1, h.2 (by decide) (by decide)⟩

/-- A task that is taken after the loop is counted for ever. -/
theorem not_run_completed : ¬∀ (threads hardware : Nat) (events : List (Event Nat (PoolCall Nat))) (s : PoolThreads Nat),
    s = events.foldl program.step (init threads hardware) →
      s.shared.executed.Subperm s.shared.accepted ∧
      ((∀ a, Has s.ops a → a.counts = 0) → s.shared.pending = s.shared.queue.length) ∧
      (s.shared.stopped = true → s.shared.executed.Perm s.shared.accepted) := by
  intro h
  have hpending := (h 1 0 ([.call (.execute (some 0)), .step 1 0, .step 1 0, .step 1 0, .call .stop, .step 2 0, .step 2 0,
    .step 0 0, .step 0 0, .step 0 0, .step 0 0, .step 2 0]) _ rfl).2.1
  refine absurd (hpending ?_) (by decide)
  rintro a ⟨op, hop, ha⟩
  simp [program, Program.step, init, threadCount, call, act, Threads.advance] at hop
  rw [hop] at ha
  cases ha

end ThreadPool

end Gb
