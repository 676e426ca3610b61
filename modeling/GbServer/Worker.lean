import Mathlib.Algebra.Order.Ring.Int
import Mathlib.Data.List.Basic
/-!
# Worker — workers, the threads they run on, and their executors

`Worker` (`worker.cpp`), `WorkerManager` (`worker_manager.cpp`) and `WorkerExecutor` (`executor.h`).  A worker object is
named by a number, and what is left of it is in a heap: a weak pointer is the name, and locking it looks it up.  A task
is taken from the queue at any place: the queue keeps no order between the threads that put tasks in.
-/
namespace Gb

/-- The identity of a `Worker` object. -/
abbrev WorkerId := Nat

/-- A `Worker`, with tasks of type `τ`.  `executor` is whether `Init` has made the executor, `exited` whether `Run` has
come to its end.  The calls in `pendingRpcs` have numbers for names. -/
structure Worker (τ : Type) where
  index         : Nat := 0
  executor      : Bool := false
  runing        : Bool := false
  shuttingDown  : Bool := false
  exited        : Bool := false
  events        : List τ := []
  rpcSeqCounter : Nat := 1
  pendingRpcs   : Nat → Option Nat := fun _ => none

/-- The threads: those of the IO services, those of the workers, and the others. -/
inductive Thread
  | io (n : Nat)
  | worker (id : WorkerId)
  | other (n : Nat)
  deriving DecidableEq

namespace Worker

variable {τ : Type}

/-- `Init`. -/
def init (w : Worker τ) (index : Nat) : Worker τ := { w with index := index % 2 ^ 32, executor := true }

/-- `OnStart`, as far as the tasks see it. -/
def onStart (w : Worker τ) : Worker τ := { w with runing := true }

def stop (w : Worker τ) : Worker τ := { w with runing := false }

def enterShutdownMode (w : Worker τ) : Worker τ := { w with shuttingDown := true }

/-- `Run` ends when it has been stopped and has no more tasks. -/
def exit (w : Worker τ) : Worker τ := if !w.runing && w.events.isEmpty then { w with exited := true } else w

/-- The checks of `EnqueueTask`. -/
def accepts (w : Worker τ) (force : Bool) : Bool :=
  if !force && w.shuttingDown then false else w.runing

def enqueue (w : Worker τ) (handler : τ) : Worker τ := { w with events := w.events ++ [handler] }

/-- `EnqueueTask`. -/
def enqueueTask (w : Worker τ) (handler : τ) (force : Bool) : Worker τ × Bool :=
  if w.accepts force then (w.enqueue handler, true) else (w, false)

/-- `Post`, which does not say whether the task was taken. -/
def post (w : Worker τ) (handler : τ) : Worker τ := (w.enqueueTask handler false).1

theorem mem_post {w : Worker τ} {handler task : τ} (h : task ∈ (w.post handler).events) :
    task ∈ w.events ∨ task = handler := by
  unfold post enqueueTask at h
  split at h
  · exact (List.mem_append.1 h).imp_right List.mem_singleton.1
  · exact .inl h

/-- `AllocRpcSeq`: the counter before the addition. -/
def allocRpcSeq (w : Worker τ) : Nat × Worker τ :=
  (w.rpcSeqCounter, { w with rpcSeqCounter := (w.rpcSeqCounter + 1) % 2 ^ 32 })

def storePendingRpc (w : Worker τ) (localSeq call : Nat) : Worker τ :=
  { w with pendingRpcs := Function.update w.pendingRpcs localSeq (some call) }

def takePendingRpc (w : Worker τ) (localSeq : Nat) : Option Nat × Worker τ :=
  (w.pendingRpcs localSeq, { w with pendingRpcs := Function.update w.pendingRpcs localSeq none })

end Worker

/-- What happens to a worker object. -/
inductive WorkerEvent
  | init (index : Nat)
  | onStart
  | enterShutdownMode
  | stop
  | exit

def WorkerEvent.apply {τ : Type} (w : Worker τ) : WorkerEvent → Worker τ
  | init index        => w.init index
  | onStart           => w.onStart
  | enterShutdownMode => w.enterShutdownMode
  | stop              => w.stop
  | exit              => w.exit

theorem WorkerEvent.events_apply {τ : Type} (w : Worker τ) (event : WorkerEvent) : (event.apply w).events = w.events := by
  cases event with
  | exit =>
    change w.exit.events = w.events
    unfold Worker.exit
    split <;> rfl
  | _    => rfl

/-- The `WorkerManager` and the worker objects that are left. -/
structure Workers (τ : Type) where
  heap       : WorkerId → Option (Worker τ) := fun _ => none
  mainWorker : Option WorkerId := none
  workers    : List WorkerId := []

namespace Workers

variable {τ : Type}

/-- `GetWorker`. -/
def getWorker (ws : Workers τ) (index : Nat) : Option WorkerId :=
  if index = 0 then ws.mainWorker else ws.workers[index - 1]?

/-- `GetCurWorker`. -/
def getCurWorker : Thread → Option WorkerId
  | .worker id => some id
  | _          => none

def update (ws : Workers τ) (id : WorkerId) (w : Option (Worker τ)) : Workers τ :=
  { ws with heap := Function.update ws.heap id w }

/-- A change of a worker that is left. -/
def modify (ws : Workers τ) (id : WorkerId) (f : Worker τ → Worker τ) : Workers τ :=
  ws.update id ((ws.heap id).map f)

def post (ws : Workers τ) (id : WorkerId) (task : τ) : Workers τ := ws.modify id fun w => w.post task

/-- The tasks in the queue of a worker. -/
def tasks (ws : Workers τ) (id : WorkerId) : List τ := ((ws.heap id).map Worker.events).getD []

theorem tasks_update_self (ws : Workers τ) (id : WorkerId) (w : Option (Worker τ)) :
    (ws.update id w).tasks id = (w.map Worker.events).getD [] := by
  simp [tasks, update]

theorem tasks_update_of_ne (ws : Workers τ) {id j : WorkerId} (h : j ≠ id) (w : Option (Worker τ)) :
    (ws.update id w).tasks j = ws.tasks j := by
  simp [tasks, update, h]

theorem tasks_modify_of_ne (ws : Workers τ) {id j : WorkerId} (h : j ≠ id) (f : Worker τ → Worker τ) :
    (ws.modify id f).tasks j = ws.tasks j := ws.tasks_update_of_ne h _

/-- A task that is there after a change of its worker. -/
theorem mem_tasks_modify {ws : Workers τ} {id : WorkerId} {f : Worker τ → Worker τ} {task : τ}
    (h : task ∈ (ws.modify id f).tasks id) : ∃ w, ws.heap id = some w ∧ task ∈ (f w).events := by
  rw [modify, tasks_update_self] at h
  cases hw : ws.heap id with
  | none   =>
    rw [hw] at h
    cases h
  | some w =>
    rw [hw] at h
    exact ⟨w, rfl, h⟩

theorem isSome_heap_modify (ws : Workers τ) (id : WorkerId) (f : Worker τ → Worker τ) (j : WorkerId) :
    ((ws.modify id f).heap j).isSome = (ws.heap j).isSome := by
  change (Function.update ws.heap id ((ws.heap id).map f) j).isSome = _
  by_cases hj : j = id
  · subst hj
    rw [Function.update_self, Option.isSome_map]
  · rw [Function.update_of_ne hj]

theorem mem_tasks_of_heap {ws : Workers τ} {id : WorkerId} {w : Worker τ} {task : τ} (hw : ws.heap id = some w)
    (h : task ∈ w.events) : task ∈ ws.tasks id := by
  rw [tasks, hw]
  exact h

theorem mem_tasks_post {ws : Workers τ} {id j : WorkerId} {handler task : τ} (h : task ∈ (ws.post id handler).tasks j) :
    task ∈ ws.tasks j ∨ j = id ∧ task = handler := by
  by_cases hj : j = id
  · subst hj
    obtain ⟨w, hw, hmem⟩ := mem_tasks_modify h
    rcases Worker.mem_post hmem with hmem | htask
    · exact .inl (mem_tasks_of_heap hw hmem)
    · exact .inr ⟨rfl, htask⟩
  · rw [post, ws.tasks_modify_of_ne hj] at h
    exact .inl h

end Workers

/-- A `WorkerExecutor`; the first field is a weak pointer. -/
structure WorkerExecutor (τ : Type) where
  worker         : Option WorkerId := none
  dispatch_      : Option (τ → Workers τ → Workers τ) := none
  inExecutor     : Option (Thread → Bool) := none
  inlineFallback : Bool := true

namespace WorkerExecutor

variable {τ : Type}

/-- `Worker::GetExecutor`, and `WorkerExecutor::Worker` where `Init` has not made one yet. -/
def ofWorker (ws : Workers τ) (id : WorkerId) : WorkerExecutor τ :=
  if (ws.heap id).any Worker.executor then { worker := some id, inlineFallback := false } else { worker := some id }

/-- `worker_.lock()`. -/
def lock (ws : Workers τ) (e : WorkerExecutor τ) : Option (WorkerId × Worker τ) :=
  e.worker.bind fun id => (ws.heap id).map fun w => (id, w)

/-- `IsCurrent`: a worker is known by its index. -/
def isCurrent (ws : Workers τ) (e : WorkerExecutor τ) (thread : Thread) : Bool :=
  match e.lock ws with
  | some (_, w) =>
    match (Workers.getCurWorker thread).bind ws.heap with
    | some current => decide (current.index = w.index)
    | none         => false
  | none => e.inExecutor.any fun inExecutor => inExecutor thread

/-- `Dispatch` on a thread: the task if it is run right there, and the workers. -/
def dispatch (ws : Workers τ) (e : WorkerExecutor τ) (thread : Thread) (fn : τ) : Option τ × Workers τ :=
  match e.lock ws with
  | some (id, _) => if e.isCurrent ws thread then (some fn, ws) else (none, ws.post id fn)
  | none =>
    match e.dispatch_ with
    | some dispatch => if e.isCurrent ws thread then (some fn, ws) else (none, dispatch fn ws)
    | none          => if e.inlineFallback then (some fn, ws) else (none, ws)

/-- On an IO thread, an executor that has no function of its own gives the task to its worker, and where that is gone it
runs the task or drops it. -/
theorem dispatch_io {ws : Workers τ} {e : WorkerExecutor τ} (he : e.dispatch_ = none) (io : Nat) (fn : τ) :
    (∃ id, e.worker = some id ∧ (ws.heap id).isSome = true ∧ e.dispatch ws (.io io) fn = (none, ws.post id fn)) ∨
      (∀ id, e.worker = some id → (ws.heap id).isSome = false) ∧
        e.dispatch ws (.io io) fn = (if e.inlineFallback then some fn else none, ws) := by
  have hnone : e.lock ws = none → e.dispatch ws (.io io) fn = (if e.inlineFallback then some fn else none, ws) := by
    intro hlock
    rw [dispatch, hlock]
    dsimp only
    rw [he]
    cases e.inlineFallback <;> rfl
  cases hworker : e.worker with
  | none    =>
    have hlock : e.lock ws = none := by rw [lock, hworker, Option.bind_none]
    exact .inr ⟨fun id hid => (nomatch hid), hnone hlock⟩
  | some id =>
    cases hheap : ws.heap id with
    | none   =>
      have hlock : e.lock ws = none := by rw [lock, hworker, Option.bind_some, hheap, Option.map_none]
      refine .inr ⟨fun j hj => ?_, hnone hlock⟩
      rw [← Option.some.inj hj, hheap]
      rfl
    | some w =>
      have hlock : e.lock ws = some (id, w) := by rw [lock, hworker, Option.bind_some, hheap, Option.map_some]
      have hcurrent : e.isCurrent ws (.io io) = false := by
        rw [isCurrent, hlock]
        rfl
      refine .inl ⟨id, rfl, by rw [hheap]; rfl, ?_⟩
      rw [dispatch, hlock]
      dsimp only
      rw [hcurrent]
      rfl

end WorkerExecutor

end Gb
